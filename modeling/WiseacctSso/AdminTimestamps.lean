import WiseacctSso.Calendar
import WiseacctSso.Numerals
import WiseacctSso.PythonText

/-!
# Timestamps of the audit log

Records carry naive timestamps in UTC. The API prints them in ISO 8601 and reads the bounds of
a query in the spellings that JavaScript knows, with any offset.
-/
open PythonText
namespace WiseacctSso.AdminTimestamps
open Calendar Numerals

/-! ## datetime -/

inductive DateError
  | valueError
  | overflowError
  deriving DecidableEq

def microsPerMinute : ℤ := 60000000

def microsPerDay : ℕ := 86400000000

def maxMicros : ℕ := maxOrdinal * microsPerDay

/-- A `datetime` without its zone, as the microseconds since the first one. -/
structure Naive where
  micros : ℕ
  inRange : micros < maxMicros
  deriving DecidableEq

namespace Naive

def ofMicros (n : ℤ) : Except DateError Naive :=
  match n with
  | .ofNat micros => if h : micros < maxMicros then .ok ⟨micros, h⟩ else .error .overflowError
  | .negSucc _ => .error .overflowError

/-- `datetime(year, month, day)`. -/
def ofDate (year month day : ℕ) : Except DateError Naive :=
  if IsDate year month day ∧ year ≤ 9999 then ofMicros ((ordinal year month day - 1) * microsPerDay)
  else .error .valueError

/-- `+ timedelta(days=.., hours=.., minutes=.., seconds=.., milliseconds=..)`. -/
def add (t : Naive) (days hours minutes seconds milliseconds : ℕ) : Except DateError Naive :=
  ofMicros ((t.micros + (days * microsPerDay +
    ((3600 * hours + 60 * minutes + seconds) * 1000 + milliseconds) * 1000) : ℕ) : ℤ)

def day (t : Naive) : ℕ := t.micros / microsPerDay + 1

def millis (t : Naive) : ℕ := t.micros % microsPerDay / 1000

end Naive

/-- The offset of the zone in microseconds, if there is a zone. -/
structure DateTime where
  naive : Naive
  offset : Option ℤ
  deriving DecidableEq

/-- Other scripts' digits, the zone of the process, and what `_parse_date` makes of a text that is
no ISO date: `_js_legacy_date` and the parser of RFC 2822 are left out. -/
structure Environment where
  digits : DecimalDigits
  localOffset : Naive → ℤ
  otherDate : Text → Except DateError DateTime

section dates
variable (env : Environment)

/-- `.astimezone(UTC)`. -/
def DateTime.toUtc (t : DateTime) : Except DateError DateTime :=
  (Naive.ofMicros (t.naive.micros - t.offset.getD (env.localOffset t.naive))).map (⟨·, some 0⟩)

/-! ## Printing -/

/-- `isoformat(timespec="milliseconds")` in UTC. -/
def isoformat (t : Naive) : Text :=
  zeroPadded 4 (yearOf t.day) ++ '-' :: (zeroPadded 2 (monthOf t.day) ++ '-' ::
    (zeroPadded 2 (dayOf t.day) ++ 'T' :: (zeroPadded 2 (t.millis / 3600000) ++ ':' ::
      (zeroPadded 2 (t.millis / 60000 % 60) ++ ':' :: (zeroPadded 2 (t.millis / 1000 % 60) ++
        '.' :: (zeroPadded 3 (t.millis % 1000) ++ "+00:00".toList))))))

/-- `.replace("+00:00", "Z")`. -/
def replaceOffset : Text → Text
  | '+' :: '0' :: '0' :: ':' :: '0' :: '0' :: rest => 'Z' :: replaceOffset rest
  | c :: rest => c :: replaceOffset rest
  | [] => []

/-- `_iso`. -/
def iso (value : DateTime) : Except DateError Text := do
  let aware ←
    match value.offset with
    | none => .ok { value with offset := some 0 }
    | some _ => value.toUtc env
  return replaceOffset (isoformat aware.naive)

/-! ## The pattern of ISO dates -/

structure IsoTime where
  separator : Char
  hour : Text
  minute : Text
  second : Option Text
  fraction : Option Text
  offset : Option Text

structure IsoMatch where
  year : Text
  month : Text
  day : Text
  time : Option IsoTime

def isDecimal (c : Char) : Bool := isDigit env.digits.digit 10 c

/-- `\d{n}`. -/
def takeDigits (n : ℕ) (s : Text) : Option (Text × Text) :=
  if n ≤ s.length ∧ (s.take n).all (isDecimal env) then some (s.take n, s.drop n) else none

def skip (c : Char) : Text → Option Text
  | [] => none
  | d :: rest => if d = c then some rest else none

/-- The seconds with their fraction, which may be missing. -/
def matchSeconds (s : Text) : Option (Option Text × Option Text × Text) :=
  match s with
  | ':' :: rest =>
      (takeDigits env 2 rest).bind fun (second, rest) =>
        match rest with
        | '.' :: rest =>
            if rest.takeWhile (isDecimal env) = [] then none
            else some (some second, some (rest.takeWhile (isDecimal env)),
              rest.dropWhile (isDecimal env))
        | rest => some (some second, none, rest)
  | s => some (none, none, s)

/-- `[Zz]|[+-]\d{2}:?\d{2}`, or nothing. -/
def matchOffset (s : Text) : Option (Option Text) :=
  match s with
  | [] => some none
  | [c] => if c ∈ ['Z', 'z'] then some (some [c]) else none
  | sign :: rest =>
      if sign ∈ ['+', '-'] then
        (takeDigits env 2 rest).bind fun (_, minutes) =>
          (takeDigits env 2 ((skip ':' minutes).getD minutes)).bind fun (_, rest) =>
            if rest = [] then some (some s) else none
      else none

def matchTime (separator : Char) (s : Text) : Option IsoTime := do
  let (hour, s) ← takeDigits env 2 s
  let s ← skip ':' s
  let (minute, s) ← takeDigits env 2 s
  let (second, fraction, s) ← matchSeconds env s
  let offset ← matchOffset env s
  return ⟨separator, hour, minute, second, fraction, offset⟩

/-- `_JS_ISO_DATE.fullmatch`. -/
def matchIsoDate (s : Text) : Option IsoMatch := do
  let (year, s) ← takeDigits env 4 s
  let s ← skip '-' s
  let (month, s) ← takeDigits env 2 s
  let s ← skip '-' s
  let (day, s) ← takeDigits env 2 s
  match s with
  | [] => return ⟨year, month, day, none⟩
  | separator :: s =>
      if separator ∈ ['T', 't', ' '] then
        return ⟨year, month, day, some (← matchTime env separator s)⟩
      else none

/-! ## Reading -/

/-- `int` of a text of digits. -/
def intOf (s : Text) : ℕ := value env.digits.digit 10 s

/-- The zone that an offset stands for. -/
def zoneOffset (offset : Text) : Except DateError ℤ :=
  if offset ∈ [['Z'], ['z']] then .ok 0
  else
    let hours := intOf env ((offset.drop 1).take 2)
    let minutes := intOf env (offset.drop (offset.length - 2))
    if 23 < hours ∨ 59 < minutes then .error .valueError
    else
      let direction : ℤ := if offset.head? = some '+' then 1 else -1
      .ok (direction * ((60 * hours + minutes) * microsPerMinute))

/-- The zone of a time, which is that of the process where no offset is shown; a date alone is one
in UTC. -/
def matchedZone (m : IsoMatch) (parsed : Naive) : Except DateError ℤ :=
  match m.time.bind (·.offset), m.time with
  | some offset, _ => zoneOffset env offset
  | none, none => .ok 0
  | none, some _ => .ok (env.localOffset parsed)

/-- `_js_iso_date`. -/
def jsIsoDate (value : Text) : Except DateError (Option DateTime) :=
  match matchIsoDate env value with
  | none => .ok none
  | some m => do
      let year := intOf env m.year
      let month := intOf env m.month
      let day := intOf env m.day
      if ¬ (1 ≤ month ∧ month ≤ 12) ∨ ¬ (1 ≤ day ∧ day ≤ 31) then throw .valueError
      let hour := m.time.elim 0 fun time => intOf env time.hour
      let minute := m.time.elim 0 fun time => intOf env time.minute
      let second := (m.time.bind (·.second)).elim 0 (intOf env)
      let fraction := (m.time.bind (·.fraction)).getD []
      let milliseconds := intOf env ((fraction ++ "000".toList).take 3)
      if 59 < minute ∨ 59 < second ∨ 24 < hour then throw .valueError
      if hour = 24 ∧ (minute ≠ 0 ∨ second ≠ 0 ∨ milliseconds ≠ 0) then throw .valueError
      let offset := m.time.bind (·.offset)
      if year = 0 then
        -- the bound of a year that the database does not have is its first timestamp
        if month = 1 ∧ day = 1 ∧ m.time.isNone ∧ offset.isNone then
          return some ⟨⟨0, by decide⟩, some 0⟩
        throw .valueError
      let parsed ← (Naive.ofDate year month 1).bind
        (·.add (day - 1) hour minute second milliseconds)
      let zone ← matchedZone env m parsed
      return some (← DateTime.toUtc env ⟨parsed, some zone⟩)

/-- `_parse_date` of a text. -/
def parseDate (value : Text) : Except DateError DateTime := do
  match ← jsIsoDate env value with
  | some parsed => return parsed
  | none => (← env.otherDate value).toUtc env

/-- `_postgres_naive_utc`. -/
def postgresNaiveUtc (value : DateTime) : Except DateError DateTime :=
  match value.offset with
  | none => .ok value
  | some _ => (value.toUtc env).map fun utc => { utc with offset := none }

/-- A bound of a query as the database gets it. -/
def queryBound (value : Text) : Except DateError Naive := do
  return (← postgresNaiveUtc env (← parseDate env value)).naive

/-- The conditions on the time in `AdminAuditQueryStore.query`. -/
def matchesBounds (createdAtFrom createdAtTo : Option Naive) (createdAt : Naive) : Bool :=
  createdAtFrom.all (·.micros ≤ createdAt.micros) && createdAtTo.all (createdAt.micros ≤ ·.micros)

end dates

/-! ## Spellings -/

inductive Zone
  | utc
  | plus (hours minutes : ℕ)
  | minus (hours minutes : ℕ)
  /-- The zone of the process, so many microseconds ahead of UTC; it is not shown. -/
  | process (ahead : ℤ)

/-- How precisely the time is shown: a fraction has so many digits of this value. -/
inductive Precision
  | minutes
  | seconds
  | fraction (places value : ℕ)

/-- What the pattern leaves open. -/
structure Layout where
  separator : Char
  precision : Precision
  letter : Char
  colon : Bool

/-- The date and the time that a spelling shows. -/
structure Clock where
  year : ℕ
  month : ℕ
  day : ℕ
  hour : ℕ
  minute : ℕ
  second : ℕ
  millis : ℕ

namespace Clock

/-- The clock shows a time of a day on the calendar, of a year with four digits. A day may end
with 24 o'clock. -/
structure Shows (clock : Clock) : Prop where
  year_le : clock.year ≤ 9999
  month_pos : 1 ≤ clock.month
  month_le : clock.month ≤ 12
  day_pos : 1 ≤ clock.day
  day_le : clock.day ≤ daysInMonth clock.year clock.month
  hour_le : clock.hour ≤ 23 ∨
    clock.hour = 24 ∧ clock.minute = 0 ∧ clock.second = 0 ∧ clock.millis = 0
  minute_le : clock.minute ≤ 59
  second_le : clock.second ≤ 59
  millis_le : clock.millis ≤ 999

/-- The number of the day, also of one in the year zero. -/
def dayNumber (clock : Clock) : ℤ :=
  365 * ((clock.year : ℤ) - 1) + ((clock.year : ℤ) - 1) / 4 - ((clock.year : ℤ) - 1) / 100 +
    ((clock.year : ℤ) - 1) / 400 + daysBeforeMonth clock.year clock.month + clock.day

def dayMicros (clock : Clock) : ℕ :=
  ((3600 * clock.hour + 60 * clock.minute + clock.second) * 1000 + clock.millis) * 1000

/-- The microseconds since the first timestamp at the same clocks. -/
def localMicros (clock : Clock) : ℤ := (clock.dayNumber - 1) * microsPerDay + clock.dayMicros

/-- The local time is a `datetime`. -/
structure InRange (clock : Clock) : Prop where
  year_pos : 1 ≤ clock.year
  localMicros_lt : clock.localMicros < maxMicros

end Clock

namespace Zone

def IsZone (env : Environment) (clock : Clock) : Zone → Prop
  | utc => True
  | plus hours minutes | minus hours minutes => hours ≤ 23 ∧ minutes ≤ 59
  | process ahead =>
      ∀ shown : Naive, shown.micros = clock.localMicros → env.localOffset shown = ahead

/-- How far the clocks are ahead of UTC. -/
def offset : Zone → ℤ
  | utc => 0
  | plus hours minutes => (60 * hours + minutes) * microsPerMinute
  | minus hours minutes => -((60 * hours + minutes) * microsPerMinute)
  | process ahead => ahead

def signedText (layout : Layout) (sign : Char) (hours minutes : ℕ) : Text :=
  sign :: (zeroPadded 2 hours ++ ((if layout.colon then [':'] else []) ++ zeroPadded 2 minutes))

def shown (layout : Layout) : Zone → Option Text
  | utc => some [layout.letter]
  | plus hours minutes => some (signedText layout '+' hours minutes)
  | minus hours minutes => some (signedText layout '-' hours minutes)
  | process _ => none

def text (layout : Layout) (zone : Zone) : Text := (zone.shown layout).getD []

end Zone

namespace Precision

/-- The seconds that are not shown are none; of a fraction, what is less than a millisecond is
cut off. -/
def Shows (clock : Clock) : Precision → Prop
  | minutes => clock.second = 0 ∧ clock.millis = 0
  | seconds => clock.millis = 0
  | fraction places value =>
      1 ≤ places ∧ value < 10 ^ places ∧ value * 10 ^ 3 / 10 ^ places = clock.millis

def text (second : ℕ) : Precision → Text
  | minutes => []
  | seconds => ':' :: zeroPadded 2 second
  | fraction places value => ':' :: (zeroPadded 2 second ++ '.' :: zeroPadded places value)

end Precision

structure Layout.Fits (layout : Layout) (clock : Clock) : Prop where
  separator : layout.separator ∈ ['T', 't', ' ']
  precision : layout.precision.Shows clock
  letter : layout.letter ∈ ['Z', 'z']

namespace Clock

def dateText (clock : Clock) : Text :=
  zeroPadded 4 clock.year ++ '-' :: (zeroPadded 2 clock.month ++ '-' :: zeroPadded 2 clock.day)

def timeText (clock : Clock) (zone : Zone) (layout : Layout) : Text :=
  layout.separator :: (zeroPadded 2 clock.hour ++ ':' :: (zeroPadded 2 clock.minute ++
    (layout.precision.text clock.second ++ zone.text layout)))

def text (clock : Clock) (zone : Zone) (layout : Layout) : Text :=
  clock.dateText ++ clock.timeText zone layout

/-- The microseconds since the first timestamp in UTC. -/
def instant (clock : Clock) (zone : Zone) : ℤ := clock.localMicros - zone.offset

end Clock

/-- The text shows the timestamp on the clock of some zone: as a day in UTC, for its first
moment, or as a day and a time. -/
inductive Spells (env : Environment) (s : Text) (clock : Clock) (t : Naive) : Prop
  | date (shows : clock.Shows) (midnight : clock.dayMicros = 0)
      (instant : clock.instant .utc = t.micros) (text : s = clock.dateText)
  | time (zone : Zone) (layout : Layout) (shows : clock.Shows) (fits : layout.Fits clock)
      (isZone : zone.IsZone env clock) (instant : clock.instant zone = t.micros)
      (text : s = clock.text zone layout)

/-! ## The pattern accepts the spellings -/

section matching
variable (env : Environment)

lemma isDecimal_zeroPadded {width n : ℕ} : ∀ c ∈ zeroPadded width n, isDecimal env c = true :=
  isDigit_of_mem_zeroPadded env.digits

lemma takeDigits_zeroPadded (width n : ℕ) (rest : Text) :
    takeDigits env width (zeroPadded width n ++ rest) = some (zeroPadded width n, rest) := by
  have hlength := length_zeroPadded width n
  have htake : (zeroPadded width n ++ rest).take width = zeroPadded width n :=
    List.take_left' hlength
  have hdrop : (zeroPadded width n ++ rest).drop width = rest := List.drop_left' hlength
  rw [takeDigits, htake, hdrop, if_pos]
  exact ⟨by simp [hlength], List.all_eq_true.mpr (isDecimal_zeroPadded env)⟩

lemma takeDigits_all (width n : ℕ) :
    takeDigits env width (zeroPadded width n) = some (zeroPadded width n, []) := by
  have htake := takeDigits_zeroPadded env width n []
  rwa [List.append_nil] at htake

lemma skip_cons (c : Char) (rest : Text) : skip c (c :: rest) = some rest := if_pos rfl

lemma isDecimal_ascii {c : Char} (hascii : c.toNat < 128) (h : c.isDigit = false) :
    isDecimal env c = false := by
  simp [isDecimal, isDigit, env.digits.ascii c hascii, h]

variable {layout : Layout} {clock : Clock}

/-- What is shown of a zone starts with a letter or a sign. -/
lemma zoneText_cases (hletter : layout.letter ∈ ['Z', 'z']) (zone : Zone) :
    zone.text layout = [] ∨
      ∃ c rest, zone.text layout = c :: rest ∧ c ∈ ['Z', 'z', '+', '-'] := by
  cases zone with
  | utc => exact .inr ⟨layout.letter, [], rfl, by simp at hletter ⊢; tauto⟩
  | plus => exact .inr ⟨'+', _, rfl, by decide⟩
  | minus => exact .inr ⟨'-', _, rfl, by decide⟩
  | process => exact .inl rfl

lemma takeWhile_zone (hletter : layout.letter ∈ ['Z', 'z']) (places n : ℕ) (zone : Zone) :
    (zeroPadded places n ++ zone.text layout).takeWhile (isDecimal env) = zeroPadded places n ∧
      (zeroPadded places n ++ zone.text layout).dropWhile (isDecimal env) = zone.text layout := by
  rw [List.takeWhile_append_of_pos (isDecimal_zeroPadded env),
    List.dropWhile_append_of_pos (isDecimal_zeroPadded env)]
  rcases zoneText_cases hletter zone with hnone | ⟨c, rest, htext, hc⟩
  · simp [hnone]
  · have hplain : c.toNat < 128 ∧ c.isDigit = false := by
      simp only [List.mem_cons, List.not_mem_nil, or_false] at hc
      rcases hc with rfl | rfl | rfl | rfl <;> decide
    have hdecimal := isDecimal_ascii env hplain.1 hplain.2
    rw [htext, List.takeWhile_cons_of_neg (by simp [hdecimal]),
      List.dropWhile_cons_of_neg (by simp [hdecimal]), List.append_nil]
    exact ⟨rfl, rfl⟩

lemma skip_colon (colon : Bool) (minutes : ℕ) :
    (skip ':' ((if colon then [':'] else []) ++ zeroPadded 2 minutes)).getD
      ((if colon then [':'] else []) ++ zeroPadded 2 minutes) = zeroPadded 2 minutes := by
  cases colon with
  | true => rfl
  | false =>
    have hdigit : ∀ d < 10, Char.ofNat (48 + d) ≠ ':' := by decide
    have hne := hdigit (minutes / 10 % 10) (Nat.mod_lt _ (by omega))
    simp [zeroPadded, skip, hne]

lemma matchOffset_text (hletter : layout.letter ∈ ['Z', 'z']) (zone : Zone) :
    matchOffset env (zone.text layout) = some (zone.shown layout) := by
  have hsigned : ∀ sign hours minutes, sign ∈ ['+', '-'] →
      matchOffset env (Zone.signedText layout sign hours minutes) =
        some (some (Zone.signedText layout sign hours minutes)) := by
    intro sign hours minutes hsign
    unfold matchOffset Zone.signedText
    split
    · cases ‹_›
    · rename_i heq
      have hlength := congrArg List.length heq
      simp at hlength
    · rename_i sign' rest hne heq
      obtain ⟨rfl, rfl⟩ := List.cons.inj heq
      simp only [if_pos hsign, takeDigits_zeroPadded, Option.bind_some, skip_colon,
        takeDigits_all, if_true]
  cases zone with
  | utc => exact if_pos hletter
  | plus hours minutes => exact hsigned '+' hours minutes (by decide)
  | minus hours minutes => exact hsigned '-' hours minutes (by decide)
  | process => rfl

/-- What the pattern finds for the seconds and their fraction. -/
def Precision.parts (second : ℕ) : Precision → Option Text × Option Text
  | minutes => (none, none)
  | seconds => (some (zeroPadded 2 second), none)
  | fraction places value => (some (zeroPadded 2 second), some (zeroPadded places value))

lemma matchSeconds_text (hfits : layout.Fits clock) (second : ℕ) (zone : Zone) :
    matchSeconds env (layout.precision.text second ++ zone.text layout) =
      some ((layout.precision.parts second).1, (layout.precision.parts second).2,
        zone.text layout) := by
  have hzone := zoneText_cases hfits.letter zone
  have hprecision := hfits.precision
  cases hlayout : layout.precision with
  | minutes =>
    rcases hzone with hnone | ⟨c, rest, htext, hc⟩
    · rw [hnone]
      rfl
    · have hne : c ≠ ':' := by
        rintro rfl
        exact absurd hc (by decide)
      rw [htext, Precision.text, List.nil_append, matchSeconds]
      · rfl
      · rintro rest' ⟨rfl, -⟩
        exact hne rfl
  | seconds =>
    simp only [Precision.text, List.cons_append, matchSeconds, takeDigits_zeroPadded,
      Option.bind_some]
    rcases hzone with hnone | ⟨c, rest, htext, hc⟩
    · rw [hnone]
      rfl
    · have hne : c ≠ '.' := by
        rintro rfl
        exact absurd hc (by decide)
      rw [htext]
      split
      · next heq => exact absurd (List.cons.inj heq).1 hne
      · rfl
  | fraction places value =>
    rw [hlayout] at hprecision
    obtain ⟨htake, hdrop⟩ := takeWhile_zone env hfits.letter places value zone
    have hne : zeroPadded places value ≠ [] := by
      intro hempty
      have hlength := length_zeroPadded places value
      rw [hempty] at hlength
      exact absurd hprecision.1 (by rw [← hlength]; decide)
    simp only [Precision.text, List.cons_append, List.append_assoc, matchSeconds,
      takeDigits_zeroPadded, Option.bind_some, htake, hdrop, if_neg hne]
    rfl

/-- The parts of a spelling as the pattern finds them. -/
def spelledMatch (clock : Clock) (time : Option (Zone × Layout)) : IsoMatch :=
  ⟨zeroPadded 4 clock.year, zeroPadded 2 clock.month, zeroPadded 2 clock.day,
    time.map fun (zone, layout) => ⟨layout.separator, zeroPadded 2 clock.hour,
      zeroPadded 2 clock.minute, (layout.precision.parts clock.second).1,
      (layout.precision.parts clock.second).2, zone.shown layout⟩⟩

lemma matchIsoDate_dateText (clock : Clock) :
    matchIsoDate env clock.dateText = some (spelledMatch clock none) := by
  simp only [matchIsoDate, Clock.dateText, takeDigits_zeroPadded, takeDigits_all, skip_cons,
    Option.bind_eq_bind, Option.bind_some]
  rfl

lemma matchIsoDate_text (hfits : layout.Fits clock) (zone : Zone) :
    matchIsoDate env (clock.text zone layout) =
      some (spelledMatch clock (some (zone, layout))) := by
  simp only [matchIsoDate, Clock.text, Clock.dateText, Clock.timeText, List.append_assoc,
    List.cons_append, takeDigits_zeroPadded, skip_cons, Option.bind_eq_bind, Option.bind_some,
    if_pos hfits.separator, matchTime, matchSeconds_text env hfits,
    matchOffset_text env hfits.letter]
  rfl

end matching

/-! ## Reading the spellings -/

section reading
variable (env : Environment)

lemma intOf_zeroPadded {width n : ℕ} (h : n < 10 ^ width) :
    intOf env (zeroPadded width n) = n := value_zeroPadded env.digits h

lemma ofMicros_eq {n : ℤ} {t : Naive} (h : n = t.micros) : Naive.ofMicros n = .ok t := by
  rw [h]
  exact dif_pos t.inRange

lemma toUtc_utc (t : Naive) : DateTime.toUtc env ⟨t, some 0⟩ = .ok ⟨t, some 0⟩ := by
  have hmicros : Naive.ofMicros ((t.micros : ℤ) - 0) = .ok t := ofMicros_eq (by omega)
  simp only [DateTime.toUtc, Option.getD_some, hmicros]
  rfl

lemma zoneOffset_signedText (layout : Layout) (sign : Char) {hours minutes : ℕ}
    (hhours : hours ≤ 23) (hminutes : minutes ≤ 59) :
    zoneOffset env (Zone.signedText layout sign hours minutes) =
      .ok ((if sign = '+' then 1 else -1) * ((60 * hours + minutes) * microsPerMinute)) := by
  have htext : Zone.signedText layout sign hours minutes =
      (sign :: (zeroPadded 2 hours ++ if layout.colon then [':'] else [])) ++
        zeroPadded 2 minutes := by simp [Zone.signedText]
  have hhoursText : ((Zone.signedText layout sign hours minutes).drop 1).take 2 =
      zeroPadded 2 hours := List.take_left' (length_zeroPadded 2 hours)
  have hminutesText : (Zone.signedText layout sign hours minutes).drop
      ((Zone.signedText layout sign hours minutes).length - 2) = zeroPadded 2 minutes := by
    rw [htext]
    refine List.drop_left' ?_
    rw [List.length_append, length_zeroPadded, Nat.add_sub_cancel]
  have hneither : ¬ Zone.signedText layout sign hours minutes ∈ [['Z'], ['z']] := by
    intro hmem
    have hlengths : ∀ text ∈ [['Z'], ['z']], text.length = 1 := by decide
    have hone := hlengths _ hmem
    simp [Zone.signedText] at hone
  have hbounds : ¬ (23 < hours ∨ 59 < minutes) := by omega
  rw [zoneOffset, if_neg hneither, hhoursText, hminutesText, intOf_zeroPadded env (by omega),
    intOf_zeroPadded env (by omega)]
  simp only [if_neg hbounds, Zone.signedText, List.head?_cons, Option.some.injEq]

/-- The zone is found, from what is shown of it or as that of the process. -/
lemma matchedZone_text {clock : Clock} {zone : Zone} {layout : Layout} (hfits : layout.Fits clock)
    (hzone : zone.IsZone env clock) {shown : Naive} (hshown : shown.micros = clock.localMicros) :
    matchedZone env (spelledMatch clock (some (zone, layout))) shown = .ok zone.offset := by
  cases zone with
  | utc =>
    have hletter : [layout.letter] ∈ [['Z'], ['z']] := by
      have := hfits.letter
      simp at this ⊢
      exact this
    exact if_pos hletter
  | plus hours minutes =>
    have hplus := zoneOffset_signedText env layout '+' hzone.1 hzone.2
    rw [if_pos rfl, one_mul] at hplus
    exact hplus
  | minus hours minutes =>
    have hminus := zoneOffset_signedText env layout '-' hzone.1 hzone.2
    rw [if_neg (by decide), neg_one_mul] at hminus
    exact hminus
  | process ahead => exact congrArg Except.ok (hzone shown hshown)

lemma ok_bind {α β : Type} (a : α) (f : α → Except DateError β) : (Except.ok a >>= f) = f a := rfl

lemma isDate_of_shows {clock : Clock} (h : clock.Shows) (hyear : 1 ≤ clock.year) :
    IsDate clock.year clock.month clock.day :=
  ⟨hyear, h.month_pos, h.month_le, h.day_pos, h.day_le⟩

lemma dayNumber_eq {clock : Clock} (hyear : 1 ≤ clock.year) :
    clock.dayNumber = ordinal clock.year clock.month clock.day := by
  unfold Clock.dayNumber ordinal daysBeforeYear
  omega

/-- The first of the month and what is added to it are the time that the clock shows. -/
lemma localTime {clock : Clock} (h : clock.Shows) (hrange : clock.InRange) :
    ∃ shown : Naive, (Naive.ofDate clock.year clock.month 1).bind
        (·.add (clock.day - 1) clock.hour clock.minute clock.second clock.millis) = .ok shown ∧
      shown.micros = clock.localMicros := by
  have hdate := isDate_of_shows h hrange.year_pos
  have hordinal := ordinal_mem hdate h.year_le
  have hfirstDate : IsDate clock.year clock.month 1 :=
    ⟨hrange.year_pos, h.month_pos, h.month_le, le_rfl, h.day_pos.trans h.day_le⟩
  have hfirstOrdinal := ordinal_mem hfirstDate h.year_le
  have hmonth : ordinal clock.year clock.month clock.day =
      ordinal clock.year clock.month 1 + (clock.day - 1) := by
    have hday := h.day_pos
    unfold ordinal
    omega
  have hfirstRange : (ordinal clock.year clock.month 1 - 1) * microsPerDay < maxMicros := by
    unfold maxMicros microsPerDay
    omega
  have hlocal : clock.localMicros =
      ((ordinal clock.year clock.month clock.day - 1) * microsPerDay + clock.dayMicros : ℕ) := by
    rw [Clock.localMicros, dayNumber_eq hrange.year_pos]
    unfold microsPerDay
    omega
  have hshownRange : (ordinal clock.year clock.month clock.day - 1) * microsPerDay +
      clock.dayMicros < maxMicros := by
    have hlt := hrange.localMicros_lt
    rw [hlocal] at hlt
    exact Nat.cast_lt.mp hlt
  have hfirst : Naive.ofDate clock.year clock.month 1 = .ok ⟨_, hfirstRange⟩ := by
    rw [Naive.ofDate, if_pos ⟨hfirstDate, h.year_le⟩]
    refine ofMicros_eq ?_
    rw [Nat.cast_mul, Nat.cast_sub hfirstOrdinal.1, Nat.cast_one]
  have hshown : Naive.add ⟨_, hfirstRange⟩ (clock.day - 1) clock.hour clock.minute clock.second
      clock.millis = .ok ⟨_, hshownRange⟩ := by
    refine ofMicros_eq ?_
    dsimp only
    unfold microsPerDay Clock.dayMicros
    omega
  refine ⟨⟨_, hshownRange⟩, ?_, hlocal.symm⟩
  rw [hfirst, Except.bind, hshown]

/-- The parts of a match are those of the clock. -/
structure MatchOf (clock : Clock) (m : IsoMatch) : Prop where
  year : intOf env m.year = clock.year
  month : intOf env m.month = clock.month
  day : intOf env m.day = clock.day
  hour : m.time.elim 0 (fun time => intOf env time.hour) = clock.hour
  minute : m.time.elim 0 (fun time => intOf env time.minute) = clock.minute
  second : (m.time.bind (·.second)).elim 0 (intOf env) = clock.second
  millis : intOf env ((((m.time.bind (·.fraction)).getD []) ++ "000".toList).take 3) =
    clock.millis

lemma jsIsoDate_of_match {s : Text} {m : IsoMatch} {clock : Clock} {zone : Zone} {t : Naive}
    (hmatch : matchIsoDate env s = some m) (hm : MatchOf env clock m) (hshows : clock.Shows)
    (hrange : clock.InRange)
    (hzone : ∀ shown : Naive, shown.micros = clock.localMicros →
      matchedZone env m shown = .ok zone.offset)
    (hinstant : clock.instant zone = t.micros) : jsIsoDate env s = .ok (some ⟨t, some 0⟩) := by
  obtain ⟨shown, hshown, hmicros⟩ := localTime hshows hrange
  have hutc : DateTime.toUtc env ⟨shown, some zone.offset⟩ = .ok ⟨t, some 0⟩ := by
    have hmicros' : Naive.ofMicros ((shown.micros : ℤ) - zone.offset) = .ok t := by
      refine ofMicros_eq ?_
      rw [hmicros, ← hinstant, Clock.instant]
    simp only [DateTime.toUtc, Option.getD_some, hmicros']
    rfl
  have hdayLe : clock.day ≤ 31 := by
    have hday := hshows.day_le
    unfold daysInMonth at hday
    split_ifs at hday <;> omega
  have hhour := hshows.hour_le
  have hminute := hshows.minute_le
  have hsecond := hshows.second_le
  have hdate : ¬ (¬ (1 ≤ clock.month ∧ clock.month ≤ 12) ∨ ¬ (1 ≤ clock.day ∧ clock.day ≤ 31)) := by
    have hmonth := hshows.month_pos
    have hmonthLe := hshows.month_le
    have hday := hshows.day_pos
    omega
  have htime : ¬ (59 < clock.minute ∨ 59 < clock.second ∨ 24 < clock.hour) := by omega
  have hend : ¬ (clock.hour = 24 ∧
      (clock.minute ≠ 0 ∨ clock.second ≠ 0 ∨ clock.millis ≠ 0)) := by omega
  have hzero : ¬ clock.year = 0 := by
    have hyear := hrange.year_pos
    omega
  rw [jsIsoDate, hmatch]
  simp only [hm.year, hm.month, hm.day, hm.hour, hm.minute, hm.second, hm.millis, if_neg hdate,
    if_neg htime, if_neg hend, if_neg hzero, hshown, ok_bind, hzone shown hmicros, hutc]
  rfl

lemma intOf_fraction {places value millis : ℕ} (hmillis : value * 10 ^ 3 / 10 ^ places = millis)
    (hle : millis ≤ 999) :
    intOf env ((zeroPadded places value ++ "000".toList).take 3) = millis := by
  have hzeros : "000".toList = List.replicate 3 '0' := by decide
  rw [hzeros, ← zeroPadded_mul, Nat.add_comm, take_zeroPadded, hmillis]
  exact intOf_zeroPadded env (by omega)

lemma matchOf_date {clock : Clock} (h : clock.Shows) (hmidnight : clock.dayMicros = 0) :
    MatchOf env clock (spelledMatch clock none) := by
  have hyear := h.year_le
  have hmonth := h.month_le
  have hday := h.day_le
  unfold daysInMonth at hday
  unfold Clock.dayMicros at hmidnight
  have hnone : intOf env ((zeroPadded 0 0 ++ "000".toList).take 3) = 0 :=
    intOf_fraction env rfl (by omega)
  exact {
    year := intOf_zeroPadded env (by omega)
    month := intOf_zeroPadded env (by omega)
    day := intOf_zeroPadded env (by split_ifs at hday <;> omega)
    hour := by change 0 = clock.hour; omega
    minute := by change 0 = clock.minute; omega
    second := by change 0 = clock.second; omega
    millis := hnone.trans (by omega) }

lemma matchOf_time {clock : Clock} (h : clock.Shows) {layout : Layout} (hfits : layout.Fits clock)
    (zone : Zone) : MatchOf env clock (spelledMatch clock (some (zone, layout))) := by
  have hyear := h.year_le
  have hmonth := h.month_le
  have hday := h.day_le
  unfold daysInMonth at hday
  have hhour := h.hour_le
  have hminute := h.minute_le
  have hsecond := h.second_le
  have hprecision := hfits.precision
  have hparts : ((layout.precision.parts clock.second).1).elim 0 (intOf env) = clock.second ∧
      intOf env ((((layout.precision.parts clock.second).2).getD [] ++ "000".toList).take 3) =
        clock.millis := by
    have hshown : intOf env (zeroPadded 2 clock.second) = clock.second :=
      intOf_zeroPadded env (by omega)
    have hnone : intOf env ((zeroPadded 0 0 ++ "000".toList).take 3) = 0 :=
      intOf_fraction env rfl (by omega)
    cases hlayout : layout.precision with
    | minutes =>
      rw [hlayout] at hprecision
      exact ⟨hprecision.1.symm, hnone.trans hprecision.2.symm⟩
    | seconds =>
      rw [hlayout] at hprecision
      exact ⟨hshown, hnone.trans (Eq.symm hprecision)⟩
    | fraction places value =>
      rw [hlayout] at hprecision
      exact ⟨hshown, intOf_fraction env hprecision.2.2 h.millis_le⟩
  exact {
    year := intOf_zeroPadded env (by omega)
    month := intOf_zeroPadded env (by omega)
    day := intOf_zeroPadded env (by split_ifs at hday <;> omega)
    hour := intOf_zeroPadded env (by omega)
    minute := intOf_zeroPadded env (by omega)
    second := hparts.1
    millis := hparts.2 }

/-- Whatever the layout, a spelling gives the database the timestamp that it spells. -/
lemma queryBound_of_spells {s : Text} {clock : Clock} {t : Naive} (h : Spells env s clock t)
    (hrange : clock.InRange) :
    parseDate env s = .ok ⟨t, some 0⟩ ∧ queryBound env s = .ok t := by
  have hiso : jsIsoDate env s = .ok (some ⟨t, some 0⟩) := by
    cases h with
    | date shows midnight instant text =>
      subst text
      exact jsIsoDate_of_match env (matchIsoDate_dateText env clock)
        (matchOf_date env shows midnight) shows hrange (fun _ _ => rfl) instant
    | time zone layout shows fits isZone instant text =>
      subst text
      exact jsIsoDate_of_match env (matchIsoDate_text env fits zone)
        (matchOf_time env shows fits zone) shows hrange
        (fun _ hshown => matchedZone_text env fits isZone hshown) instant
  have hparse : parseDate env s = .ok ⟨t, some 0⟩ := by
    simp only [parseDate, hiso, bind, Except.bind, pure, Except.pure]
  refine ⟨hparse, ?_⟩
  simp only [queryBound, hparse, bind, Except.bind, postgresNaiveUtc, toUtc_utc]
  rfl

end reading

/-! ## What is printed is read -/

lemma plus_notMem_zeroPadded (width n : ℕ) : '+' ∉ zeroPadded width n := by
  induction width generalizing n with
  | zero => simp [zeroPadded]
  | succ width ih =>
    have hdigit : ∀ d < 10, '+' ≠ Char.ofNat (48 + d) := by decide
    have hlast := hdigit (n % 10) (Nat.mod_lt _ (by omega))
    simp [zeroPadded, ih, hlast]

lemma replaceOffset_cons {c : Char} (h : c ≠ '+') (rest : Text) :
    replaceOffset (c :: rest) = c :: replaceOffset rest := by
  rw [replaceOffset]
  rintro rest' rfl
  exact absurd rfl h

lemma replaceOffset_append {front : Text} (h : '+' ∉ front) (rest : Text) :
    replaceOffset (front ++ rest) = front ++ replaceOffset rest := by
  induction front with
  | nil => rfl
  | cons c front ih =>
    rw [List.mem_cons, not_or] at h
    rw [List.cons_append, replaceOffset_cons (Ne.symm h.1), ih h.2, List.cons_append]

/-- The layout that is printed. -/
def Clock.printed (clock : Clock) : Layout := ⟨'T', .fraction 3 clock.millis, 'Z', true⟩

lemma replaceOffset_text (clock : Clock) :
    replaceOffset (clock.text (.plus 0 0) clock.printed) = clock.text .utc clock.printed := by
  have hzone : ∀ precision, replaceOffset (Zone.text ⟨'T', precision, 'Z', true⟩ (.plus 0 0)) =
      Zone.text ⟨'T', precision, 'Z', true⟩ .utc := fun _ => rfl
  simp only [Clock.text, Clock.dateText, Clock.timeText, Clock.printed, Precision.text,
    List.append_assoc, List.cons_append, replaceOffset_append (plus_notMem_zeroPadded _ _),
    replaceOffset_cons (show '-' ≠ '+' by decide), replaceOffset_cons (show 'T' ≠ '+' by decide),
    replaceOffset_cons (show ':' ≠ '+' by decide), replaceOffset_cons (show '.' ≠ '+' by decide),
    hzone]

/-- What a clock in UTC shows, up to the millisecond. -/
def clockOf (t : Naive) : Clock :=
  ⟨yearOf t.day, monthOf t.day, dayOf t.day, t.millis / 3600000, t.millis / 60000 % 60,
    t.millis / 1000 % 60, t.millis % 1000⟩

lemma isoformat_eq (t : Naive) :
    isoformat t = (clockOf t).text (.plus 0 0) (clockOf t).printed := by
  simp only [isoformat, Clock.text, Clock.dateText, Clock.timeText, List.append_assoc,
    List.cons_append]
  rfl

lemma iso_naive (env : Environment) (t : Naive) :
    iso env ⟨t, none⟩ = .ok ((clockOf t).text .utc (clockOf t).printed) := by
  rw [← replaceOffset_text, ← isoformat_eq]
  rfl

lemma day_mem (t : Naive) : 1 ≤ t.day ∧ t.day ≤ maxOrdinal := by
  have hrange := t.inRange
  have hday : t.micros / microsPerDay < maxOrdinal :=
    Nat.div_lt_of_lt_mul (by rwa [Nat.mul_comm])
  exact ⟨Nat.le_add_left 1 _, hday⟩

lemma shows_clockOf (t : Naive) : (clockOf t).Shows := by
  obtain ⟨hpos, hle⟩ := day_mem t
  have hdate := isDate_of_ordinal hpos hle
  have hyear := yearOf_spec hpos hle
  have hmillis : t.millis < 86400000 := by
    have hmod : t.micros % microsPerDay < microsPerDay := Nat.mod_lt _ (by decide)
    unfold microsPerDay at hmod
    unfold Naive.millis microsPerDay
    omega
  refine ⟨hyear.2.1, hdate.month_pos, hdate.month_le, hdate.day_pos, hdate.day_le, .inl ?_,
    ?_, ?_, ?_⟩
  · change t.millis / 3600000 ≤ 23
    omega
  · change t.millis / 60000 % 60 ≤ 59
    omega
  · change t.millis / 1000 % 60 ≤ 59
    omega
  · change t.millis % 1000 ≤ 999
    omega

lemma localMicros_clockOf {t : Naive} (h : t.micros % 1000 = 0) :
    (clockOf t).localMicros = t.micros := by
  obtain ⟨hpos, hle⟩ := day_mem t
  have hyear := yearOf_spec hpos hle
  have hnumber : (clockOf t).dayNumber = t.day :=
    (dayNumber_eq hyear.1).trans (congrArg _ (ordinal_dateOf hpos hle))
  have hmicros : (clockOf t).dayMicros = t.micros % microsPerDay := by
    have hwhole : t.micros % microsPerDay % 1000 = 0 := by
      unfold microsPerDay
      omega
    have hparts : (clockOf t).dayMicros = t.millis * 1000 := by
      unfold clockOf Clock.dayMicros
      dsimp only
      omega
    rw [hparts, Naive.millis]
    omega
  rw [Clock.localMicros, hnumber, hmicros, Naive.day]
  unfold microsPerDay
  omega

lemma inRange_clockOf {t : Naive} (h : t.micros % 1000 = 0) : (clockOf t).InRange := by
  obtain ⟨hpos, hle⟩ := day_mem t
  refine ⟨(yearOf_spec hpos hle).1, ?_⟩
  rw [localMicros_clockOf h]
  exact Nat.cast_lt.mpr t.inRange

lemma fits_printed {clock : Clock} (h : clock.Shows) : clock.printed.Fits clock where
  separator := by simp [Clock.printed]
  precision := by
    have hmillis := h.millis_le
    refine ⟨by decide, by omega, ?_⟩
    omega
  letter := by simp [Clock.printed]

lemma spells_clockOf (env : Environment) {t : Naive} (h : t.micros % 1000 = 0) :
    Spells env ((clockOf t).text .utc (clockOf t).printed) (clockOf t) t := by
  refine .time .utc _ (shows_clockOf t) (fits_printed (shows_clockOf t)) trivial ?_ rfl
  rw [Clock.instant, localMicros_clockOf h, Zone.offset, sub_zero]

/-- Only ASCII digits, a process in UTC, and no other spellings of dates. -/
def asciiEnvironment : Environment where
  digits := ⟨fun c => if c.isDigit then some (c.toNat - 48) else none, by
    intro c d h
    split_ifs at h with hdigit
    obtain rfl := Option.some.inj h
    simp only [Char.isDigit, Bool.and_eq_true, decide_eq_true_eq] at hdigit
    have hle : c.toNat ≤ 57 := hdigit.2
    omega, fun _ _ => rfl⟩
  localOffset _ := 0
  otherDate _ := .error .valueError

/-- The first timestamp of all. -/
def firstNaive : Naive := ⟨0, by decide⟩

/-- Five hours before the end of the last day. -/
def lastEvening : Naive := ⟨maxMicros - 5 * 3600000000, by decide⟩

end WiseacctSso.AdminTimestamps
