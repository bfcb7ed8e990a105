import WiseacctSso.KnownPaths
import WiseacctSso.Json
import WiseacctSso.PythonText
import WiseacctSso.Patterns

/-!
# Audit details

The details of an audit row are sanitized before they are written and again when they are read:
what looks like a secret or an address is redacted, and what is too large is refused.
-/
namespace WiseacctSso.AuditDetails
open UrlPath Patterns Json

/-! ## The patterns -/

/-- A letter under `re.IGNORECASE`. -/
def letter (c : ℕ) : ℕ → Bool := fun d => (letterVariants c).contains d

def word (s : String) : Pattern ℕ := literal ((text s).map letter)

def words : List String → Pattern ℕ
  | [] => .one fun _ => false
  | [s] => word s
  | s :: t :: rest => .alt (word s) (words (t :: rest))

/-- `[A-Z]` under `re.IGNORECASE`. -/
def isLetter (c : ℕ) : Bool :=
  (65 ≤ c && c ≤ 90) || (97 ≤ c && c ≤ 122) || c ∈ [0x130, 0x131, 0x17F, 0x212A]

def isDigit (c : ℕ) : Bool := 48 ≤ c && c ≤ 57

/-- `[A-Z0-9._%+-]`. -/
def isLocalPart (c : ℕ) : Bool := isLetter c || isDigit c || c ∈ text "._%+-"

/-- `[A-Z0-9.-]`. -/
def isDomain (c : ℕ) : Bool := isLetter c || isDigit c || c ∈ text ".-"

/-- What the Unicode tables and `float.__repr__` say. -/
structure Library where
  /-- `\w` beyond ASCII. -/
  isWord : ℕ → Bool
  reprFloat : PyFloat → CodePoints

variable (lib : Library)

/-- `\w`. -/
def Library.word (c : ℕ) : Bool :=
  if c < 128 then (65 ≤ c && c ≤ 90) || (97 ≤ c && c ≤ 122) || isDigit c || c = 95
  else lib.isWord c

def sensitiveDetailKey : Pattern ℕ := words ["token", "password", "secret", "code", "email"]

def sensitiveDetailValue : Pattern ℕ :=
  .alt (words ["token", "password", "secret"])
    (.alt (.seq (word "bearer") (.many1 PythonText.isSpaceCode))
      (words ["oauth-code", "handoff-code"]))

def emailLikeDetailValue : Pattern ℕ :=
  .seq (.boundary lib.word) (.seq (.many1 isLocalPart) (.seq (.one (· = 64))
    (.seq (.many1 isDomain) (.seq (.one (· = 46))
      (.seq (.seq (.one isLetter) (.many1 isLetter)) (.boundary lib.word))))))

/-! ## Sanitizing -/

/-- A value of the details; whatever is not a scalar is some other object. -/
inductive DetailValue (Other : Type)
  | null
  | bool (b : Bool)
  | int (z : ℤ)
  | float (f : PyFloat)
  | str (s : CodePoints)
  | other (value : Other)

variable {Other : Type}

/-- A mapping: its entries, one a key, in the order of insertion. -/
@[ext] structure Details (Other : Type) where
  entries : List (CodePoints × DetailValue Other)
  keys : (entries.map Prod.fst).Nodup

def redacted : CodePoints := text "[REDACTED]"

def isFinite : PyFloat → Bool
  | .finite _ => true
  | _ => false

def sanitizeValue (key : CodePoints) (value : DetailValue Other) : DetailValue Other :=
  if sensitiveDetailKey.search key then .str redacted
  else
    match value with
    | .str s =>
      if sensitiveDetailValue.search s || (emailLikeDetailValue lib).search s then .str redacted
      else .str s
    | .float f => if isFinite f then .float f else .null
    | .other _ => .str redacted
    | scalar => scalar

/-- A character of a string in `json.dumps(.., ensure_ascii=False)`. -/
def escapeCharacter (c : ℕ) : CodePoints :=
  if c = 34 ∨ c = 92 then [92, c]
  else if c = 10 then text "\\n"
  else if c = 13 then text "\\r"
  else if c = 9 then text "\\t"
  else if c = 12 then text "\\f"
  else if c = 8 then text "\\b"
  else if c < 32 then
    text "\\u00" ++ [(Nat.digitChar (c / 16)).toNat, (Nat.digitChar (c % 16)).toNat]
  else [c]

def dumpsText (s : CodePoints) : CodePoints := 34 :: (s.flatMap escapeCharacter ++ [34])

/-- `sys.int_info.default_max_str_digits`. -/
def maxStrDigits : ℕ := 4300

/-- The interpreter writes no integer of more digits, and reads none. -/
def DetailValue.printable : DetailValue Other → Bool
  | .int z => z.natAbs < 10 ^ maxStrDigits
  | _ => true

/-- Only scalars are written. -/
def dumpsValue : DetailValue Other → CodePoints
  | .null => text "null"
  | .bool true => text "true"
  | .bool false => text "false"
  | .int z => text (toString z)
  | .float f => lib.reprFloat f
  | .str s => dumpsText s
  | .other _ => []

def dumpsEntry (entry : CodePoints × DetailValue Other) : CodePoints :=
  dumpsText entry.1 ++ 58 :: dumpsValue lib entry.2

def dumpsEntries (entries : List (CodePoints × DetailValue Other)) : CodePoints :=
  123 :: ([44].intercalate (entries.map (dumpsEntry lib)) ++ [125])

def utf16Units (s : CodePoints) : ℕ := (s.map fun c => if c < 0x10000 then 1 else 2).sum

def maxAuditDetailsJsonUnits : ℕ := 2048

structure DomainError where
  statusCode : ℕ
  code : String
  message : String
  deriving DecidableEq

/-- What sanitizing raises: an error of the domain or a `ValueError` of `json.dumps`. -/
inductive AuditError
  | domain (e : DomainError)
  | value (message : String)
  deriving DecidableEq

def tooLarge : AuditError :=
  .domain ⟨400, "AUDIT_DETAILS_TOO_LARGE", "Audit details exceed allowed size"⟩

def tooManyDigits : AuditError := .value ("Exceeds the limit (4300 digits) for integer string " ++
  "conversion; use sys.set_int_max_str_digits() to increase the limit")

/-- `json.dumps(.., ensure_ascii=False, separators=(",", ":"))`. -/
def dumps (entries : List (CodePoints × DetailValue Other)) : Except AuditError CodePoints :=
  if entries.all fun entry => entry.2.printable then .ok (dumpsEntries lib entries)
  else .error tooManyDigits

def sanitized (d : Details Other) : Details Other where
  entries := d.entries.map fun entry => (entry.1, sanitizeValue lib entry.1 entry.2)
  keys := by
    rw [List.map_map]
    exact d.keys

def sanitizeAuditDetails (d : Details Other) : Except AuditError (Details Other) := do
  let encoded ← dumps lib (sanitized lib d).entries
  if maxAuditDetailsJsonUnits < utf16Units encoded then .error tooLarge
  else .ok (sanitized lib d)

/-- `mapping[key] = value`. -/
def Details.set (d : Details Other) (key : CodePoints) (value : DetailValue Other) :
    Details Other where
  entries :=
    if key ∈ d.entries.map Prod.fst then
      d.entries.map fun entry => if entry.1 = key then (key, value) else entry
    else d.entries ++ [(key, value)]
  keys := by
    split_ifs with h
    · have hkeys : (d.entries.map fun entry => if entry.1 = key then (key, value) else entry).map
          Prod.fst = d.entries.map Prod.fst := by
        rw [List.map_map]
        refine List.map_congr_left fun entry _ => ?_
        by_cases hentry : entry.1 = key
        · simp [hentry]
        · simp [hentry]
      rw [hkeys]
      exact d.keys
    · rw [List.map_append, List.nodup_append]
      refine ⟨d.keys, by simp, ?_⟩
      rintro other hother _ hkey rfl
      have hother' : other = key := by simpa using hkey
      rw [hother'] at hother
      exact h hother

def Details.empty : Details Other := ⟨[], List.nodup_nil⟩

/-- What the column holds: a mapping, its keys of any type, or something else. `json.loads` has
read its integers. -/
inductive Stored (Key Other : Type)
  | mapping (items : List (Key × DetailValue Other))
      (read : ∀ item ∈ items, item.2.printable = true)
  | other

/-- `{str(key): value for key, value in details.items()}`. -/
def textKeys {Key : Type} (str : Key → CodePoints) (items : List (Key × DetailValue Other)) :
    Details Other :=
  items.foldl (fun d item => d.set (str item.1) item.2) .empty

def truncated : Details Other := Details.empty.set (text "truncated") (.bool true)

def sanitizeAuditDetailsForRead {Key : Type} (str : Key → CodePoints) :
    Stored Key Other → Option (Details Other)
  | .other => none
  | .mapping items _ =>
    -- The error is of the domain: see `sanitize_read`.
    match sanitizeAuditDetails lib (textKeys str items) with
    | .ok s => some s
    | .error _ => some truncated

/-! ## Redaction -/

lemma redacted_value : sensitiveDetailValue.search redacted = false := by decide +kernel

lemma redacted_email : (emailLikeDetailValue lib).search redacted = false := by
  rfl

/-- The texts that are redacted whatever their key. -/
def isSensitive (s : CodePoints) : Bool :=
  sensitiveDetailValue.search s || (emailLikeDetailValue lib).search s

lemma sanitizeValue_key {key : CodePoints} (h : sensitiveDetailKey.search key)
    (value : DetailValue Other) : sanitizeValue lib key value = .str redacted := if_pos h

lemma sanitizeValue_idem (key : CodePoints) (value : DetailValue Other) :
    sanitizeValue lib key (sanitizeValue lib key value) = sanitizeValue lib key value := by
  have hredacted : sanitizeValue lib key (.str redacted : DetailValue Other) = .str redacted := by
    simp [sanitizeValue, redacted_value, redacted_email]
  by_cases hkey : sensitiveDetailKey.search key
  · rw [sanitizeValue_key lib hkey value, hredacted]
  · have hother : ∀ v : DetailValue Other, sanitizeValue lib key v =
        match v with
        | .str s => if isSensitive lib s then .str redacted else .str s
        | .float f => if isFinite f then .float f else .null
        | .other _ => .str redacted
        | scalar => scalar := fun v => if_neg hkey
    cases value with
    | str s =>
      rw [hother (.str s)]
      dsimp only
      split_ifs with hs
      · exact hredacted
      · rw [hother]
        exact if_neg hs
    | float f =>
      rw [hother (.float f)]
      dsimp only
      split_ifs with hf
      · rw [hother]
        exact if_pos hf
      · rw [hother]
    | other v =>
      rw [hother (.other v)]
      exact hredacted
    | null => simp only [hother]
    | bool b => simp only [hother]
    | int z => simp only [hother]

/-- The two values may stand for one another under the key. -/
def Interchangeable (key : CodePoints) (v w : DetailValue Other) : Prop :=
  v = w ∨ sensitiveDetailKey.search key ∨
    (∃ s t, v = .str s ∧ w = .str t ∧ isSensitive lib s ∧ isSensitive lib t) ∨
    ∃ a b, v = .other a ∧ w = .other b

lemma sanitizeValue_eq {key : CodePoints} {v w : DetailValue Other}
    (h : Interchangeable lib key v w) : sanitizeValue lib key v = sanitizeValue lib key w := by
  obtain rfl | hkey | ⟨s, t, rfl, rfl, hs, ht⟩ | ⟨a, b, rfl, rfl⟩ := h
  · rfl
  · rw [sanitizeValue_key lib hkey, sanitizeValue_key lib hkey]
  · by_cases hkey : sensitiveDetailKey.search key
    · rw [sanitizeValue_key lib hkey, sanitizeValue_key lib hkey]
    · rw [sanitizeValue, if_neg hkey, sanitizeValue, if_neg hkey]
      exact (if_pos hs).trans (if_pos ht).symm
  · rfl

/-- The same keys, with values that may stand for one another. -/
structure Alike (d e : Details Other) : Prop where
  keys : ∀ key, key ∈ d.entries.map Prod.fst ↔ key ∈ e.entries.map Prod.fst
  values : ∀ key v w, (key, v) ∈ d.entries → (key, w) ∈ e.entries → Interchangeable lib key v w

lemma Alike.symm {d e : Details Other} (h : Alike lib d e) : Alike lib e d where
  keys key := (h.keys key).symm
  values key v w hv hw := by
    obtain rfl | hkey | ⟨s, t, rfl, rfl, hs, ht⟩ | ⟨a, b, rfl, rfl⟩ := h.values key w v hw hv
    · exact .inl rfl
    · exact .inr (.inl hkey)
    · exact .inr (.inr (.inl ⟨t, s, rfl, rfl, ht, hs⟩))
    · exact .inr (.inr (.inr ⟨b, a, rfl, rfl⟩))

lemma sanitized_mem {d e : Details Other} (h : Alike lib d e)
    {entry : CodePoints × DetailValue Other} (hentry : entry ∈ (sanitized lib d).entries) :
    entry ∈ (sanitized lib e).entries := by
  obtain ⟨⟨key, v⟩, hv, rfl⟩ := List.mem_map.mp hentry
  obtain ⟨⟨key', w⟩, hw, rfl⟩ := List.mem_map.mp ((h.keys key).mp (List.mem_map_of_mem hv))
  rw [sanitizeValue_eq lib (h.values key' v w hv hw)]
  exact List.mem_map_of_mem hw

lemma Details.nodup (d : Details Other) : d.entries.Nodup := d.keys.of_map

/-- The sanitized mappings are equal, perhaps in another order. -/
lemma sanitized_perm {d e : Details Other} (h : Alike lib d e) :
    (sanitized lib d).entries.Perm (sanitized lib e).entries :=
  (List.perm_ext_iff_of_nodup (Details.nodup _) (Details.nodup _)).mpr fun _ =>
    ⟨sanitized_mem lib h, sanitized_mem lib (h.symm)⟩

/-! ## Size -/

lemma utf16Units_append (s t : CodePoints) : utf16Units (s ++ t) = utf16Units s + utf16Units t := by
  rw [utf16Units, List.map_append, List.sum_append]
  rfl

lemma utf16Units_intercalate (parts : List CodePoints) :
    utf16Units ([44].intercalate parts) = (parts.map utf16Units).sum + (parts.length - 1) := by
  induction parts with
  | nil => rfl
  | cons part parts ih =>
    cases parts with
    | nil => simp [List.intercalate]
    | cons next parts =>
      have hsplit : [44].intercalate (part :: next :: parts) =
          part ++ ([44] ++ [44].intercalate (next :: parts)) := by simp [List.intercalate]
      have hcomma : utf16Units [44] = 1 := rfl
      rw [hsplit, utf16Units_append, utf16Units_append, ih, hcomma]
      simp only [List.map_cons, List.sum_cons, List.length_cons]
      omega

/-- The size does not depend on the order of the entries. -/
lemma utf16Units_dumpsEntries {entries entries' : List (CodePoints × DetailValue Other)}
    (h : entries.Perm entries') :
    utf16Units (dumpsEntries lib entries) = utf16Units (dumpsEntries lib entries') := by
  have hunits : ∀ l : List (CodePoints × DetailValue Other), utf16Units (dumpsEntries lib l) =
      ((l.map (dumpsEntry lib)).map utf16Units).sum + (l.length - 1) + 2 := by
    intro l
    have hopen : utf16Units [123] = 1 := rfl
    have hclose : utf16Units [125] = 1 := rfl
    rw [dumpsEntries, ← List.singleton_append, utf16Units_append, utf16Units_append,
      utf16Units_intercalate, List.length_map, hopen, hclose]
    omega
  rw [hunits, hunits, h.length_eq, ((h.map _).map _).sum_eq]

/-- The sanitized mapping is written out, and it is small enough. -/
def Accepted (entries : List (CodePoints × DetailValue Other)) : Prop :=
  (∀ entry ∈ entries, entry.2.printable = true) ∧
    utf16Units (dumpsEntries lib entries) ≤ maxAuditDetailsJsonUnits

lemma sanitize_spec (d : Details Other) :
    (¬ (∀ entry ∈ (sanitized lib d).entries, entry.2.printable = true) ∧
      sanitizeAuditDetails lib d = .error tooManyDigits) ∨
    ((∀ entry ∈ (sanitized lib d).entries, entry.2.printable = true) ∧
      ¬ Accepted lib (sanitized lib d).entries ∧ sanitizeAuditDetails lib d = .error tooLarge) ∨
    Accepted lib (sanitized lib d).entries ∧
      sanitizeAuditDetails lib d = .ok (sanitized lib d) := by
  by_cases hread : ∀ entry ∈ (sanitized lib d).entries, entry.2.printable = true
  · have hdumps : dumps lib (sanitized lib d).entries =
        .ok (dumpsEntries lib (sanitized lib d).entries) := if_pos (List.all_eq_true.mpr hread)
    have hsanitize : sanitizeAuditDetails lib d = if maxAuditDetailsJsonUnits <
        utf16Units (dumpsEntries lib (sanitized lib d).entries) then .error tooLarge
        else .ok (sanitized lib d) := by
      rw [sanitizeAuditDetails, hdumps]
      rfl
    right
    by_cases hsize : maxAuditDetailsJsonUnits <
        utf16Units (dumpsEntries lib (sanitized lib d).entries)
    · exact .inl ⟨hread, fun h => not_lt.mpr h.2 hsize, hsanitize.trans (if_pos hsize)⟩
    · exact .inr ⟨⟨hread, not_lt.mp hsize⟩, hsanitize.trans (if_neg hsize)⟩
  · have hdumps : dumps lib (sanitized lib d).entries = .error tooManyDigits :=
      if_neg fun hall => hread (List.all_eq_true.mp hall)
    refine .inl ⟨hread, ?_⟩
    rw [sanitizeAuditDetails, hdumps]
    rfl

lemma Accepted.perm {entries entries' : List (CodePoints × DetailValue Other)}
    (h : Accepted lib entries) (hperm : entries.Perm entries') : Accepted lib entries' :=
  ⟨fun entry hentry => h.1 entry (hperm.mem_iff.mpr hentry),
    utf16Units_dumpsEntries lib hperm ▸ h.2⟩

/-- Equal mappings, or the same error. -/
inductive SameOutcome :
    Except AuditError (Details Other) → Except AuditError (Details Other) → Prop
  | ok {s t : Details Other} (same : s.entries.Perm t.entries) : SameOutcome (.ok s) (.ok t)
  | error {e : AuditError} (expected : e = tooLarge ∨ e = tooManyDigits) :
      SameOutcome (.error e) (.error e)

lemma sanitize_alike {d e : Details Other} (h : Alike lib d e) :
    SameOutcome (sanitizeAuditDetails lib d) (sanitizeAuditDetails lib e) := by
  have hperm := sanitized_perm lib h
  have hread : (∀ entry ∈ (sanitized lib d).entries, entry.2.printable = true) ↔
      ∀ entry ∈ (sanitized lib e).entries, entry.2.printable = true :=
    forall_congr' fun entry => by rw [hperm.mem_iff]
  rcases sanitize_spec lib d with ⟨hd, hd'⟩ | ⟨hd, hnot, hd'⟩ | ⟨hd, hd'⟩ <;>
    rcases sanitize_spec lib e with ⟨he, he'⟩ | ⟨he, hnot', he'⟩ | ⟨he, he'⟩ <;>
    rw [hd', he']
  · exact .error (.inr rfl)
  · exact absurd (hread.mpr he) hd
  · exact absurd (hread.mpr he.1) hd
  · exact absurd (hread.mp hd) he
  · exact .error (.inl rfl)
  · exact absurd (he.perm lib hperm.symm) hnot
  · exact absurd (hread.mp hd.1) he
  · exact absurd (hd.perm lib hperm) hnot'
  · exact .ok hperm

lemma sanitized_of_fixed {d : Details Other}
    (h : ∀ entry ∈ d.entries, sanitizeValue lib entry.1 entry.2 = entry.2) :
    sanitized lib d = d := by
  refine Details.ext ((List.map_congr_left fun entry hentry => ?_).trans (List.map_id _))
  exact Prod.ext rfl (h entry hentry)

lemma sanitize_of_accepted {d : Details Other} (hfixed : sanitized lib d = d)
    (haccepted : Accepted lib d.entries) : sanitizeAuditDetails lib d = .ok d := by
  rw [← hfixed] at haccepted
  rcases sanitize_spec lib d with ⟨hnot, -⟩ | ⟨-, hnot, -⟩ | ⟨-, hd⟩
  · exact absurd haccepted.1 hnot
  · exact absurd haccepted hnot
  · exact hd.trans (congrArg _ hfixed)

/-- What was accepted is accepted again, unchanged, in whatever order. -/
lemma sanitize_again {d s t : Details Other} (h : sanitizeAuditDetails lib d = .ok s)
    (hperm : t.entries.Perm s.entries) : sanitizeAuditDetails lib t = .ok t := by
  rcases sanitize_spec lib d with ⟨-, hd⟩ | ⟨-, -, hd⟩ | ⟨haccepted, hd⟩
  · cases hd.symm.trans h
  · cases hd.symm.trans h
  obtain rfl := Except.ok.inj (hd.symm.trans h)
  refine sanitize_of_accepted lib (sanitized_of_fixed lib fun entry hentry => ?_)
    (haccepted.perm lib hperm.symm)
  obtain ⟨entry₀, -, rfl⟩ := List.mem_map.mp (hperm.mem_iff.mp hentry)
  exact sanitizeValue_idem lib _ _

/-! ## Reading -/

lemma set_fresh {d : Details Other} {key : CodePoints} (h : key ∉ d.entries.map Prod.fst)
    (value : DetailValue Other) : (d.set key value).entries = d.entries ++ [(key, value)] :=
  if_neg h

/-- A mapping with texts as keys is read as it is. -/
lemma textKeys_id (d : Details Other) : textKeys id d.entries = d := by
  have hfold : ∀ (items : List (CodePoints × DetailValue Other)) (acc : Details Other),
      ((acc.entries ++ items).map Prod.fst).Nodup →
        (items.foldl (fun d item => d.set (id item.1) item.2) acc).entries =
          acc.entries ++ items := by
    intro items
    induction items with
    | nil => simp
    | cons item items ih =>
      intro acc hnodup
      have hfresh : item.1 ∉ acc.entries.map Prod.fst := by
        intro hmem
        rw [List.map_append, List.nodup_append] at hnodup
        exact hnodup.2.2 _ hmem _ (by simp) rfl
      have hset := set_fresh hfresh item.2
      rw [List.foldl_cons, ih, id, hset, List.append_assoc]
      · rfl
      · rw [id, hset, List.append_assoc]
        exact hnodup
  exact Details.ext (hfold d.entries .empty d.keys)

lemma mem_of_set {d : Details Other} {key : CodePoints} {value : DetailValue Other}
    {entry : CodePoints × DetailValue Other} (h : entry ∈ (d.set key value).entries) :
    entry ∈ d.entries ∨ entry = (key, value) := by
  simp only [Details.set] at h
  split_ifs at h
  · obtain ⟨entry₀, hentry₀, rfl⟩ := List.mem_map.mp h
    split_ifs
    · exact .inr rfl
    · exact .inl hentry₀
  · simpa using h

/-- What is read raises no `ValueError`. -/
lemma sanitize_read {Key : Type} (str : Key → CodePoints) {items : List (Key × DetailValue Other)}
    (hread : ∀ item ∈ items, item.2.printable = true) :
    sanitizeAuditDetails lib (textKeys str items) ≠ .error tooManyDigits := by
  have hvalues : ∀ entry ∈ (textKeys str items).entries, entry.2.printable = true := by
    refine List.foldlRecOn items _ (motive := fun d : Details Other =>
      ∀ entry ∈ d.entries, entry.2.printable = true) (by simp [Details.empty]) ?_
    intro d hd item hitem entry hentry
    rcases mem_of_set hentry with hold | rfl
    · exact hd entry hold
    · exact hread item hitem
  have hsanitized : ∀ entry ∈ (sanitized lib (textKeys str items)).entries,
      entry.2.printable = true := by
    intro entry hentry
    obtain ⟨⟨key, value⟩, hmem, rfl⟩ := List.mem_map.mp hentry
    have hvalue := hvalues _ hmem
    dsimp only [sanitizeValue] at hvalue ⊢
    split_ifs
    · rfl
    · cases value with
      | str s =>
        dsimp only
        split_ifs <;> rfl
      | float f =>
        dsimp only
        split_ifs <;> rfl
      | int z => exact hvalue
      | _ => rfl
  rcases sanitize_spec lib (textKeys str items) with ⟨hnot, -⟩ | ⟨-, -, h⟩ | ⟨-, h⟩
  · exact absurd hsanitized hnot
  · rw [h]
    simp [tooLarge, tooManyDigits]
  · rw [h]
    simp

/-- Values that are redacted do not show in what is written, nor in its size, nor in the error.
What is accepted is accepted again as it is, and read as it is if the column gives back what was
written, in whatever order. -/
theorem sanitizeAuditDetails_projection :
    (∀ d e : Details Other, Alike lib d e →
      SameOutcome (sanitizeAuditDetails lib d) (sanitizeAuditDetails lib e)) ∧
    ∀ d s : Details Other, sanitizeAuditDetails lib d = .ok s →
      sanitizeAuditDetails lib s = .ok s ∧
        ∀ (stored : Details Other) (read : ∀ item ∈ stored.entries, item.2.printable = true),
          stored.entries.Perm s.entries →
            sanitizeAuditDetailsForRead lib id (.mapping stored.entries read) = some stored := by
  refine ⟨fun d e => sanitize_alike lib, fun d s h => ⟨sanitize_again lib h (.refl _), ?_⟩⟩
  intro stored read hperm
  rw [sanitizeAuditDetailsForRead, textKeys_id, sanitize_again lib h hperm]

def asciiLibrary : Library where
  isWord _ := false
  reprFloat _ := text "1.5"

def detailsWithAddress : Details Unit :=
  ⟨[(text "note", .str (text "a@b.co")), (text "count", .int 1)], by decide +kernel⟩

def detailsWithToken : Details Unit :=
  ⟨[(text "count", .int 1), (text "note", .str (text "my Token"))], by decide +kernel⟩

lemma address_token_alike : Alike asciiLibrary detailsWithAddress detailsWithToken where
  keys key := by simp [detailsWithAddress, detailsWithToken, or_comm]
  values key v w hv hw := by
    have hne : text "note" ≠ text "count" := by decide +kernel
    simp only [detailsWithAddress, List.mem_cons, Prod.mk.injEq, List.not_mem_nil, or_false] at hv
    simp only [detailsWithToken, List.mem_cons, Prod.mk.injEq, List.not_mem_nil, or_false] at hw
    obtain ⟨rfl, rfl⟩ | ⟨rfl, rfl⟩ := hv
    · obtain ⟨hkey, -⟩ | ⟨-, rfl⟩ := hw
      · exact absurd hkey hne
      · exact .inr (.inr (.inl ⟨_, _, rfl, rfl, by decide +kernel, by decide +kernel⟩))
    · obtain ⟨-, rfl⟩ | ⟨hkey, -⟩ := hw
      · exact .inl rfl
      · exact absurd hkey.symm hne

/-- An address and a token are not told apart. -/
theorem sanitizeAuditDetails_projection_example :
    SameOutcome (sanitizeAuditDetails asciiLibrary detailsWithAddress)
      (sanitizeAuditDetails asciiLibrary detailsWithToken) ∧
    ∃ s read, sanitizeAuditDetails asciiLibrary detailsWithAddress = .ok s ∧
      sanitizeAuditDetailsForRead asciiLibrary id (.mapping s.entries read) = some s := by
  obtain ⟨halike, hagain⟩ := @sanitizeAuditDetails_projection asciiLibrary Unit
  have hread : ∀ entry ∈ (sanitized asciiLibrary detailsWithAddress).entries,
      entry.2.printable = true := by decide +kernel
  have hsmall : utf16Units (dumpsEntries asciiLibrary
      (sanitized asciiLibrary detailsWithAddress).entries) ≤ maxAuditDetailsJsonUnits := by
    decide +kernel
  rcases sanitize_spec asciiLibrary detailsWithAddress with ⟨hnot, -⟩ | ⟨-, hnot, -⟩ | ⟨-, h⟩
  · exact absurd hread hnot
  · exact absurd ⟨hread, hsmall⟩ hnot
  · exact ⟨halike _ _ address_token_alike, sanitized asciiLibrary detailsWithAddress, hread, h,
      (hagain _ _ h).2 _ hread (.refl _)⟩

/-- An integer of 4301 digits. -/
def detailsWithInteger : Details Unit := ⟨[(text "count", .int (10 ^ 4300))], by decide +kernel⟩

/-- The double nearest to `1e300`. -/
def e300 : PyFloat := .finite (0x17E43C8800759C * 2 ^ 944)

def exponentLibrary : Library where
  isWord _ := false
  reprFloat _ := text "1e+300"

def detailsOf (value : DetailValue Unit) : Details Unit :=
  ⟨["a", "b", "c", "d", "f", "g", "h"].map fun key => (text key, value), by
    have hkeys : (["a", "b", "c", "d", "f", "g", "h"].map text).Nodup := by decide +kernel
    rw [List.map_map]
    exact hkeys⟩

/-- Such an integer raises a `ValueError`. And the column keeps the seven numbers `1e+300` as
decimals, which are read as integers and are too large. -/
theorem sanitizeAuditDetails_not_projection :
    sanitizeAuditDetails asciiLibrary detailsWithInteger = .error tooManyDigits ∧
    sanitizeAuditDetails exponentLibrary (detailsOf (.float e300)) =
      .ok (detailsOf (.float e300)) ∧
    ∃ read, sanitizeAuditDetailsForRead exponentLibrary id
      (.mapping (detailsOf (.int (10 ^ 300))).entries read) = some truncated := by
  have hlong : (DetailValue.int (10 ^ 4300) : DetailValue Unit).printable = false := by
    decide +kernel
  have hmem : (text "count", .int (10 ^ 4300)) ∈
      (sanitized asciiLibrary detailsWithInteger).entries := by
    have hkey : ¬ sensitiveDetailKey.search (text "count") = true := by decide +kernel
    have hsanitized : sanitizeValue asciiLibrary (text "count")
        (.int (10 ^ 4300) : DetailValue Unit) = .int (10 ^ 4300) := if_neg hkey
    exact List.mem_map.mpr ⟨(text "count", .int (10 ^ 4300)), List.mem_singleton.mpr rfl,
      Prod.ext rfl hsanitized⟩
  have hkeys : ∀ key ∈ ["a", "b", "c", "d", "f", "g", "h"],
      ¬ sensitiveDetailKey.search (text key) = true := by decide +kernel
  have hfixed : ∀ value : DetailValue Unit, (value = .float e300 ∨ value = .int (10 ^ 300)) →
      sanitized exponentLibrary (detailsOf value) = detailsOf value := by
    intro value hvalue
    refine sanitized_of_fixed _ fun entry hentry => ?_
    obtain ⟨key, hkey, rfl⟩ := List.mem_map.mp hentry
    rcases hvalue with rfl | rfl
    · exact if_neg (hkeys key hkey)
    · exact if_neg (hkeys key hkey)
  refine ⟨?_, ?_, ?_⟩
  · rcases sanitize_spec asciiLibrary detailsWithInteger with ⟨-, h⟩ | ⟨hread, -⟩ | ⟨hread, -⟩
    · exact h
    · exact absurd (hread _ hmem) (Bool.eq_false_iff.mp hlong)
    · exact absurd (hread.1 _ hmem) (Bool.eq_false_iff.mp hlong)
  · refine sanitize_of_accepted _ (hfixed _ (.inl rfl)) ⟨?_, by decide +kernel⟩
    intro entry hentry
    obtain ⟨key, -, rfl⟩ := List.mem_map.mp hentry
    rfl
  · have hread : ∀ entry ∈ (detailsOf (.int (10 ^ 300))).entries, entry.2.printable = true := by
      intro entry hentry
      obtain ⟨key, -, rfl⟩ := List.mem_map.mp hentry
      change (DetailValue.int (10 ^ 300) : DetailValue Unit).printable = true
      decide +kernel
    have hlarge : ¬ utf16Units (dumpsEntries exponentLibrary
        (detailsOf (.int (10 ^ 300))).entries) ≤ maxAuditDetailsJsonUnits := by decide +kernel
    refine ⟨hread, ?_⟩
    rw [sanitizeAuditDetailsForRead, textKeys_id]
    have hspec := sanitize_spec exponentLibrary (detailsOf (.int (10 ^ 300)))
    rw [hfixed _ (.inr rfl)] at hspec
    rcases hspec with ⟨hnot, -⟩ | ⟨-, -, h⟩ | ⟨haccepted, -⟩
    · exact absurd hread hnot
    · rw [h]
    · exact absurd haccepted.2 hlarge

end WiseacctSso.AuditDetails
