import WiseacctSso.ReadCommittedSoundness

/-!
# Records that are written once and taken once

A key-value store with atomic commands: a record is written under an absent key and handed
out by the delete that takes it. What a process may report next depends on what it has
reported so far; this is its protocol.
-/
namespace WiseacctSso.OneTimeRecords
open ReadCommitted

/-- What a command did; a note says what a process did with what it took. -/
inductive RecordReport (K V N : Type)
  | found (key : K) (raw : Option V)
  | stored (key : K) (value : V)
  | refused (key : K)
  | consumed (key : K) (value : V)
  | missed (key : K)
  | expired (key : K)
  | noted (note : N)
  deriving DecidableEq

/-- Programs over the store use no tables. -/
abbrev records (K V N E : Type) [DecidableEq K] : Signature where
  Table := Empty
  Key := Unit
  Entry := Unit
  Row := fun _ => Unit
  uniques := fun _ _ => []
  Query := K
  Report := RecordReport K V N
  External := AList fun _ : K => V
  Error := E
  tableDecEq := inferInstance
  keyDecEq := inferInstance
  entryDecEq := inferInstance

variable {K V N E α β C : Type} [DecidableEq K]

abbrev RecordProg (K V N E : Type) [DecidableEq K] : Type → Type := Prog (records K V N E)

/-! ## Commands -/

/-- GET. -/
def getRaw (key : K) : RecordProg K V N E (Option V) :=
  .call (fun ext => ext) (fun ext => .found key (ext.lookup key)) fun ext => .ret (ext.lookup key)

/-- SET NX. -/
def setIfAbsent (key : K) (value : V) : RecordProg K V N E Bool :=
  .call (fun ext => if (ext.lookup key).isSome then ext else ext.insert key value)
    (fun ext => if (ext.lookup key).isSome then .refused key else .stored key value)
    fun ext => .ret (ext.lookup key).isNone

/-- GET and DEL in one script. -/
def consume (key : K) : RecordProg K V N E (Option V) :=
  .call (fun ext => ext.erase key)
    (fun ext => match ext.lookup key with
      | none => .missed key
      | some value => .consumed key value)
    fun ext => .ret (ext.lookup key)

/-- DEL in one script with the check that the record is the one that was read. -/
def consumeIfExact [DecidableEq V] (key : K) (value : V) : RecordProg K V N E (Option V) :=
  .call (fun ext => if ext.lookup key = some value then ext.erase key else ext)
    (fun ext => if ext.lookup key = some value then .consumed key value else .missed key)
    fun ext => .ret (if ext.lookup key = some value then some value else none)

/-- The store drops a record whose time to live is over. -/
def expire (key : K) : RecordProg K V N E Unit :=
  .call (fun ext => ext.erase key) (fun _ => .expired key) fun _ => .ret ()

def note (n : N) : RecordProg K V N E Unit :=
  .call (fun ext => ext) (fun _ => .noted n) fun _ => .ret ()

/-- SET NX under the keys of one draw after another. -/
def storeFresh (key : C → K) (value : V) (failure : E) : List C → RecordProg K V N E C
  | [] => .raise failure
  | draw :: draws => (setIfAbsent (key draw) value).bind fun stored =>
      if stored then .ret draw else storeFresh key value failure draws

/-! ## What a report says of the store -/

namespace RecordReport

/-- The store after a command that reports this. -/
def apply (ext : AList fun _ : K => V) : RecordReport K V N → AList fun _ : K => V
  | stored key value => ext.insert key value
  | consumed key _ => ext.erase key
  | expired key => ext.erase key
  | _ => ext

/-- The store before a command that reports this. -/
def Fits (ext : AList fun _ : K => V) : RecordReport K V N → Prop
  | found key raw => ext.lookup key = raw
  | stored key _ => ext.lookup key = none
  | consumed key value => ext.lookup key = some value
  | _ => True

def stores (key : K) : RecordReport K V N → Bool
  | stored key' _ => key' = key
  | _ => false

def consumes (key : K) : RecordReport K V N → Bool
  | consumed key' _ => key' = key
  | _ => false

def isStored : RecordReport K V N → Bool
  | stored _ _ => true
  | _ => false

def isNoted : RecordReport K V N → Bool
  | noted _ => true
  | _ => false

/-- A record is removed by the command that takes it or by its expiry. -/
lemma removed_of_lookup_ne {ext : AList fun _ : K => V} {report : RecordReport K V N} {key : K}
    {value : V} (hfits : report.Fits ext) (h : ext.lookup key = some value)
    (hne : (report.apply ext).lookup key ≠ some value) :
    report = consumed key value ∨ report = expired key := by
  cases report with
  | stored key' value' =>
    have hkey : key ≠ key' := by
      rintro rfl
      simp [Fits, h] at hfits
    exact absurd ((AList.lookup_insert_ne hkey).trans h) hne
  | consumed key' value' =>
    by_cases hkey : key = key'
    · subst hkey
      obtain rfl : value = value' := Option.some.inj (h.symm.trans hfits)
      exact .inl rfl
    · exact absurd ((AList.lookup_erase_ne hkey).trans h) hne
  | expired key' =>
    by_cases hkey : key = key'
    · subst hkey
      exact .inr rfl
    · exact absurd ((AList.lookup_erase_ne hkey).trans h) hne
  | found _ _ => exact absurd h hne
  | refused _ => exact absurd h hne
  | missed _ => exact absurd h hne
  | noted _ => exact absurd h hne

end RecordReport

/-- Which report a process may make after those it has made. -/
abbrev Protocol (K V N : Type) : Type :=
  ℕ → List (RecordReport K V N) → RecordReport K V N → Prop

def recordGuarantee (E : Type) (protocol : Protocol K V N) : Guarantee (records K V N E) where
  initial _ ext := ext = ∅
  commit _ _ _ _ _ := False
  call log t report ext :=
    report.Fits log.ext ∧ ext = report.apply log.ext ∧ protocol t (log.reports t) report
  raised _ _ := True

/-! ## Rules of commands -/

section rules

variable {protocol : Protocol K V N} {t : ℕ} {rs : List (RecordReport K V N)}

/-- When process `t` has reported `rs`, the program keeps the protocol, and what it returns
and has reported by then is as described. -/
def Traces (protocol : Protocol K V N) (t : ℕ) (rs : List (RecordReport K V N))
    (p : RecordProg K V N E α) (Q : α → List (RecordReport K V N) → Prop) : Prop :=
  ∀ s ws, s.log.Valid (recordGuarantee E protocol) → s.log.reports t = rs →
    wp (recordGuarantee E protocol) t p
      ⟨fun a s' _ => s'.log.Valid (recordGuarantee E protocol) ∧ Q a (s'.log.reports t),
        fun _ _ _ => True⟩ s ws

theorem traces_ret {a : α} {Q : α → List (RecordReport K V N) → Prop} (h : Q a rs) :
    Traces (E := E) protocol t rs (.ret a) Q := by
  intro s ws hv hrs
  exact ⟨hv, hrs ▸ h⟩

theorem traces_raise {e : E} {Q : α → List (RecordReport K V N) → Prop} :
    Traces protocol t rs (.raise e) Q := fun _ _ _ _ => trivial

theorem traces_bind {p : RecordProg K V N E α} {f : α → RecordProg K V N E β}
    {Q : β → List (RecordReport K V N) → Prop}
    (h : Traces protocol t rs p fun a rs' => Traces protocol t rs' (f a) Q) :
    Traces protocol t rs (p.bind f) Q := by
  intro s ws hv hrs
  refine wp_bind.mpr (wp_mono ?_ ?_ (h s ws hv hrs))
  · rintro a s' ws' ⟨hv', hQ⟩
    exact hQ s' ws' hv' rfl
  · exact fun _ _ _ _ => trivial

theorem traces_mono {p : RecordProg K V N E α} {Q Q' : α → List (RecordReport K V N) → Prop}
    (hQ : ∀ a rs', Q a rs' → Q' a rs') (h : Traces protocol t rs p Q) :
    Traces protocol t rs p Q' := by
  intro s ws hv hrs
  refine wp_mono ?_ ?_ (h s ws hv hrs)
  · rintro a s' ws' ⟨hv', ha⟩
    exact ⟨hv', hQ a _ ha⟩
  · exact fun _ _ _ _ => trivial

/-- One command, by what it may report and return. -/
theorem traces_call {action : (AList fun _ : K => V) → AList fun _ : K => V}
    {report : (AList fun _ : K => V) → RecordReport K V N} {result : (AList fun _ : K => V) → α}
    {Q : α → List (RecordReport K V N) → Prop}
    (h : ∀ ext, (report ext).Fits ext ∧ action ext = (report ext).apply ext ∧
      protocol t rs (report ext) ∧ Q (result ext) (rs ++ [report ext])) :
    Traces (E := E) protocol t rs (.call action report fun ext => .ret (result ext)) Q := by
  intro s ws hv hrs s' hs
  have hrs' : s'.log.reports t = rs := hs.reports.trans hrs
  obtain ⟨hfits, happly, hprotocol, hQ⟩ := h s'.ext
  have hcall : (recordGuarantee E protocol).call s'.log t (report s'.ext) (action s'.ext) :=
    ⟨hfits, happly, hrs' ▸ hprotocol⟩
  refine ⟨hcall, ⟨hs.valid, hcall⟩, ?_⟩
  have hnext : (s'.record (.called t (report s'.ext) (action s'.ext))).log.reports t =
      rs ++ [report s'.ext] := by
    rw [record_log, Log.reports, if_pos rfl, hrs']
  rw [hnext]
  exact hQ

theorem traces_getRaw {key : K} {Q : Option V → List (RecordReport K V N) → Prop}
    (h : ∀ raw, protocol t rs (.found key raw) ∧ Q raw (rs ++ [.found key raw])) :
    Traces (E := E) protocol t rs (getRaw key) Q :=
  traces_call fun _ => ⟨rfl, rfl, h _⟩

theorem traces_setIfAbsent {key : K} {value : V} {Q : Bool → List (RecordReport K V N) → Prop}
    (hstored : protocol t rs (.stored key value) ∧ Q true (rs ++ [.stored key value]))
    (hrefused : protocol t rs (.refused key) ∧ Q false (rs ++ [.refused key])) :
    Traces (E := E) protocol t rs (setIfAbsent key value) Q := by
  apply traces_call
  intro ext
  cases hlookup : ext.lookup key with
  | none => simpa [RecordReport.Fits, RecordReport.apply, hlookup] using hstored
  | some value' => simpa [RecordReport.Fits, RecordReport.apply, hlookup] using hrefused

lemma erase_of_lookup_none {ext : AList fun _ : K => V} {key : K} (h : ext.lookup key = none) :
    ext.erase key = ext := by
  have hnot : key ∉ ext.keys := by
    intro hmem
    have := AList.lookup_isSome.mpr (AList.mem_keys.mpr hmem)
    simp [h] at this
  have hkeys : (AList.erase key ext).entries = ext.entries := List.kerase_of_notMem_keys hnot
  exact AList.ext hkeys

theorem traces_consume {key : K} {Q : Option V → List (RecordReport K V N) → Prop}
    (hconsumed : ∀ value, protocol t rs (.consumed key value) ∧
      Q (some value) (rs ++ [.consumed key value]))
    (hmissed : protocol t rs (.missed key) ∧ Q none (rs ++ [.missed key])) :
    Traces (E := E) protocol t rs (consume key) Q := by
  apply traces_call
  intro ext
  cases hlookup : ext.lookup key with
  | none =>
    simpa [RecordReport.Fits, RecordReport.apply, erase_of_lookup_none hlookup] using hmissed
  | some value => simpa [RecordReport.Fits, RecordReport.apply, hlookup] using hconsumed value

theorem traces_consumeIfExact [DecidableEq V] {key : K} {value : V}
    {Q : Option V → List (RecordReport K V N) → Prop}
    (hconsumed : protocol t rs (.consumed key value) ∧
      Q (some value) (rs ++ [.consumed key value]))
    (hmissed : protocol t rs (.missed key) ∧ Q none (rs ++ [.missed key])) :
    Traces (E := E) protocol t rs (consumeIfExact key value) Q := by
  apply traces_call
  intro ext
  by_cases hlookup : ext.lookup key = some value
  · simpa [RecordReport.Fits, RecordReport.apply, hlookup] using hconsumed
  · simpa [RecordReport.Fits, RecordReport.apply, hlookup] using hmissed

theorem traces_expire {key : K} {Q : Unit → List (RecordReport K V N) → Prop}
    (h : protocol t rs (.expired key) ∧ Q () (rs ++ [.expired key])) :
    Traces (E := E) protocol t rs (expire key) Q :=
  traces_call fun _ => ⟨trivial, rfl, h⟩

theorem traces_note {n : N} {Q : Unit → List (RecordReport K V N) → Prop}
    (h : protocol t rs (.noted n) ∧ Q () (rs ++ [.noted n])) :
    Traces (E := E) protocol t rs (note n) Q :=
  traces_call fun _ => ⟨trivial, rfl, h⟩

/-- One record is stored under the key of a draw, after refusals for earlier draws. -/
theorem traces_storeFresh {key : C → K} {value : V} {failure : E} {draws : List C}
    {Q : C → List (RecordReport K V N) → Prop}
    (hstored : ∀ draw ∈ draws, ∀ taken : List K,
      protocol t (rs ++ taken.map .refused) (.stored (key draw) value) ∧
      Q draw (rs ++ taken.map .refused ++ [.stored (key draw) value]))
    (hrefused : ∀ draw ∈ draws, ∀ taken : List K,
      protocol t (rs ++ taken.map .refused) (.refused (key draw))) :
    Traces protocol t rs (storeFresh key value failure draws) Q := by
  suffices h : ∀ taken : List K, Traces protocol t (rs ++ taken.map .refused)
      (storeFresh key value failure draws) Q by simpa using h []
  induction draws with
  | nil => exact fun _ => traces_raise
  | cons draw draws ih =>
    intro taken
    have hdraw := hstored draw List.mem_cons_self taken
    have hrest := ih (fun d hd => hstored d (List.mem_cons_of_mem _ hd))
      (fun d hd => hrefused d (List.mem_cons_of_mem _ hd)) (taken ++ [key draw])
    apply traces_bind
    apply traces_setIfAbsent
    · exact ⟨hdraw.1, traces_ret hdraw.2⟩
    · refine ⟨hrefused draw List.mem_cons_self taken, ?_⟩
      simpa [List.map_append, List.append_assoc] using hrest

/-- Programs that keep the protocol from their first command keep the guarantee. -/
theorem keeps_of_traces {code : ℕ → RecordProg K V N E Unit}
    (h : ∀ t, Traces protocol t [] (code t) fun _ _ => True) :
    Keeps (recordGuarantee E protocol) code := by
  intro t s hv hrs _
  exact wp_mono (fun _ _ _ _ => trivial) (fun _ _ _ _ => trivial) (h t s [] hv hrs)

/-- A run of many programs from the empty store. -/
def recordRun (code : ℕ → RecordProg K V N E Unit) (acts : List (Act (records K V N E))) :
    Option (System (records K V N E)) :=
  (System.initial (Γ := records K V N E) (fun T => nomatch (T : Empty)) ∅).run code acts

theorem recordRun_valid {code : ℕ → RecordProg K V N E Unit}
    (h : ∀ t, Traces protocol t [] (code t) fun _ _ => True)
    {acts : List (Act (records K V N E))} {sys : System (records K V N E)}
    (hrun : recordRun code acts = some sys) :
    sys.shared.log.Valid (recordGuarantee E protocol) :=
  run_valid (keeps_of_traces h) rfl (fun T => nomatch (T : Empty)) hrun

end rules

/-! ## A process that is left alone -/

section alone

variable {code : ℕ → RecordProg K V N E Unit} {sys : System (records K V N E)} {t : ℕ}
  {s : Shared (records K V N E)} {ws : List (Write (records K V N E))}
  {retry : RecordProg K V N E Unit} {acts : List (Act (records K V N E))}

lemma run_getRaw {key : K} {f : Option V → RecordProg K V N E Unit} :
    (sys.set t s ⟨(getRaw key).bind f, ws, retry⟩).run code (.step t [] :: acts) =
      (sys.set t (s.record (.called t (.found key (s.ext.lookup key)) s.ext))
        ⟨f (s.ext.lookup key), ws, .ret ()⟩).run code acts :=
  System.run_step rfl

lemma run_consumeIfExact [DecidableEq V] {key : K} {value : V}
    {f : Option V → RecordProg K V N E Unit} (h : s.ext.lookup key = some value) :
    (sys.set t s ⟨(consumeIfExact key value).bind f, ws, retry⟩).run code (.step t [] :: acts) =
      (sys.set t (s.record (.called t (.consumed key value) (s.ext.erase key)))
        ⟨f (some value), ws, .ret ()⟩).run code acts := by
  apply System.run_step
  simp [consumeIfExact, Process.step, Prog.bind, h]

lemma run_note {n : N} :
    (sys.set t s ⟨note n, ws, retry⟩).run code (.step t [] :: acts) =
      (sys.set t (s.record (.called t (.noted n) s.ext)) ⟨.ret (), ws, .ret ()⟩).run code acts :=
  System.run_step rfl

end alone

/-! ## Valid logs of the store -/

section valid

variable {protocol : Protocol K V N} {log : Log (records K V N E)}

/-- A counted report is made once when nobody makes it after it has been made. -/
lemma tally_le_one {p : ℕ → RecordReport K V N → Bool}
    (h : ∀ (prior : Log (records K V N E)) t report, prior.Valid (recordGuarantee E protocol) →
      report.Fits prior.ext → protocol t (prior.reports t) report → p t report = true →
      ∀ t', ∀ r ∈ prior.reports t', p t' r = false)
    (hv : log.Valid (recordGuarantee E protocol)) : log.tally p ≤ 1 := by
  induction log with
  | initial db ext => simp [Log.tally]
  | add log event ih =>
    cases event with
    | selected t q => exact ih hv.of_add
    | called t report ext =>
      cases hp : p t report with
      | false => simpa [Log.tally, hp] using ih hv.1
      | true =>
        have hzero : log.tally p = 0 :=
          tally_eq_zero (h log t report hv.1 hv.2.1 hv.2.2.2 hp)
        simp [Log.tally, hp, hzero]
    | committed t report held db => exact absurd hv.2.1 id

/-- Each report was permitted after the reports before it. -/
lemma protocol_of_mem (hv : log.Valid (recordGuarantee E protocol)) {t : ℕ}
    {r : RecordReport K V N} (h : r ∈ log.reports t) :
    ∃ prior : Log (records K V N E), prior.Valid (recordGuarantee E protocol) ∧
      prior.Precedes log ∧ r.Fits prior.ext ∧ protocol t (prior.reports t) r := by
  induction log with
  | initial db ext => simp [Log.reports] at h
  | add log event ih =>
    cases event with
    | selected t' q =>
      obtain ⟨prior, hvalid, hle, hprotocol⟩ := ih hv.of_add h
      exact ⟨prior, hvalid, .add hle trivial, hprotocol⟩
    | called t' report ext =>
      rcases mem_reports_called.mp h with hold | ⟨rfl, rfl⟩
      · obtain ⟨prior, hvalid, hle, hprotocol⟩ := ih hv.1 hold
        exact ⟨prior, hvalid, .add hle trivial, hprotocol⟩
      · exact ⟨log, hv.1, .single trivial, hv.2.1, hv.2.2.2⟩
    | committed t' report held db => exact absurd hv.2.1 id

/-- A record in the store was written by some process. -/
lemma stored_of_lookup (hv : log.Valid (recordGuarantee E protocol)) {key : K} {value : V}
    (h : log.ext.lookup key = some value) : ∃ t, .stored key value ∈ log.reports t := by
  induction log with
  | initial db ext =>
    obtain rfl : ext = ∅ := hv.1
    simp [Log.ext] at h
  | add log event ih =>
    cases event with
    | selected t q => exact ih hv.of_add h
    | called t report ext =>
      obtain ⟨hlog, hfits, happly, -⟩ := hv
      have hkept : log.ext.lookup key = some value → ∃ t',
          .stored key value ∈ (log.add (.called t report ext)).reports t' := fun hold => by
        obtain ⟨t', ht'⟩ := ih hlog hold
        exact ⟨t', mem_reports_called.mpr (.inl ht')⟩
      change ext.lookup key = some value at h
      rw [happly] at h
      cases report with
      | stored key' value' =>
        by_cases hkey : key = key'
        · subst hkey
          obtain rfl : value' = value := by simpa [RecordReport.apply] using h
          exact ⟨t, mem_reports_called.mpr (.inr ⟨rfl, rfl⟩)⟩
        · exact hkept (by rwa [RecordReport.apply, AList.lookup_insert_ne hkey] at h)
      | consumed key' value' =>
        by_cases hkey : key = key'
        · subst hkey
          simp [RecordReport.apply] at h
        · exact hkept (by rwa [RecordReport.apply, AList.lookup_erase_ne hkey] at h)
      | expired key' =>
        by_cases hkey : key = key'
        · subst hkey
          simp [RecordReport.apply] at h
        · exact hkept (by rwa [RecordReport.apply, AList.lookup_erase_ne hkey] at h)
      | found key' raw => exact hkept h
      | refused key' => exact hkept h
      | missed key' => exact hkept h
      | noted n => exact hkept h
    | committed t report held db => exact absurd hv.2.1 id

/-- A record that was taken had been written before. -/
lemma stored_of_consumed (hv : log.Valid (recordGuarantee E protocol)) {t : ℕ} {key : K}
    {value : V} (h : .consumed key value ∈ log.reports t) :
    ∃ t', .stored key value ∈ log.reports t' := by
  obtain ⟨prior, hvalid, hle, hfits, -⟩ := protocol_of_mem hv h
  obtain ⟨t', ht'⟩ := stored_of_lookup hvalid hfits
  exact ⟨t', mem_reports_of_precedes hle ht'⟩

/-- A record that was read had been written before. -/
lemma stored_of_found (hv : log.Valid (recordGuarantee E protocol)) {t : ℕ} {key : K} {value : V}
    (h : .found key (some value) ∈ log.reports t) : ∃ t', .stored key value ∈ log.reports t' := by
  obtain ⟨prior, hvalid, hle, hfits, -⟩ := protocol_of_mem hv h
  obtain ⟨t', ht'⟩ := stored_of_lookup hvalid hfits
  exact ⟨t', mem_reports_of_precedes hle ht'⟩

/-- A record is taken no more often than one is written under its key. -/
lemma consumed_le_stored (hv : log.Valid (recordGuarantee E protocol)) (key : K) :
    log.tally (fun _ report => RecordReport.consumes key report) +
        (log.ext.lookup key).isSome.toNat ≤
      log.tally (fun _ report => RecordReport.stores key report) := by
  induction log with
  | initial db ext =>
    obtain rfl : ext = ∅ := hv.1
    simp [Log.tally, Log.ext]
  | add log event ih =>
    cases event with
    | selected t q => exact ih hv.of_add
    | called t report ext =>
      obtain ⟨hlog, hfits, happly, -⟩ := hv
      have hold := ih hlog
      subst happly
      change _ + ((report.apply log.ext).lookup key).isSome.toNat ≤ _
      cases report with
      | stored key' value' =>
        by_cases hkey : key = key'
        · subst hkey
          have hnone : log.ext.lookup key = none := hfits
          simp [Log.tally, RecordReport.apply, RecordReport.consumes, RecordReport.stores,
            hnone] at hold ⊢
          omega
        · simpa [Log.tally, RecordReport.apply, RecordReport.consumes, RecordReport.stores,
            AList.lookup_insert_ne hkey, Ne.symm hkey] using hold
      | consumed key' value' =>
        by_cases hkey : key = key'
        · subst hkey
          have hsome : log.ext.lookup key = some value' := hfits
          simp [Log.tally, RecordReport.apply, RecordReport.consumes, RecordReport.stores,
            hsome] at hold ⊢
          omega
        · simpa [Log.tally, RecordReport.apply, RecordReport.consumes, RecordReport.stores,
            AList.lookup_erase_ne hkey, Ne.symm hkey] using hold
      | expired key' =>
        by_cases hkey : key = key'
        · subst hkey
          simp [Log.tally, RecordReport.apply, RecordReport.consumes,
            RecordReport.stores] at hold ⊢
          omega
        · simpa [Log.tally, RecordReport.apply, RecordReport.consumes, RecordReport.stores,
            AList.lookup_erase_ne hkey] using hold
      | found key' raw => exact hold
      | refused key' => exact hold
      | missed key' => exact hold
      | noted n => exact hold
    | committed t report held db => exact absurd hv.2.1 id

/-- A process stores once at most, under a key it has drawn. -/
def StoresDrawn (protocol : Protocol K V N) (draws : ℕ → List K) : Prop :=
  ∀ t rs key value, protocol t rs (.stored key value) →
    key ∈ draws t ∧ ∀ r ∈ rs, r.isStored = false

/-- No key is drawn by two processes. -/
def FreshDraws (draws : ℕ → List K) : Prop :=
  ∀ t t' key, key ∈ draws t → key ∈ draws t' → t = t'

variable {draws : ℕ → List K}

lemma mem_draws_of_stored (hv : log.Valid (recordGuarantee E protocol))
    (hdrawn : StoresDrawn protocol draws) {t : ℕ} {key : K} {value : V}
    (h : .stored key value ∈ log.reports t) : key ∈ draws t := by
  obtain ⟨prior, -, -, -, hprotocol⟩ := protocol_of_mem hv h
  exact (hdrawn _ _ _ _ hprotocol).1

/-- Under fresh draws a key is written once. -/
lemma stored_le_one (hv : log.Valid (recordGuarantee E protocol))
    (hdrawn : StoresDrawn protocol draws) (hfresh : FreshDraws draws) (key : K) :
    log.tally (fun _ report => RecordReport.stores key report) ≤ 1 := by
  refine tally_le_one (fun prior t report hvalid _ hprotocol hp t' r hr => ?_) hv
  cases report with
  | stored key' value =>
    obtain rfl : key' = key := by simpa [RecordReport.stores] using hp
    obtain ⟨hdraw, honce⟩ := hdrawn _ _ _ _ hprotocol
    cases r with
    | stored key'' value' =>
      by_contra hkey
      obtain rfl : key'' = key' := by simpa [RecordReport.stores] using hkey
      have hsame := hfresh t' t _ (mem_draws_of_stored hvalid hdrawn hr) hdraw
      subst hsame
      simpa [RecordReport.isStored] using honce _ hr
    | _ => rfl
  | _ => simp [RecordReport.stores] at hp

/-- Under fresh draws a key has one value in all. -/
lemma stored_unique (hv : log.Valid (recordGuarantee E protocol))
    (hdrawn : StoresDrawn protocol draws) (hfresh : FreshDraws draws) {t t' : ℕ} {key : K}
    {value value' : V} (h : .stored key value ∈ log.reports t)
    (h' : .stored key value' ∈ log.reports t') : value = value' := by
  obtain rfl := hfresh t t' key (mem_draws_of_stored hv hdrawn h) (mem_draws_of_stored hv hdrawn h')
  induction log with
  | initial db ext => simp [Log.reports] at h
  | add log event ih =>
    cases event with
    | selected t' q => exact ih hv.of_add h h'
    | called t' report ext =>
      rcases mem_reports_called.mp h with hold | ⟨rfl, rfl⟩ <;>
        rcases mem_reports_called.mp h' with hold' | ⟨ht, hnew'⟩
      · exact ih hv.1 hold hold'
      · subst ht hnew'
        have honce := (hdrawn _ _ _ _ hv.2.2.2).2 _ hold
        simp [RecordReport.isStored] at honce
      · have honce := (hdrawn _ _ _ _ hv.2.2.2).2 _ hold'
        simp [RecordReport.isStored] at honce
      · exact (RecordReport.stored.inj hnew').2.symm
    | committed t' report held db => exact absurd hv.2.1 id

lemma consumed_le_one (hv : log.Valid (recordGuarantee E protocol))
    (hdrawn : StoresDrawn protocol draws) (hfresh : FreshDraws draws) (key : K) :
    log.tally (fun _ report => RecordReport.consumes key report) ≤ 1 := by
  have hle := consumed_le_stored hv key
  have hone := stored_le_one hv hdrawn hfresh key
  omega

/-- What each process does once after it has taken the record of a key is done once. -/
lemma once_after_consumed (hv : log.Valid (recordGuarantee E protocol))
    (hdrawn : StoresDrawn protocol draws) (hfresh : FreshDraws draws) (key : K)
    {p : ℕ → RecordReport K V N → Bool}
    (hafter : ∀ t rs report, protocol t rs report → p t report = true →
      (∃ r ∈ rs, r.consumes key = true) ∧ ∀ r ∈ rs, p t r = false) :
    log.tally p ≤ 1 := by
  have hconsumes : ∀ (prior : Log (records K V N E)) t,
      prior.Valid (recordGuarantee E protocol) → ∀ r ∈ prior.reports t, p t r = true →
      ∃ r ∈ prior.reports t, RecordReport.consumes key r = true := by
    intro prior t hvalid r hr hp
    obtain ⟨before, -, hle, -, hprotocol⟩ := protocol_of_mem hvalid hr
    obtain ⟨r', hr', hkey⟩ := (hafter _ _ _ hprotocol hp).1
    exact ⟨r', mem_reports_of_precedes hle hr', hkey⟩
  refine tally_le_one (fun prior t report hvalid _ hprotocol hp t' r hr => ?_) hv
  obtain ⟨⟨r₁, hr₁, hkey₁⟩, honce⟩ := hafter _ _ _ hprotocol hp
  by_contra hp'
  obtain ⟨r₂, hr₂, hkey₂⟩ := hconsumes prior t' hvalid r hr (by simpa using hp')
  have hone := consumed_le_one hvalid hdrawn hfresh key
  obtain rfl : t = t' := eq_of_tally_le_one hone hr₁ hkey₁ hr₂ hkey₂
  exact hp' (honce r hr)

end valid

end WiseacctSso.OneTimeRecords
