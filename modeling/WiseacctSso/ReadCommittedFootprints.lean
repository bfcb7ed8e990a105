import WiseacctSso.ReadCommittedRules

/-!
# Programs and the tables they write

A program that writes to some tables only, and makes some reports only, keeps every
guarantee that asks nothing of such commits but that the other tables stay.
-/
namespace WiseacctSso.ReadCommitted

variable {Γ : Signature} {T : Γ.Table} {α β : Type}

/-- The program writes to the tables `Ts` and makes the reports `R`. -/
def Prog.Within (Ts : Γ.Table → Prop) (R : Γ.Report → Prop) : Prog Γ α → Prop
  | ret _ => True
  | raise _ => True
  | select _ next => ∀ db ext, (next db ext).Within Ts R
  | candidates _ _ next => ∀ keys, (next keys).Within Ts R
  | visit _ _ effect κ next => (∀ r, ∀ w ∈ effect.writes κ r, Ts w.place.1) ∧
      ∀ found, (next found).Within Ts R
  | insert T _ _ next => Ts T ∧ ∀ ended, (next ended).Within Ts R
  | commit report next => R report ∧ next.Within Ts R
  | rollback next => next.Within Ts R
  | call _ report next => (∀ ext, R (report ext)) ∧ ∀ ext, (next ext).Within Ts R

namespace Prog.Within

variable {Ts : Γ.Table → Prop} {R : Γ.Report → Prop}

lemma bind {p : Prog Γ α} {f : α → Prog Γ β} (hp : p.Within Ts R)
    (hf : ∀ a, (f a).Within Ts R) : (p.bind f).Within Ts R := by
  induction p with
  | ret a => exact hf a
  | raise e => trivial
  | select q next ih => exact fun db ext => ih db ext (hp db ext)
  | candidates T p next ih => exact fun keys => ih keys (hp keys)
  | visit T p effect κ next ih => exact ⟨hp.1, fun found => ih found (hp.2 found)⟩
  | insert T κ row next ih => exact ⟨hp.1, fun ended => ih ended (hp.2 ended)⟩
  | commit report next ih => exact ⟨hp.1, ih hp.2⟩
  | rollback next ih => exact ih hp
  | call action report next ih => exact ⟨hp.1, fun ext => ih ext (hp.2 ext)⟩

lemma handle {p : Prog Γ α} {handler : Γ.Error → Prog Γ α} (hp : p.Within Ts R)
    (hh : ∀ e, (handler e).Within Ts R) : (p.handle handler).Within Ts R := by
  induction p with
  | ret a => trivial
  | raise e => exact hh e
  | select q next ih => exact fun db ext => ih db ext (hp db ext)
  | candidates T p next ih => exact fun keys => ih keys (hp keys)
  | visit T p effect κ next ih => exact ⟨hp.1, fun found => ih found (hp.2 found)⟩
  | insert T κ row next ih => exact ⟨hp.1, fun ended => ih ended (hp.2 ended)⟩
  | commit report next ih => exact ⟨hp.1, ih hp.2⟩
  | rollback next ih => exact ih hp
  | call action report next ih => exact ⟨hp.1, fun ext => ih ext (hp.2 ext)⟩

lemma query {q : Γ.Query} {result : Db Γ → β} : (query q result).Within Ts R :=
  fun _ _ => trivial

lemma inspect {q : Γ.Query} {result : Γ.External → β} : (inspect q result).Within Ts R :=
  fun _ _ => trivial

lemma visits {p : Γ.Key → Γ.Row T → Bool} {effect : Effect Γ T} {keys : List Γ.Key}
    (hT : ∀ κ r, ∀ w ∈ effect.writes κ r, Ts w.place.1) :
    (visits T p effect keys).Within Ts R := by
  induction keys with
  | nil => trivial
  | cons κ keys ih => exact ⟨hT κ, fun found => ih.bind fun done => trivial⟩

lemma lockRows {p : Γ.Key → Γ.Row T → Bool} : (lockRows T p).Within Ts R :=
  fun _ => visits fun _ _ _ hw => absurd hw (by simp [Effect.writes])

lemma updateRows {p : Γ.Key → Γ.Row T → Bool} {assign : Γ.Row T → Γ.Row T}
    {uniques_eq : ∀ r, Γ.uniques T (assign r) = Γ.uniques T r} (hT : Ts T) :
    (updateRows T p assign uniques_eq).Within Ts R :=
  fun _ => visits fun _ _ _ hw => by rwa [effect_writes_place hw]

lemma insertRow {duplicate : Γ.Error} {κ : Γ.Key} {row : Γ.Row T} (hT : Ts T) :
    (insertRow duplicate T κ row).Within Ts R := by
  refine ⟨hT, fun ended => ?_⟩
  cases ended <;> trivial

lemma transaction {report : α → Γ.Report} {work : Prog Γ α} (hwork : work.Within Ts R)
    (hreport : ∀ a, R (report a)) : (transaction report work).Within Ts R := by
  have hcommit : ∀ a, (Prog.commit (report a) (.ret a)).Within Ts R := fun a =>
    ⟨hreport a, trivial⟩
  exact (hwork.bind hcommit).handle fun _ => trivial

lemma connection {work : Prog Γ α} (hwork : work.Within Ts R) :
    (connection work).Within Ts R := by
  have hrollback : ∀ a : α, (Prog.rollback (.ret a)).Within Ts R := fun _ => trivial
  exact (hwork.bind hrollback).handle fun _ => trivial

end Prog.Within

variable {G : Guarantee Γ} {t : ℕ} {s : Shared Γ} {ws : List (Write Γ)}
  {Ts : Γ.Table → Prop} {R : Γ.Report → Prop}

/-- The frame rule: nothing needs to be known of the program but its tables and its reports. -/
theorem wp_within {p : Prog Γ α} (hp : p.Within Ts R)
    (hcommit : ∀ (s : Shared Γ) report after, s.log.Valid G → R report →
      (∀ T, ¬ Ts T → after T = s.db T) → G.commit s.log t report (s.held t) after)
    (hcall : ∀ (s : Shared Γ) report ext, R report → G.call s.log t report ext)
    (hws : ∀ w ∈ ws, Ts w.place.1) : wp G t p .top s ws := by
  induction p generalizing s ws with
  | ret a => trivial
  | raise e => trivial
  | select q next ih => exact fun s' _ => ih _ _ (hp _ _) hws
  | candidates T p next ih => exact fun s' _ keys _ => ih _ (hp keys) hws
  | visit T p effect κ next ih =>
    refine fun s' _ => ⟨fun _ => ih _ (hp.2 _) hws, fun r _ _ => ih _ (hp.2 _) ?_⟩
    exact fun w hw => (List.mem_append.mp hw).elim (hws w) (hp.1 r w)
  | insert T κ row next ih =>
    refine fun s' _ => ⟨ih _ (hp.2 _) hws, fun _ => ih _ (hp.2 _) hws, fun _ _ =>
      ih _ (hp.2 _) fun w hw => (List.mem_append.mp hw).elim (hws w) fun hput => ?_⟩
    rw [List.mem_singleton.mp hput]
    exact hp.1
  | commit report next ih =>
    intro s' hs
    refine ⟨hcommit s' report _ hs.valid hp.1 fun T hT => ?_, ih hp.2 (by simp)⟩
    refine view_of_table_ne (fun w hw he => hT ?_) s'.db
    rw [← he]
    exact hws w hw
  | rollback next ih => exact fun s' _ => ih hp (by simp)
  | call action report next ih =>
    exact fun s' _ => ⟨hcall s' _ _ (hp.1 _), ih _ (hp.2 _) hws⟩

end WiseacctSso.ReadCommitted
