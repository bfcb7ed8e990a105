import WiseacctSso.ReadCommittedRules

/-!
# Work that makes no report

A part of a program without commits and external calls may be undone as a whole: whatever
it does, its process has reported nothing when it ends.
-/
namespace WiseacctSso.ReadCommitted

variable {Γ : Signature} {T : Γ.Table} {α β : Type}

/-- No commit and no external call lies in the program. -/
def Prog.Silent : Prog Γ α → Prop
  | ret _ => True
  | raise _ => True
  | select _ next => ∀ db ext, (next db ext).Silent
  | candidates _ _ next => ∀ keys, (next keys).Silent
  | visit _ _ _ _ next => ∀ found, (next found).Silent
  | insert _ _ _ next => ∀ ended, (next ended).Silent
  | commit _ _ => False
  | rollback next => next.Silent
  | call _ _ _ => False

namespace Prog.Silent

lemma bind {p : Prog Γ α} {f : α → Prog Γ β} (hp : p.Silent) (hf : ∀ a, (f a).Silent) :
    (p.bind f).Silent := by
  induction p with
  | ret a => exact hf a
  | raise e => trivial
  | select q next ih => exact fun db ext => ih db ext (hp db ext)
  | candidates T p next ih => exact fun keys => ih keys (hp keys)
  | visit T p effect κ next ih => exact fun found => ih found (hp found)
  | insert T κ row next ih => exact fun ended => ih ended (hp ended)
  | commit report next ih => exact hp.elim
  | rollback next ih => exact ih hp
  | call action report next ih => exact hp.elim

lemma query {q : Γ.Query} {result : Db Γ → β} : (query q result).Silent := fun _ _ => trivial

lemma visits {p : Γ.Key → Γ.Row T → Bool} {effect : Effect Γ T} {keys : List Γ.Key} :
    (visits T p effect keys).Silent := by
  induction keys with
  | nil => trivial
  | cons κ keys ih => exact fun found => ih.bind fun done => trivial

lemma sweep {p : Γ.Key → Γ.Row T → Bool} {effect : Effect Γ T} : (sweep T p effect).Silent :=
  fun _ => visits

lemma lockRows {p : Γ.Key → Γ.Row T → Bool} : (lockRows T p).Silent := sweep

lemma updateRows {p : Γ.Key → Γ.Row T → Bool} {assign : Γ.Row T → Γ.Row T}
    {uniques_eq : ∀ r, Γ.uniques T (assign r) = Γ.uniques T r} :
    (updateRows T p assign uniques_eq).Silent := sweep

lemma deleteRows {p : Γ.Key → Γ.Row T → Bool} : (deleteRows T p).Silent := sweep

lemma insertOrSkip {duplicate : Γ.Error} {κ : Γ.Key} {row : Γ.Row T} :
    (insertOrSkip duplicate T κ row).Silent := by
  intro ended
  cases ended <;> trivial

lemma insertRow {duplicate : Γ.Error} {κ : Γ.Key} {row : Γ.Row T} :
    (insertRow duplicate T κ row).Silent := by
  intro ended
  cases ended <;> trivial

lemma reinsert {duplicate : Γ.Error} {assign : Γ.Row T → Γ.Row T}
    {rows : List (Γ.Key × Γ.Row T)} : (reinsert duplicate T assign rows).Silent := by
  induction rows with
  | nil => trivial
  | cons x rows ih => exact insertRow.bind fun _ => ih

lemma moveRows {duplicate : Γ.Error} {p : Γ.Key → Γ.Row T → Bool}
    {assign : Γ.Row T → Γ.Row T} : (moveRows duplicate T p assign).Silent :=
  deleteRows.bind fun _ => reinsert.bind fun _ => trivial

end Prog.Silent

variable {G : Guarantee Γ} {t : ℕ} {s : Shared Γ} {ws : List (Write Γ)}

/-- What a silent part proves it proves without a report of its own process. -/
theorem wp_silent {p : Prog Γ α} (hp : p.Silent) {Q : Post Γ α} {log : Log Γ}
    (hlog : log.Extends (Event.Foreign t) s.log) (h : wp G t p Q s ws) :
    wp G t p ⟨fun a s' ws' => Q.ret a s' ws' ∧ log.Extends (Event.Foreign t) s'.log,
      fun e s' ws' => Q.raise e s' ws' ∧ log.Extends (Event.Foreign t) s'.log⟩ s ws := by
  have hfollows : ∀ {s s' : Shared Γ}, Follows G t s s' → log.Extends (Event.Foreign t) s.log →
      log.Extends (Event.Foreign t) s'.log :=
    fun hs hlog => hlog.trans (hs.log.mono fun _ he => he.foreign)
  induction p generalizing s ws with
  | ret a => exact ⟨h, hlog⟩
  | raise e => exact ⟨h, hlog⟩
  | select q next ih =>
    exact fun s' hs => ih _ _ (hp _ _) ((hfollows hs hlog).add trivial) (h s' hs)
  | candidates T p next ih =>
    exact fun s' hs keys hk => ih _ (hp _) (hfollows hs hlog) (h s' hs keys hk)
  | visit T p effect κ next ih =>
    intro s' hs
    have hlog' := hfollows hs hlog
    exact ⟨fun hn => ih _ (hp _) hlog' ((h s' hs).1 hn),
      fun r hr hm => ih _ (hp _) hlog' ((h s' hs).2 r hr hm)⟩
  | insert T κ row next ih =>
    intro s' hs
    have hlog' := hfollows hs hlog
    exact ⟨ih _ (hp _) hlog' (h s' hs).1, fun he => ih _ (hp _) hlog' ((h s' hs).2.1 he),
      fun hn he => ih _ (hp _) hlog' ((h s' hs).2.2 hn he)⟩
  | commit report next ih => exact hp.elim
  | rollback next ih => exact fun s' hl => ih hp (hlog.trans hl.log) (h s' hl)
  | call action report next ih => exact hp.elim

/-- A transaction whose work is silent has reported nothing when it raises. -/
theorem wp_transaction_silent {report : α → Γ.Report} {work : Prog Γ α} {Q : Post Γ α}
    (hsilent : work.Silent) (hraise : ∀ e s', Later G t s s' → Q.raise e s' [])
    (h : ∀ s₀, Later G t s s₀ → wp G t work ⟨fun a s ws => ∀ s', Follows G t s s' →
        G.commit s'.log t (report a) (s'.held t) (view ws s'.db) ∧
        Q.ret a (s'.commit t (report a) (view ws s'.db)) [],
      fun _ _ _ => True⟩ s₀ []) :
    wp G t (transaction report work) Q s ws := by
  refine wp_transaction fun s₀ hs₀ => ?_
  refine wp_mono ?_ ?_ (wp_silent hsilent hs₀.log (h s₀ hs₀))
  · exact fun a s' ws' hret => hret.1
  · exact fun e s' ws' hquiet s'' hs'' =>
      hraise e s'' ⟨hs''.valid, hquiet.2.trans hs''.log, hs''.idle⟩

end WiseacctSso.ReadCommitted
