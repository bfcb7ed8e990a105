import Mathlib.Data.List.Forall2
import Mathlib.Tactic.Common

/-!
# Lists related element by element
-/
namespace ListRelations

variable {α β γ : Type*} {P Q : α → β → Prop} {xs : List α} {ys : List β}

lemma exists_forall₂_iff : (∃ ys, List.Forall₂ Q xs ys) ↔ ∀ x ∈ xs, ∃ y, Q x y := by
  induction xs with
  | nil => simp
  | cons x xs ih =>
    rw [List.forall_mem_cons, ← ih]
    constructor
    · rintro ⟨_, h⟩
      obtain ⟨y, ys, hy, hys, rfl⟩ := List.forall₂_cons_left_iff.mp h
      exact ⟨⟨y, hy⟩, ⟨ys, hys⟩⟩
    · rintro ⟨⟨y, hy⟩, ⟨ys, hys⟩⟩
      exact ⟨y :: ys, .cons hy hys⟩

lemma forall₂_and_iff :
    List.Forall₂ (fun x y => P x y ∧ Q x y) xs ys ↔
      List.Forall₂ P xs ys ∧ List.Forall₂ Q xs ys := by
  constructor
  · intro h
    exact ⟨h.imp fun _ _ hxy => hxy.1, h.imp fun _ _ hxy => hxy.2⟩
  · rintro ⟨hP, hQ⟩
    induction hP with
    | nil => exact .nil
    | cons h _ ih =>
      obtain ⟨hq, hrest⟩ := List.forall₂_cons.mp hQ
      exact .cons ⟨h, hq⟩ (ih hrest)

lemma forall₂_imp_of_mem (h : List.Forall₂ P xs ys)
    (himp : ∀ x ∈ xs, ∀ y ∈ ys, P x y → Q x y) : List.Forall₂ Q xs ys := by
  induction h with
  | nil => exact .nil
  | cons hxy _ ih =>
    exact .cons (himp _ List.mem_cons_self _ List.mem_cons_self hxy)
      (ih fun x hx y hy => himp x (List.mem_cons_of_mem _ hx) y (List.mem_cons_of_mem _ hy))

lemma forall₂_flip_of_mem {Q : β → α → Prop} (h : List.Forall₂ P xs ys)
    (himp : ∀ x ∈ xs, ∀ y ∈ ys, P x y → Q y x) : List.Forall₂ Q ys xs :=
  List.Forall₂.flip (forall₂_imp_of_mem h himp)

lemma forall₂_comp_of_mem {Q : β → γ → Prop} {T : α → γ → Prop} {zs : List γ}
    (h : List.Forall₂ P xs ys) (h' : List.Forall₂ Q ys zs)
    (himp : ∀ x ∈ xs, ∀ y ∈ ys, ∀ z, P x y → Q y z → T x z) : List.Forall₂ T xs zs := by
  induction h generalizing zs with
  | nil =>
    cases h'
    exact .nil
  | cons hxy _ ih =>
    obtain ⟨z, zs, hyz, hrest, rfl⟩ := List.forall₂_cons_left_iff.mp h'
    exact .cons (himp _ List.mem_cons_self _ List.mem_cons_self _ hxy hyz)
      (ih hrest fun x hx y hy => himp x (List.mem_cons_of_mem _ hx) y (List.mem_cons_of_mem _ hy))

lemma forall_mem_of_forall₂ {R : β → Prop} (h : List.Forall₂ Q xs ys)
    (himp : ∀ x ∈ xs, ∀ y, Q x y → R y) : ∀ y ∈ ys, R y := by
  induction h with
  | nil => simp
  | cons hxy _ ih =>
    intro y hy
    rcases List.mem_cons.mp hy with rfl | hy
    · exact himp _ List.mem_cons_self _ hxy
    · exact ih (fun x hx => himp x (List.mem_cons_of_mem _ hx)) y hy

end ListRelations
