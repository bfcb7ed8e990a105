import Mathlib.Data.List.Sort
import Mathlib.Data.List.Perm.Basic
import Mathlib.Order.Defs.LinearOrder

/-!
# Pages of ordered rows

Rows are ordered by a key that need not tell them apart, and every page is cut out of an order
of its own. The pages make up the rows if and only if no rows of one key stand on both sides of
a page's end.
-/
namespace PagedRows

variable {Row Key : Type*} [LinearOrder Key] (key : Row → Key)

/-- `ORDER BY key DESC` may return the rows in this order. -/
def Ordered (rows order : List Row) : Prop :=
  order.Perm rows ∧ order.Pairwise fun a b => key b ≤ key a

/-- `OFFSET (page - 1) * size LIMIT size`. -/
def page (size number : ℕ) (order : List Row) : List Row :=
  (order.drop ((number - 1) * size)).take size

/-- The number of pages. -/
def pageCount (size total : ℕ) : ℕ := (total + size - 1) / size

/-- The pages one after the other, each of its own order. -/
def pages (size total : ℕ) (orders : ℕ → List Row) : List Row :=
  (List.range (pageCount size total)).flatMap fun i => page size (i + 1) (orders (i + 1))

/-- Rows of one key stand on both sides of the place. -/
def Straddles (rows : List Row) (place : ℕ) : Prop :=
  ∃ v, rows.countP (v < key ·) < place ∧ place < rows.countP (v ≤ key ·)

section ordered

variable {key} {rows order order' : List Row}

lemma ordered_mergeSort (rows : List Row) :
    Ordered key rows (rows.mergeSort fun a b => decide (key b ≤ key a)) := by
  refine ⟨List.mergeSort_perm _ _, ?_⟩
  have htrans : ∀ a b c : Row, decide (key b ≤ key a) = true → decide (key c ≤ key b) = true →
      decide (key c ≤ key a) = true := by
    intro a b c hab hbc
    simp only [decide_eq_true_eq] at hab hbc ⊢
    exact hbc.trans hab
  have htotal : ∀ a b : Row, (decide (key b ≤ key a) || decide (key a ≤ key b)) = true := by
    intro a b
    simp only [Bool.or_eq_true, decide_eq_true_eq]
    exact le_total _ _
  have hsorted := List.pairwise_mergeSort htrans htotal rows
  simpa using hsorted

lemma Ordered.map_eq (h : Ordered key rows order) (h' : Ordered key rows order') :
    order.map key = order'.map key := by
  have hperm : (order.map key).Perm (order'.map key) := (h.1.trans h'.1.symm).map key
  exact hperm.eq_of_pairwise (fun a b _ _ hab hba => le_antisymm hba hab)
    (List.pairwise_map.mpr h.2) (List.pairwise_map.mpr h'.2)

/-- The rows from a key on stand in front. -/
lemma filter_eq_take {p : Row → Bool} (hp : ∀ a b, key a ≤ key b → p a → p b)
    (h : order.Pairwise fun a b => key b ≤ key a) :
    order.filter p = order.take (order.countP p) := by
  induction order with
  | nil => rfl
  | cons a order ih =>
    obtain ⟨ha, hrest⟩ := List.pairwise_cons.mp h
    by_cases hpa : p a
    · rw [List.filter_cons_of_pos hpa, List.countP_cons_of_pos hpa, List.take_succ_cons, ih hrest]
    · have hnone : ∀ b ∈ order, ¬ p b := fun b hb hpb => hpa (hp b a (ha b hb) hpb)
      rw [List.filter_cons_of_neg hpa, List.countP_cons_of_neg hpa,
        List.countP_eq_zero.mpr hnone, List.take_zero, List.filter_eq_nil_iff.mpr hnone]

/-- A row is in front exactly if it satisfies the condition. -/
lemma getElem_iff {p : Row → Bool} (hp : ∀ a b, key a ≤ key b → p a → p b)
    (h : order.Pairwise fun a b => key b ≤ key a) {n : ℕ} (hn : n < order.length) :
    p order[n] ↔ n < order.countP p := by
  induction order generalizing n with
  | nil => simp at hn
  | cons a order ih =>
    obtain ⟨ha, hrest⟩ := List.pairwise_cons.mp h
    by_cases hpa : p a
    · rw [List.countP_cons_of_pos hpa]
      cases n with
      | zero => simp [hpa]
      | succ n =>
        rw [List.getElem_cons_succ, ih hrest (by simpa using hn)]
        omega
    · have hnone : ∀ b ∈ order, ¬ p b := fun b hb hpb => hpa (hp b a (ha b hb) hpb)
      rw [List.countP_cons_of_neg hpa, List.countP_eq_zero.mpr hnone]
      cases n with
      | zero => simp [hpa]
      | succ n =>
        have hmem := List.getElem_mem (l := order) (n := n) (by simpa using hn)
        simpa using hnone _ hmem

/-- Where no rows of one key are parted, a condition on the key tells what stands in front. -/
lemma exists_condition (h : Ordered key rows order) {place : ℕ}
    (hplace : ¬ Straddles key rows place) :
    ∃ p : Row → Bool, (∀ a b, key a ≤ key b → p a → p b) ∧
      (place = rows.countP p ∨ rows.length ≤ place) := by
  cases place with
  | zero => exact ⟨fun _ => false, by simp, .inl (by simp)⟩
  | succ n =>
    by_cases hn : n < order.length
    · set v := key order[n] with hv
      have hup : ∀ a b, key a ≤ key b → decide (v ≤ key a) → decide (v ≤ key b) := by
        intro a b hab ha
        simp only [decide_eq_true_eq] at ha ⊢
        exact ha.trans hab
      have hup' : ∀ a b, key a ≤ key b → decide (v < key a) → decide (v < key b) := by
        intro a b hab ha
        simp only [decide_eq_true_eq] at ha ⊢
        exact ha.trans_le hab
      have hle := getElem_iff hup h.2 hn
      have hlt := getElem_iff hup' h.2 hn
      simp only [← hv, le_refl, lt_irrefl, decide_true, decide_false, Bool.false_eq_true,
        true_iff, false_iff, not_lt] at hle hlt
      rw [h.1.countP_eq] at hle hlt
      have hnot : ¬ n + 1 < rows.countP (v ≤ key ·) := fun hafter =>
        hplace ⟨v, by omega, hafter⟩
      exact ⟨fun a => v ≤ key a, hup, .inl (by omega)⟩
    · rw [h.1.length_eq] at hn
      exact ⟨fun _ => true, by simp, .inr (by omega)⟩

/-- Every order has the same rows there then. -/
lemma take_perm (h : Ordered key rows order) (h' : Ordered key rows order') {place : ℕ}
    (hplace : ¬ Straddles key rows place) : (order.take place).Perm (order'.take place) := by
  obtain ⟨p, hp, rfl | hlength⟩ := exists_condition h hplace
  · have hfilter := filter_eq_take hp h.2
    have hfilter' := filter_eq_take hp h'.2
    rw [h.1.countP_eq] at hfilter
    rw [h'.1.countP_eq] at hfilter'
    rw [← hfilter, ← hfilter']
    exact (h.1.trans h'.1.symm).filter p
  · rw [List.take_of_length_le (h.1.length_eq ▸ hlength),
      List.take_of_length_le (h'.1.length_eq ▸ hlength)]
    exact h.1.trans h'.1.symm

lemma page_perm (h : Ordered key rows order) (h' : Ordered key rows order') {size number : ℕ}
    (hstart : ¬ Straddles key rows ((number - 1) * size))
    (hend : ¬ Straddles key rows ((number - 1) * size + size)) :
    (page size number order).Perm (page size number order') := by
  have hfront := take_perm h h' hstart
  have hall := take_perm h h' hend
  rw [List.take_add, List.take_add] at hall
  exact (List.perm_append_left_iff _).mp (hall.trans (hfront.symm.append_right _))

end ordered

/-! ## All pages -/

lemma pages_const {size total : ℕ} (order : List Row) :
    pages size total (fun _ => order) = order.take (pageCount size total * size) := by
  unfold pages
  induction pageCount size total with
  | zero => simp
  | succ n ih =>
    rw [List.range_succ, List.flatMap_append, ih, List.flatMap_singleton, page, Nat.add_sub_cancel,
      Nat.succ_mul, List.take_add]

lemma total_le {size total : ℕ} (hsize : 0 < size) : total ≤ pageCount size total * size := by
  unfold pageCount
  have hdiv := Nat.div_add_mod (total + size - 1) size
  have hmod := Nat.mod_lt (total + size - 1) hsize
  rw [Nat.mul_comm] at hdiv
  omega

/-- Of one order, the pages are the rows. -/
lemma pages_of_order {size : ℕ} (hsize : 0 < size) {rows order : List Row}
    (h : Ordered key rows order) : pages size rows.length (fun _ => order) = order := by
  rw [pages_const, List.take_of_length_le (h.1.length_eq.le.trans (total_le hsize))]

variable {key}

/-- Whatever the orders, the keys of the rows are in place. -/
theorem pages_keys {size : ℕ} (hsize : 0 < size) {rows order : List Row} {orders : ℕ → List Row}
    (h : Ordered key rows order) (horders : ∀ i, Ordered key rows (orders i)) :
    (pages size rows.length orders).map key = order.map key := by
  rw [← pages_of_order key hsize h, pages, pages, List.map_flatMap, List.map_flatMap]
  congr 1
  funext i
  rw [page, page, List.map_take, List.map_take, List.map_drop, List.map_drop,
    (horders (i + 1)).map_eq h]

lemma pages_perm {size : ℕ} (hsize : 0 < size) {rows : List Row} {orders : ℕ → List Row}
    (horders : ∀ i, Ordered key rows (orders i))
    (hplaces : ∀ i, ¬ Straddles key rows (i * size)) :
    (pages size rows.length orders).Perm rows := by
  have hpages : (pages size rows.length orders).Perm
      (pages size rows.length fun _ => orders 0) := by
    refine List.Perm.flatMap_left _ fun i _ => ?_
    have hend : ¬ Straddles key rows ((i + 1 - 1) * size + size) := by
      rw [← Nat.succ_mul]
      exact hplaces _
    exact page_perm (horders _) (horders 0) (hplaces _) hend
  rw [pages_of_order key hsize (horders 0)] at hpages
  exact hpages.trans (horders 0).1

/-- Two rows of one key that stand next to each other change places. -/
lemma exists_swapped {rows : List Row} {place : ℕ} (h : Straddles key rows (place + 1)) :
    ∃ front back : List Row, ∃ a b, front.length = place ∧
      Ordered key rows (front ++ a :: b :: back) ∧ Ordered key rows (front ++ b :: a :: back) := by
  obtain ⟨v, hnewer, hsame⟩ := h
  set order := rows.mergeSort fun a b => decide (key b ≤ key a)
  have horder : Ordered key rows order := ordered_mergeSort rows
  have hup : ∀ a b, key a ≤ key b → decide (v ≤ key a) → decide (v ≤ key b) := by
    intro a b hab ha
    simp only [decide_eq_true_eq] at ha ⊢
    exact ha.trans hab
  have hup' : ∀ a b, key a ≤ key b → decide (v < key a) → decide (v < key b) := by
    intro a b hab ha
    simp only [decide_eq_true_eq] at ha ⊢
    exact ha.trans_le hab
  rw [← horder.1.countP_eq] at hnewer hsame
  have hlength : place + 1 < order.length := hsame.trans_le List.countP_le_length
  have hkey : ∀ n (hn : n < order.length), order.countP (v < key ·) ≤ n →
      n < order.countP (v ≤ key ·) → key order[n] = v := by
    intro n hn hlow hhigh
    have hle := (getElem_iff hup horder.2 hn).mpr hhigh
    have hlt := mt (getElem_iff hup' horder.2 hn).mp (by omega)
    simp only [decide_eq_true_eq, not_lt] at hle hlt
    exact le_antisymm hlt hle
  have hsplit : order = order.take place ++ order[place] :: order[place + 1] ::
      order.drop (place + 2) := by
    rw [← List.drop_eq_getElem_cons, ← List.drop_eq_getElem_cons, List.take_append_drop]
  refine ⟨order.take place, order.drop (place + 2), order[place], order[place + 1], ?_, ?_, ?_⟩
  · rw [List.length_take]
    omega
  · rw [← hsplit]
    exact horder
  · have hperm : (order.take place ++ order[place + 1] :: order[place] ::
        order.drop (place + 2)).Perm order := by
      conv_rhs => rw [hsplit]
      exact (List.Perm.swap _ _ _).append_left _
    have hmap : (order.take place ++ order[place + 1] :: order[place] ::
        order.drop (place + 2)).map key = order.map key := by
      conv_rhs => rw [hsplit]
      simp only [List.map_append, List.map_cons, hkey place (by omega) (by omega) (by omega),
        hkey (place + 1) hlength (by omega) hsame]
    refine ⟨hperm.trans horder.1, ?_⟩
    have hpairwise : (order.map key).Pairwise fun x y => y ≤ x := List.pairwise_map.mpr horder.2
    rw [← hmap] at hpairwise
    exact List.pairwise_map.mp hpairwise

lemma mem_page {size number j : ℕ} {order : List Row} {a : Row}
    (ha : order[(number - 1) * size + j]? = some a) (hj : j < size) :
    a ∈ page size number order := by
  refine List.mem_of_getElem? (i := j) ?_
  rw [page, List.getElem?_take_of_lt hj, List.getElem?_drop, ha]

lemma straddles_pages {size : ℕ} (hsize : 0 < size) {rows : List Row} (hrows : rows.Nodup) {i : ℕ}
    (h : Straddles key rows (i * size)) :
    ∃ orders : ℕ → List Row, (∀ j, Ordered key rows (orders j)) ∧
      ¬ (pages size rows.length orders).Perm rows := by
  obtain ⟨v, hnewer, hsame⟩ := id h
  have hlength : i * size < rows.length := hsame.trans_le List.countP_le_length
  obtain ⟨place, hplace⟩ : ∃ place, i * size = place + 1 :=
    ⟨i * size - 1, by omega⟩
  have hi : 0 < i := by
    rcases Nat.eq_zero_or_pos i with rfl | hi
    · omega
    · exact hi
  rw [hplace] at h
  obtain ⟨front, back, a, b, hfront, horder, hswapped⟩ := exists_swapped h
  refine ⟨fun j => if j = i + 1 then front ++ b :: a :: back else front ++ a :: b :: back, ?_, ?_⟩
  · intro j
    dsimp only
    split_ifs
    · exact hswapped
    · exact horder
  · intro hperm
    -- the row at the end of page i comes again at the start of the next page
    obtain ⟨n, rfl⟩ : ∃ n, i = n + 1 := ⟨i - 1, by omega⟩
    rw [Nat.succ_mul] at hplace
    have hcount : n + 1 < pageCount size rows.length := by
      by_contra hle
      have htotal : rows.length ≤ pageCount size rows.length * size := total_le hsize
      have hmul := Nat.mul_le_mul_right size (not_lt.mp hle)
      omega
    have hnodup := (List.nodup_flatMap.mp (hperm.nodup_iff.mpr hrows)).2
    have hdisjoint := List.pairwise_iff_getElem.mp hnodup n (n + 1)
      (by rw [List.length_range]; omega) (by rw [List.length_range]; omega) (by omega)
    simp only [Function.onFun, List.getElem_range] at hdisjoint
    rw [if_neg (by omega), if_pos trivial] at hdisjoint
    refine hdisjoint (a := a) (mem_page (j := size - 1) ?_ (by omega)) (mem_page (j := 0) ?_ hsize)
    · have hplace' : (n + 1 - 1) * size + (size - 1) = front.length := by
        rw [Nat.add_sub_cancel]
        omega
      rw [hplace']
      simp
    · have hplace' : (n + 1 + 1 - 1) * size + 0 = front.length + 1 := by
        rw [Nat.add_sub_cancel, Nat.succ_mul]
        omega
      rw [hplace']
      simp

/-- The pages make up the rows under every choice of the orders if and only if no rows of one key
stand on both sides of a page's end. -/
theorem pages_perm_iff {size : ℕ} (hsize : 0 < size) {rows : List Row} (hrows : rows.Nodup) :
    (∀ orders : ℕ → List Row, (∀ i, Ordered key rows (orders i)) →
      (pages size rows.length orders).Perm rows) ↔ ∀ i, ¬ Straddles key rows (i * size) := by
  constructor
  · intro h i hstraddles
    obtain ⟨orders, horders, hnot⟩ := straddles_pages hsize hrows hstraddles
    exact hnot (h orders horders)
  · exact fun hplaces orders horders => pages_perm hsize horders hplaces

end PagedRows
