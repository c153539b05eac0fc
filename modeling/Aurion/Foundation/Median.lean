import Mathlib.Data.List.GetD
import Mathlib.Data.List.Sort

/-!
# The median of a sliding window

The median is the middle element in ascending order, the upper one of two.  It
is at least a bound exactly when no more elements lie below the bound than half
of the length; from this follows what a new element does to the median.
-/

namespace Foundation

variable {Item : Type} [LE Item] [LT Item] [DecidableLE Item] [DecidableLT Item]

def median (fallback : Item) (items : List Item) : Item :=
  (items.insertionSort (· ≤ ·)).getD (items.length / 2) fallback

/-- The number of elements below a bound. -/
def countBelow (items : List Item) (bound : Item) : Nat := items.countP fun item => item < bound

omit [LE Item] [DecidableLE Item] in
theorem countBelow_cons (item : Item) (items : List Item) (bound : Item) :
    countBelow (item :: items) bound = countBelow items bound + if item < bound then 1 else 0 := by
  simp [countBelow, List.countP_cons]

omit [LE Item] [DecidableLE Item] in
theorem countBelow_le_of_sublist {few many : List Item} (sublist : few.Sublist many)
    (bound : Item) : countBelow few bound ≤ countBelow many bound :=
  sublist.countP_le

variable [Std.IsLinearOrder Item] [Std.LawfulOrderLT Item]

omit [DecidableLE Item] in
/-- The element at a position of an ascending list is at least the bound exactly
when no more elements than this position lie below it. -/
theorem le_getElem_iff {items : List Item} (ascending : items.Pairwise (· ≤ ·)) (bound : Item)
    {position : Nat} (inside : position < items.length) :
    bound ≤ items[position] ↔ countBelow items bound ≤ position := by
  induction items generalizing position with
  | nil => cases inside
  | cons first rest inductionHypothesis =>
      obtain ⟨least, ascendingRest⟩ := List.pairwise_cons.mp ascending
      rw [countBelow_cons]
      by_cases below : first < bound
      · rw [if_pos below]
        cases position with
        | zero => simp [Std.not_le.mpr below]
        | succ position =>
            rw [List.getElem_cons_succ, inductionHypothesis ascendingRest]
            exact Nat.succ_le_succ_iff.symm
      · -- Nothing lies below the bound once the first element does not.
        have reached := Std.not_lt.mp below
        have nothing : countBelow rest bound = 0 := by
          rw [countBelow, List.countP_eq_zero]
          intro item membership
          simpa using Std.not_lt.mpr (Std.le_trans reached (least item membership))
        have all : ∀ item ∈ first :: rest, bound ≤ item := by
          rw [List.forall_mem_cons]
          exact ⟨reached, fun item membership => Std.le_trans reached (least item membership)⟩
        simp [below, nothing, all _ (List.getElem_mem inside)]

theorem le_median_iff {items : List Item} (inhabited : items ≠ []) (fallback bound : Item) :
    bound ≤ median fallback items ↔ countBelow items bound ≤ items.length / 2 := by
  have sorted := List.perm_insertionSort (· ≤ ·) items
  have inside : items.length / 2 < (items.insertionSort (· ≤ ·)).length := by
    rw [sorted.length_eq]
    exact Nat.div_lt_self (List.length_pos_of_ne_nil inhabited) Nat.one_lt_two
  have same : countBelow (items.insertionSort (· ≤ ·)) bound = countBelow items bound :=
    sorted.countP_eq _
  rw [median, List.getD_eq_getElem _ _ inside,
    le_getElem_iff (List.pairwise_insertionSort _ _) bound inside, same]

/-- A new element does not lower the median of a window that drops at most one
element exactly when it is no smaller than the median, or fewer than half of the
kept elements are. -/
theorem median_le_median_iff {window kept : List Item} (inhabited : window ≠ [])
    (sublist : kept.Sublist window) (dropsOne : window.length ≤ kept.length + 1)
    (fallback item : Item) :
    median fallback window ≤ median fallback (item :: kept) ↔
      median fallback window ≤ item ∨
        countBelow kept (median fallback window) < (kept.length + 1) / 2 := by
  have before := (le_median_iff inhabited fallback _).mp (Std.le_refl (median fallback window))
  have fewer := countBelow_le_of_sublist sublist (median fallback window)
  rw [le_median_iff (List.cons_ne_nil _ _), countBelow_cons, List.length_cons]
  by_cases below : item < median fallback window
  · rw [if_pos below, or_iff_right (Std.not_le.mpr below)]
    exact Nat.succ_le_iff
  · rw [if_neg below, or_iff_left_of_imp fun _ => Std.not_lt.mp below,
      iff_true_right (Std.not_lt.mp below)]
    omega

section Rank

omit [LT Item] [DecidableLT Item] [Std.LawfulOrderLT Item]

/-- In an ascending list an element is reached by those up to its position and
reaches those from there on. -/
theorem countP_getElem {items : List Item} (ascending : items.Pairwise (· ≤ ·)) {position : Nat}
    (inside : position < items.length) :
    position < items.countP (fun item => item ≤ items[position]) ∧
      items.length ≤ items.countP (fun item => items[position] ≤ item) + position := by
  have ordered := List.pairwise_iff_getElem.mp ascending
  constructor
  · have front : (items.take (position + 1)).countP (fun item => item ≤ items[position]) =
        (items.take (position + 1)).length := by
      rw [List.countP_eq_length]
      intro item membership
      obtain ⟨index, before, rfl⟩ := List.getElem_of_mem membership
      rw [List.length_take] at before
      rw [List.getElem_take, decide_eq_true_eq]
      rcases Nat.lt_or_eq_of_le (Nat.le_of_lt_succ (Nat.lt_min.mp before).1) with earlier | rfl
      · exact ordered _ _ _ _ earlier
      · exact Std.le_refl _
    have fewer := (List.take_sublist (position + 1) items).countP_le (p := fun item =>
      decide (item ≤ items[position]))
    rw [front, List.length_take, Nat.min_eq_left inside] at fewer
    exact fewer
  · have back : (items.drop position).countP (fun item => items[position] ≤ item) =
        (items.drop position).length := by
      rw [List.countP_eq_length]
      intro item membership
      obtain ⟨index, before, rfl⟩ := List.getElem_of_mem membership
      rw [List.getElem_drop, decide_eq_true_eq]
      cases index with
      | zero => exact Std.le_refl _
      | succ index => exact ordered _ _ _ _ (Nat.lt_add_of_pos_right (Nat.succ_pos _))
    have fewer := (List.drop_sublist position items).countP_le (p := fun item =>
      decide (items[position] ≤ item))
    rw [back, List.length_drop] at fewer
    exact Nat.sub_le_iff_le_add.mp fewer

/-- The median is the middle element of the ascending arrangement.  More than
half of the elements reach up to it, and at least half of them down to it. -/
theorem median_spec {items : List Item} (inhabited : items ≠ []) (fallback : Item) :
    (items.insertionSort (· ≤ ·))[items.length / 2]? = some (median fallback items) ∧
      items.length / 2 < items.countP (fun item => item ≤ median fallback items) ∧
      items.length ≤
        items.countP (fun item => median fallback items ≤ item) + items.length / 2 := by
  have sorted := List.perm_insertionSort (· ≤ ·) items
  have inside : items.length / 2 < (items.insertionSort (· ≤ ·)).length := by
    rw [sorted.length_eq]
    exact Nat.div_lt_self (List.length_pos_of_ne_nil inhabited) Nat.one_lt_two
  have middle : median fallback items = (items.insertionSort (· ≤ ·))[items.length / 2] :=
    List.getD_eq_getElem _ _ inside
  obtain ⟨below, above⟩ := countP_getElem (List.pairwise_insertionSort (· ≤ ·) items) inside
  rw [sorted.countP_eq, ← middle] at below above
  rw [sorted.length_eq] at above
  exact ⟨by rw [List.getElem?_eq_getElem inside, middle], below, above⟩

end Rank

end Foundation
