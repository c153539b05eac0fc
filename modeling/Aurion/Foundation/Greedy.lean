import Mathlib.Algebra.BigOperators.Group.List.Basic
import Mathlib.Algebra.GroupWithZero.Nat
import Mathlib.Data.List.Pairwise

/-!
# Greedy packing

Items are taken in their order as long as they fit; an item that does not fit is
skipped.
-/

namespace Foundation.Greedy

variable {Item : Type} (weight : Item → Nat) (limit : Nat)

/-- The items taken when some weight is taken already. -/
def pack : List Item → Nat → List Item
  | [], _ => []
  | item :: rest, taken =>
      if taken + weight item ≤ limit then item :: pack rest (taken + weight item)
      else pack rest taken

variable {weight limit}

theorem pack_sublist (items : List Item) (taken : Nat) :
    (pack weight limit items taken).Sublist items := by
  fun_induction pack weight limit items taken with
  | case1 => exact List.Sublist.refl _
  | case2 item rest taken _ inductionHypothesis => exact inductionHypothesis.cons_cons item
  | case3 item rest taken _ inductionHypothesis => exact inductionHypothesis.cons item

/-- What is taken stays within the limit. -/
theorem pack_fits (items : List Item) {taken : Nat} (within : taken ≤ limit) :
    taken + ((pack weight limit items taken).map weight).sum ≤ limit := by
  fun_induction pack weight limit items taken with
  | case1 => exact within
  | case2 item rest taken fits inductionHypothesis =>
      rw [List.map_cons, List.sum_cons, ← Nat.add_assoc]
      exact inductionHypothesis fits
  | case3 item rest taken _ inductionHypothesis => exact inductionHypothesis within

theorem pack_append (front back : List Item) (taken : Nat) :
    pack weight limit (front ++ back) taken =
      pack weight limit front taken ++
        pack weight limit back (taken + ((pack weight limit front taken).map weight).sum) := by
  fun_induction pack weight limit front taken with
  | case1 => rfl
  | case2 item rest taken fits inductionHypothesis =>
      rw [List.cons_append, pack, if_pos fits, inductionHypothesis, List.map_cons, List.sum_cons,
        ← Nat.add_assoc, List.cons_append]
  | case3 item rest taken skipped inductionHypothesis =>
      rw [List.cons_append, pack, if_neg skipped, inductionHypothesis]

/-- An item that is left out does not fit on top of those taken before it. -/
theorem exceeds_of_notMem (precedes : Item → Item → Bool) {items : List Item}
    (sorted : items.Pairwise fun first second =>
      precedes first second = true ∧ precedes second first = false)
    {item : Item} (irreflexive : precedes item item = false) (membership : item ∈ items)
    {taken : Nat} (left : item ∉ pack weight limit items taken) :
    limit < taken + (((pack weight limit items taken).filter (precedes · item)).map weight).sum +
      weight item := by
  obtain ⟨above, below, rfl⟩ := List.append_of_mem membership
  rw [pack_append, List.mem_append, not_or] at left
  rw [List.pairwise_append] at sorted
  obtain ⟨-, sortedBelow, across⟩ := sorted
  -- Exactly the items taken before this one precede it.
  have before : (pack weight limit above taken).filter (precedes · item) =
      pack weight limit above taken := by
    rw [List.filter_eq_self]
    intro first found
    exact (across first ((pack_sublist above taken).subset found) item List.mem_cons_self).1
  have after : ∀ start,
      (pack weight limit (item :: below) start).filter (precedes · item) = [] := by
    intro start
    rw [List.filter_eq_nil_iff]
    intro second found
    rcases List.mem_cons.mp ((pack_sublist _ _).subset found) with rfl | later
    · simp [irreflexive]
    · simp [((List.pairwise_cons.mp sortedBelow).1 second later).2]
  rw [pack_append, List.filter_append, before, after, List.append_nil]
  by_contra fits
  apply left.2
  rw [pack, if_pos (Nat.le_of_not_lt fits)]
  exact List.mem_cons_self

end Foundation.Greedy
