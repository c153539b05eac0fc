import Mathlib.Data.List.Pairwise
import Mathlib.Order.Compare
import Mathlib.Order.Lattice

/-!
# Ordered sets

A set is a list in ascending order that is searched through a comparison.
What the operations do is stated against a rank of the items in a linear
order with which the comparison agrees on the items at hand.
-/

namespace Foundation.OrderedSet

variable {Item Rank : Type} (cmp : Item → Item → Ordering)

/-- Add an item unless an equal one is present. -/
def insert (item : Item) : List Item → List Item
  | [] => [item]
  | first :: rest =>
      match cmp item first with
      | .lt => item :: first :: rest
      | .eq => first :: rest
      | .gt => first :: insert item rest

/-- Remove the item that is equal to the given one. -/
def remove (item : Item) : List Item → List Item
  | [] => []
  | first :: rest =>
      match cmp item first with
      | .lt => first :: rest
      | .eq => rest
      | .gt => first :: remove item rest

variable [LinearOrder Rank] (rank : Item → Rank)

/-- On these items the comparison is that of the ranks. -/
def Agrees (items : List Item) : Prop :=
  ∀ left ∈ items, ∀ right ∈ items, (cmp left right).Compares (rank left) (rank right)

/-- The ranks ascend strictly. -/
def Ascending (items : List Item) : Prop := items.Pairwise fun left right => rank left < rank right

variable {cmp rank}

theorem Agrees.mono {few many : List Item} (agrees : Agrees cmp rank many) (subset : few ⊆ many) :
    Agrees cmp rank few :=
  fun left leftIn right rightIn => agrees left (subset leftIn) right (subset rightIn)

theorem Agrees.tail {item first : Item} {rest : List Item}
    (agrees : Agrees cmp rank (item :: first :: rest)) : Agrees cmp rank (item :: rest) :=
  agrees.mono (List.cons_subset_cons item (List.subset_cons_self first rest))

theorem Ascending.nodup {items : List Item} (ascending : Ascending rank items) : items.Nodup := by
  apply ascending.imp
  intro left right below same
  exact absurd (congrArg rank same) (ne_of_lt below)

theorem mem_insert {item : Item} {items : List Item} (agrees : Agrees cmp rank (item :: items))
    (fresh : ∀ other ∈ items, rank other ≠ rank item) (other : Item) :
    other ∈ insert cmp item items ↔ other = item ∨ other ∈ items := by
  induction items with
  | nil => simp [insert]
  | cons first rest inductionHypothesis =>
      have compared := agrees item List.mem_cons_self first (by simp)
      rw [List.forall_mem_cons] at fresh
      have deeper := inductionHypothesis agrees.tail fresh.2
      cases order : cmp item first with
      | lt => simp [insert, order]
      | eq =>
          rw [order] at compared
          exact absurd (Eq.symm compared) fresh.1
      | gt =>
          simp only [insert, order, List.mem_cons, deeper]
          exact or_left_comm

omit [LinearOrder Rank] in
theorem insert_subset (item : Item) (items : List Item) :
    insert cmp item items ⊆ item :: items := by
  fun_induction insert cmp item items with
  | case1 => exact List.Subset.refl _
  | case2 => exact List.Subset.refl _
  | case3 first rest => exact List.subset_cons_self _ _
  | case4 first rest _ inductionHypothesis =>
      intro other membership
      rcases List.mem_cons.mp membership with rfl | deeper
      · simp
      · have found := inductionHypothesis deeper
        simp only [List.mem_cons] at found ⊢
        exact found.imp_right Or.inr

theorem insert_ascending {item : Item} {items : List Item}
    (agrees : Agrees cmp rank (item :: items)) (ascending : Ascending rank items) :
    Ascending rank (insert cmp item items) := by
  induction items with
  | nil => exact List.pairwise_singleton _ _
  | cons first rest inductionHypothesis =>
      have compared := agrees item List.mem_cons_self first (by simp)
      obtain ⟨least, ascendingRest⟩ := List.pairwise_cons.mp ascending
      cases order : cmp item first with
      | lt =>
          rw [order] at compared
          simp only [insert, order]
          refine List.pairwise_cons.mpr ⟨?_, ascending⟩
          intro other membership
          rcases List.mem_cons.mp membership with rfl | inRest
          · exact compared
          · exact lt_trans compared (least other inRest)
      | eq => simpa [insert, order] using ascending
      | gt =>
          rw [order] at compared
          simp only [insert, order]
          refine List.pairwise_cons.mpr ⟨?_, inductionHypothesis agrees.tail ascendingRest⟩
          intro other membership
          rcases List.mem_cons.mp (insert_subset item rest membership) with rfl | inRest
          · exact compared
          · exact least other inRest

omit [LinearOrder Rank] in
theorem remove_sublist (item : Item) (items : List Item) :
    (remove cmp item items).Sublist items := by
  fun_induction remove cmp item items with
  | case1 => exact List.Sublist.refl _
  | case2 => exact List.Sublist.refl _
  | case3 first rest => exact List.sublist_cons_self _ _
  | case4 first rest _ inductionHypothesis => exact inductionHypothesis.cons_cons first

theorem remove_ascending {items : List Item} (ascending : Ascending rank items) (item : Item) :
    Ascending rank (remove cmp item items) :=
  ascending.sublist (remove_sublist item items)

/-- On an ascending list the search finds every item of the given rank. -/
theorem mem_remove {item : Item} {items : List Item} (agrees : Agrees cmp rank (item :: items))
    (ascending : Ascending rank items) (other : Item) :
    other ∈ remove cmp item items ↔ other ∈ items ∧ rank other ≠ rank item := by
  induction items with
  | nil => simp [remove]
  | cons first rest inductionHypothesis =>
      have compared := agrees item List.mem_cons_self first (by simp)
      obtain ⟨least, ascendingRest⟩ := List.pairwise_cons.mp ascending
      have deeper := inductionHypothesis agrees.tail ascendingRest
      cases order : cmp item first with
      | lt =>
          rw [order] at compared
          have above : ∀ other ∈ first :: rest, rank other ≠ rank item := by
            intro other membership
            rcases List.mem_cons.mp membership with rfl | inRest
            · exact ne_of_gt compared
            · exact ne_of_gt (lt_trans compared (least other inRest))
          simp only [remove, order]
          exact ⟨fun membership => ⟨membership, above other membership⟩, fun both => both.1⟩
      | eq =>
          rw [order] at compared
          have same : rank item = rank first := compared
          simp only [remove, order, List.mem_cons]
          constructor
          · intro inRest
            exact ⟨Or.inr inRest, same ▸ ne_of_gt (least other inRest)⟩
          · intro found
            rcases found with ⟨rfl | inRest, different⟩
            · exact absurd same.symm different
            · exact inRest
      | gt =>
          rw [order] at compared
          have different : rank first ≠ rank item := ne_of_lt compared
          simp only [remove, order, List.mem_cons, deeper]
          constructor
          · intro found
            rcases found with rfl | ⟨inRest, apart⟩
            · exact ⟨Or.inl rfl, different⟩
            · exact ⟨Or.inr inRest, apart⟩
          · intro found
            rcases found with ⟨rfl | inRest, apart⟩
            · exact Or.inl rfl
            · exact Or.inr ⟨inRest, apart⟩

end Foundation.OrderedSet
