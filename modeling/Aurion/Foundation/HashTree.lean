import Mathlib.Data.List.Basic

/-!
# Binary hash trees with a duplicated last node

Each layer pairs neighbours and pairs an odd last node with itself, until one
node is left.  Duplication makes the root blind to some repetitions of leaves,
so equal roots do not give equal leaf lists.  They do give equal leaf *sets*,
unless a first leaf is itself the combination of two nodes of a tree, and
equal leaf lists when the lists are equally long.
-/

namespace Foundation.HashTree

variable {Node : Type} (combine : Node → Node → Node)

/-- The pairs combined in one layer. -/
def pairs : List Node → List (Node × Node)
  | [] => []
  | [last] => [(last, last)]
  | left :: right :: rest => (left, right) :: pairs rest

@[simp]
theorem length_pairs (nodes : List Node) : (pairs nodes).length = (nodes.length + 1) / 2 := by
  fun_induction pairs nodes with
  | case1 => simp
  | case2 last => simp
  | case3 left right rest inductionHypothesis => simp [inductionHypothesis]; omega

theorem mem_iff_mem_pairs (nodes : List Node) (node : Node) :
    node ∈ nodes ↔ ∃ pair ∈ pairs nodes, node = pair.1 ∨ node = pair.2 := by
  fun_induction pairs nodes with
  | case1 => simp
  | case2 last => simp
  | case3 left right rest inductionHypothesis => simp [inductionHypothesis, or_assoc]

/-- The next layer of the tree. -/
def layer (nodes : List Node) : List Node :=
  (pairs nodes).map fun pair => combine pair.1 pair.2

theorem length_layer (nodes : List Node) :
    (layer combine nodes).length = (nodes.length + 1) / 2 := by simp [layer]

/-- Build layers until at most one node is left. -/
def root (default : Node) (nodes : List Node) : Node :=
  if 1 < nodes.length then root default (layer combine nodes) else nodes.headD default
termination_by nodes.length
decreasing_by rw [length_layer]; omega

/-- Every pair combined while the root is computed. -/
def combined (nodes : List Node) : List (Node × Node) :=
  if 1 < nodes.length then pairs nodes ++ combined (layer combine nodes) else []
termination_by nodes.length
decreasing_by rw [length_layer]; omega

theorem combined_of_lt {nodes : List Node} (several : 1 < nodes.length) :
    combined combine nodes = pairs nodes ++ combined combine (layer combine nodes) := by
  rw [combined, if_pos several]

theorem root_of_lt {default : Node} {nodes : List Node} (several : 1 < nodes.length) :
    root combine default nodes = root combine default (layer combine nodes) := by
  rw [root, if_pos several]

@[simp]
theorem root_singleton (default node : Node) : root combine default [node] = node := by
  rw [root]
  simp

theorem exists_pair_of_mem_layer {nodes : List Node} {node : Node}
    (membership : node ∈ layer combine nodes) :
    ∃ pair ∈ pairs nodes, node = combine pair.1 pair.2 := by
  rcases List.mem_map.mp membership with ⟨pair, pairIn, equality⟩
  exact ⟨pair, pairIn, equality.symm⟩

/-- The first component of a combined pair is a leaf or a combination. -/
theorem fst_of_mem_combined {nodes : List Node} {pair : Node × Node}
    (membership : pair ∈ combined combine nodes) :
    pair.1 ∈ nodes ∨ ∃ inner ∈ combined combine nodes, pair.1 = combine inner.1 inner.2 := by
  fun_induction combined combine nodes with
  | case1 nodes several inductionHypothesis =>
      rcases List.mem_append.mp membership with inPairs | deeper
      · exact Or.inl ((mem_iff_mem_pairs nodes pair.1).mpr ⟨pair, inPairs, Or.inl rfl⟩)
      · right
        rcases inductionHypothesis deeper with inLayer | ⟨inner, innerIn, equality⟩
        · rcases exists_pair_of_mem_layer combine inLayer with ⟨inner, innerIn, equality⟩
          exact ⟨inner, List.mem_append_left _ innerIn, equality⟩
        · exact ⟨inner, List.mem_append_right _ innerIn, equality⟩
  | case2 nodes single => simp at membership

/-- The root of a tree with two leaves or more is a combination. -/
theorem root_eq_combine (default : Node) {nodes : List Node} (several : 1 < nodes.length) :
    ∃ pair ∈ combined combine nodes, root combine default nodes = combine pair.1 pair.2 := by
  fun_induction root combine default nodes with
  | case1 nodes _ inductionHypothesis =>
      rw [combined_of_lt combine several]
      by_cases more : 1 < (layer combine nodes).length
      · rcases inductionHypothesis more with ⟨pair, pairIn, equality⟩
        exact ⟨pair, List.mem_append_right _ pairIn, equality⟩
      · have length := length_layer combine nodes
        obtain ⟨top, layerEq⟩ : ∃ top, layer combine nodes = [top] :=
          List.length_eq_one_iff.mp (by omega)
        rcases exists_pair_of_mem_layer combine (layerEq ▸ List.mem_singleton_self top) with
          ⟨pair, pairIn, equality⟩
        exact ⟨pair, List.mem_append_left _ pairIn, by rw [layerEq, root_singleton, equality]⟩
  | case2 nodes single => exact absurd several single

/-- The first node of a layer is the combination of a pair whose first
component is the first node below. -/
theorem head_layer {nodes : List Node} {top : Node}
    (head : (layer combine nodes).head? = some top) :
    ∃ pair ∈ pairs nodes, top = combine pair.1 pair.2 ∧ nodes.head? = some pair.1 := by
  cases nodes with
  | nil => simp [layer, pairs] at head
  | cons first rest =>
      cases rest with
      | nil => exact ⟨(first, first), by simp [pairs], by simpa [layer, pairs, eq_comm] using head⟩
      | cons second rest =>
          exact ⟨(first, second), by simp [pairs], by simpa [layer, pairs, eq_comm] using head⟩

/-- The combination takes distinct values on distinct pairs of the two trees. -/
def InjectiveOn (pairs : List (Node × Node)) : Prop :=
  ∀ left ∈ pairs, ∀ right ∈ pairs,
    combine left.1 left.2 = combine right.1 right.2 → left = right

variable {combine}

/-- A pair combined above the leaves starts with a combination. -/
theorem fst_of_mem_combined_layer {nodes : List Node} (several : 1 < nodes.length)
    {pair : Node × Node} (membership : pair ∈ combined combine (layer combine nodes)) :
    ∃ inner ∈ combined combine nodes, pair.1 = combine inner.1 inner.2 := by
  rw [combined_of_lt combine several]
  rcases fst_of_mem_combined combine membership with inLayer | ⟨inner, innerIn, equality⟩
  · rcases exists_pair_of_mem_layer combine inLayer with ⟨inner, innerIn, equality⟩
    exact ⟨inner, List.mem_append_left _ innerIn, equality⟩
  · exact ⟨inner, List.mem_append_right _ innerIn, equality⟩

/-- Equal layers as sets come from equal node sets. -/
theorem subset_of_layer_subset {all : List (Node × Node)} (injective : InjectiveOn combine all)
    {left right : List Node} (leftPairs : pairs left ⊆ all) (rightPairs : pairs right ⊆ all)
    (subset : layer combine left ⊆ layer combine right) : left ⊆ right := by
  intro node membership
  rcases (mem_iff_mem_pairs left node).mp membership with ⟨pair, pairIn, isComponent⟩
  have inLayer : combine pair.1 pair.2 ∈ layer combine right :=
    subset (List.mem_map.mpr ⟨pair, pairIn, rfl⟩)
  rcases exists_pair_of_mem_layer combine inLayer with ⟨other, otherIn, equality⟩
  have same : pair = other :=
    injective pair (leftPairs pairIn) other (rightPairs otherIn) equality
  exact (mem_iff_mem_pairs right node).mpr ⟨pair, same ▸ otherIn, isComponent⟩

/-- Lists of one length with the same layer are equal. -/
theorem eq_of_layer_eq {all : List (Node × Node)} (injective : InjectiveOn combine all)
    {left right : List Node} (lengths : left.length = right.length) (leftPairs : pairs left ⊆ all)
    (rightPairs : pairs right ⊆ all) (same : layer combine left = layer combine right) :
    left = right := by
  fun_induction pairs left generalizing right with
  | case1 => exact (List.length_eq_zero_iff.mp lengths.symm).symm
  | case2 last =>
      obtain ⟨other, rfl⟩ := List.length_eq_one_iff.mp lengths.symm
      have pair := injective (last, last) (leftPairs List.mem_cons_self) (other, other)
        (rightPairs List.mem_cons_self) (List.head_eq_of_cons_eq same)
      rw [(Prod.mk.inj pair).1]
  | case3 first second rest inductionHypothesis =>
      match right, lengths with
      | first' :: second' :: rest', lengths =>
          obtain ⟨pairIn, restIn⟩ := List.cons_subset.mp leftPairs
          obtain ⟨pairIn', restIn'⟩ := List.cons_subset.mp rightPairs
          obtain ⟨head, tail⟩ := List.cons_eq_cons.mp same
          obtain ⟨rfl, rfl⟩ := Prod.mk.inj (injective _ pairIn _ pairIn' head)
          rw [inductionHypothesis (by simpa using lengths) restIn restIn' tail]

/-- Going down the leftmost path, the first node of a layer determines the
first node below it. -/
theorem head_of_head_layer {all : List (Node × Node)} (injective : InjectiveOn combine all)
    {nodes : List Node} (nodePairs : pairs nodes ⊆ all) {pair : Node × Node} (pairIn : pair ∈ all)
    (head : (layer combine nodes).head? = some (combine pair.1 pair.2)) :
    nodes.head? = some pair.1 := by
  rcases head_layer combine head with ⟨first, firstIn, equality, headBelow⟩
  rw [injective pair pairIn first (nodePairs firstIn) equality]
  exact headBelow

/-- Trees with one root have the same set of leaves, unless the first leaf of
one of them is a combination made in one of the trees. -/
theorem leaves_iff_of_root_eq {all : List (Node × Node)} (injective : InjectiveOn combine all)
    {default : Node} {left right : List Node} (leftNonempty : left ≠ [])
    (rightNonempty : right ≠ []) (leftIn : combined combine left ⊆ all)
    (rightIn : combined combine right ⊆ all)
    (sameRoot : root combine default left = root combine default right) :
    (∀ node, node ∈ left ↔ node ∈ right) ∨
      ∃ pair, (pair ∈ combined combine left ∨ pair ∈ combined combine right) ∧
        (left.head? = some (combine pair.1 pair.2) ∨
          right.head? = some (combine pair.1 pair.2)) := by
  -- Both trees are peeled together; a tree that ends first has a combined first leaf.
  induction size : left.length using Nat.strongRecOn generalizing left right with
  | _ size inductionHypothesis =>
  have leftPositive := List.length_pos_iff.mpr leftNonempty
  have rightPositive := List.length_pos_iff.mpr rightNonempty
  by_cases leftSeveral : 1 < left.length
  · by_cases rightSeveral : 1 < right.length
    · have leftLength := length_layer combine left
      have rightLength := length_layer combine right
      have leftSplit := combined_of_lt combine leftSeveral
      have rightSplit := combined_of_lt combine rightSeveral
      have leftPairs : pairs left ⊆ all := fun pair pairIn =>
        leftIn (leftSplit ▸ List.mem_append_left _ pairIn)
      have rightPairs : pairs right ⊆ all := fun pair pairIn =>
        rightIn (rightSplit ▸ List.mem_append_left _ pairIn)
      have leftAbove : combined combine (layer combine left) ⊆ all := fun pair pairIn =>
        leftIn (leftSplit ▸ List.mem_append_right _ pairIn)
      have rightAbove : combined combine (layer combine right) ⊆ all := fun pair pairIn =>
        rightIn (rightSplit ▸ List.mem_append_right _ pairIn)
      rw [root_of_lt combine leftSeveral, root_of_lt combine rightSeveral] at sameRoot
      rcases inductionHypothesis (layer combine left).length (by omega)
        (List.length_pos_iff.mp (by omega)) (List.length_pos_iff.mp (by omega))
        leftAbove rightAbove sameRoot rfl with sameSet | ⟨pair, pairIn, heads⟩
      · refine Or.inl fun node => ⟨fun membership => ?_, fun membership => ?_⟩
        · exact subset_of_layer_subset injective leftPairs rightPairs
            (fun top => (sameSet top).mp) membership
        · exact subset_of_layer_subset injective rightPairs leftPairs
            (fun top => (sameSet top).mpr) membership
      · have below : ∃ inner, (inner ∈ combined combine left ∨ inner ∈ combined combine right) ∧
            pair.1 = combine inner.1 inner.2 := by
          rcases pairIn with inLeft | inRight
          · rcases fst_of_mem_combined_layer leftSeveral inLeft with ⟨inner, innerIn, equality⟩
            exact ⟨inner, Or.inl innerIn, equality⟩
          · rcases fst_of_mem_combined_layer rightSeveral inRight with ⟨inner, innerIn, equality⟩
            exact ⟨inner, Or.inr innerIn, equality⟩
        have pairInAll : pair ∈ all := pairIn.elim (fun inLeft => leftAbove inLeft)
          (fun inRight => rightAbove inRight)
        rcases below with ⟨inner, innerIn, equality⟩
        refine Or.inr ⟨inner, innerIn, heads.imp (fun head => ?_) (fun head => ?_)⟩
        · rw [head_of_head_layer injective leftPairs pairInAll head, equality]
        · rw [head_of_head_layer injective rightPairs pairInAll head, equality]
    · obtain ⟨leaf, rfl⟩ := List.length_eq_one_iff.mp (by omega : right.length = 1)
      rcases root_eq_combine combine default leftSeveral with ⟨pair, pairIn, equality⟩
      rw [root_singleton] at sameRoot
      exact Or.inr ⟨pair, Or.inl pairIn, Or.inr (by rw [← equality, sameRoot]; rfl)⟩
  · obtain ⟨leaf, rfl⟩ := List.length_eq_one_iff.mp (by omega : left.length = 1)
    rw [root_singleton] at sameRoot
    by_cases rightSeveral : 1 < right.length
    · rcases root_eq_combine combine default rightSeveral with ⟨pair, pairIn, equality⟩
      exact Or.inr ⟨pair, Or.inr pairIn, Or.inl (by rw [← equality, ← sameRoot]; rfl)⟩
    · obtain ⟨leaf', rfl⟩ := List.length_eq_one_iff.mp (by omega : right.length = 1)
      rw [root_singleton] at sameRoot
      exact Or.inl fun node => by rw [sameRoot]

/-- Trees of one size with one root have the same list of leaves. -/
theorem eq_of_root_eq {all : List (Node × Node)} (injective : InjectiveOn combine all)
    {default : Node} {left right : List Node} (lengths : left.length = right.length)
    (leftIn : combined combine left ⊆ all) (rightIn : combined combine right ⊆ all)
    (sameRoot : root combine default left = root combine default right) : left = right := by
  fun_induction root combine default left generalizing right with
  | case1 left several inductionHypothesis =>
      have several' : 1 < right.length := lengths ▸ several
      rw [root_of_lt combine several'] at sameRoot
      rw [combined_of_lt combine several, List.append_subset] at leftIn
      rw [combined_of_lt combine several', List.append_subset] at rightIn
      apply eq_of_layer_eq injective lengths leftIn.1 rightIn.1
      exact inductionHypothesis (by simp only [length_layer, lengths]) leftIn.2 rightIn.2 sameRoot
  | case2 left single =>
      rw [root, if_neg (lengths ▸ single)] at sameRoot
      match left, right, lengths with
      | [], [], _ => rfl
      | [leaf], [leaf'], _ => rw [show leaf = leaf' from sameRoot]
      | _ :: _ :: _, _, _ => simp at single

end Foundation.HashTree
