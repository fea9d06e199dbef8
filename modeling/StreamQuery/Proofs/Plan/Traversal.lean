import Mathlib.Logic.Relation
import StreamQuery.Plan.Traversal
import StreamQuery.Proofs.Engine.Deployment
import StreamQuery.Proofs.Plan.Forest

/-!
# Traversals of forests

The operators of a query form a forest, so a traversal from any of its operators comes to an end. It
visits what the operator gets its input from, and nothing else, in the order of the tree of the
operator.
-/

namespace StreamQuery

theorem QueryTree.postOrder_eq (tree : QueryTree) :
    tree.postOrder = tree.inputs.flatMap postOrder ++ [tree] := by
  cases tree <;> simp [postOrder, inputs]

/-- A tree is visited together with all of its parts, in the order in which they would be visited.
-/
theorem QueryTree.postOrder_sublist {operator : QueryTree} (tree : QueryTree)
    (inside : operator ∈ tree.postOrder) : operator.postOrder.Sublist tree.postOrder := by
  induction tree using inputs_induction with
  | step tree induction =>
      obtain rfl | ⟨input, is_input, below⟩ := mem_postOrder_iff.mp inside
      · exact .refl _
      · rw [tree.postOrder_eq]
        exact ((induction input is_input below).trans
          (List.sublist_flatten_of_mem (List.mem_map_of_mem is_input))).trans
            (List.sublist_append_left _ _)

namespace Traversal

variable {trees : List QueryTree} {tree : QueryTree}

/-- Nothing is left on the stack once operators at these places have been visited, in this order. A
traversal that goes on forever does not end with any order. -/
def EndsWith (trees : List QueryTree) (traversal : Traversal) (order : List Nat) : Prop :=
  ∃ count, traversal.steps trees count = { order, stack := [] }

/-- A traversal with an empty stack is at its end. -/
theorem endsWith_of_nil {order other : List Nat} :
    EndsWith trees { order, stack := [] } other ↔ order = other := by
  have stays (count : Nat) : steps trees count { order, stack := [] } = { order, stack := [] } := by
    induction count with
    | zero => rfl
    | succ count induction => exact induction
  simp [EndsWith, stays]

/-- A traversal comes to the same end after a step as before it. -/
theorem endsWith_step {traversal : Traversal} {order : List Nat} :
    EndsWith trees (traversal.step trees) order ↔ EndsWith trees traversal order := by
  refine ⟨fun ⟨count, ended⟩ => ⟨count + 1, ended⟩, fun ⟨count, ended⟩ => ?_⟩
  cases count with
  | zero =>
      obtain rfl : traversal = { order, stack := [] } := ended
      exact ⟨0, rfl⟩
  | succ count => exact ⟨count, ended⟩

theorem step_of_new (found : trees[tree.id]? = some tree) (order : List Nat)
    (stack : List (Nat × Bool)) :
    step trees { order, stack := (tree.id, false) :: stack } =
      { order, stack := tree.inputs.map (·.id, false) ++ (tree.id, true) :: stack } := by
  simp [step, found]

theorem step_of_expanded (found : trees[tree.id]? = some tree) (order : List Nat)
    (stack : List (Nat × Bool)) :
    step trees { order, stack := (tree.id, true) :: stack } =
      { order := order ++ [tree.id], stack } := by
  simp [step, found]

/-- A tree of a forest is visited from its sources to its root before the traversal goes on. -/
theorem endsWith_tree (forest : IsForest trees) (member : tree ∈ trees) (order : List Nat)
    (stack : List (Nat × Bool)) {last : List Nat} :
    EndsWith trees { order, stack := (tree.id, false) :: stack } last ↔
      EndsWith trees { order := order ++ tree.postOrder.map QueryTree.id, stack } last := by
  induction tree using QueryTree.inputs_induction generalizing order stack with
  | step tree induction =>
      have ends_inputs (inputs : List QueryTree)
          (are_inputs : ∀ input ∈ inputs, input ∈ tree.inputs) (order : List Nat)
          (stack : List (Nat × Bool)) :
          EndsWith trees { order, stack := inputs.map (·.id, false) ++ stack } last ↔
            EndsWith trees
              { order := order ++ (inputs.flatMap QueryTree.postOrder).map QueryTree.id, stack }
              last := by
        induction inputs generalizing order with
        | nil => simp
        | cons input inputs list_induction =>
            have is_input := are_inputs input List.mem_cons_self
            rw [List.map_cons, List.cons_append,
              induction input is_input (forest.input_mem tree member input is_input).1,
              list_induction fun other inside => are_inputs other (List.mem_cons_of_mem _ inside)]
            simp
      have found := forest.getElem?_id member
      rw [← endsWith_step, step_of_new found, ends_inputs _ fun _ is_input => is_input,
        ← endsWith_step, step_of_expanded found]
      simp [tree.postOrder_eq]

end Traversal

/-! ## Upstream operators -/

namespace Query

/-- The operator at one place reads the one at another place. -/
def Reads (query : Query) (consumer input : Nat) : Prop :=
  ∃ tree, query.trees[consumer]? = some tree ∧ input ∈ tree.inputs.map QueryTree.id

/-- The operator at one place gets input from the one at another place, perhaps through others. -/
def IsUpstream (query : Query) (consumer operator : Nat) : Prop :=
  Relation.TransGen query.Reads consumer operator

variable {query : Query} {tree : QueryTree}

theorem reads_of_input (forest : IsForest query.trees) (member : tree ∈ query.trees)
    {input : QueryTree} (is_input : input ∈ tree.inputs) : query.Reads tree.id input.id :=
  ⟨tree, forest.getElem?_id member, List.mem_map_of_mem is_input⟩

theorem reads_iff (forest : IsForest query.trees) (member : tree ∈ query.trees) {id : Nat} :
    query.Reads tree.id id ↔ ∃ input ∈ tree.inputs, input.id = id := by
  rw [Reads, forest.getElem?_id member]
  simp

/-- A traversal of the operators under a root ends with an order of their places. -/
def Visits (query : Query) (root : Nat) (order : List Nat) : Prop :=
  (Traversal.start root).EndsWith query.trees order

/-- A tree has its root and all operators upstream of it. -/
theorem mem_postOrder_ids_iff (forest : IsForest query.trees) (member : tree ∈ query.trees)
    {id : Nat} :
    id ∈ tree.postOrder.map QueryTree.id ↔ id = tree.id ∨ query.IsUpstream tree.id id := by
  induction tree using QueryTree.inputs_induction with
  | step tree induction =>
      have below (input : QueryTree) (is_input : input ∈ tree.inputs) :
          id ∈ input.postOrder.map QueryTree.id ↔
            Relation.ReflTransGen query.Reads input.id id := by
        rw [Relation.reflTransGen_iff_eq_or_transGen]
        exact induction input is_input (forest.input_mem tree member input is_input).1
      rw [tree.postOrder_eq, List.map_append, List.map_flatMap, List.mem_append, List.mem_flatMap,
        IsUpstream, Relation.TransGen.head'_iff, or_comm]
      refine or_congr (by simp) ⟨?_, ?_⟩
      · rintro ⟨input, is_input, inside⟩
        exact ⟨input.id, reads_of_input forest member is_input, (below input is_input).mp inside⟩
      · rintro ⟨place, reads, upstream⟩
        obtain ⟨input, is_input, rfl⟩ := (reads_iff forest member).mp reads
        exact ⟨input, is_input, (below input is_input).mpr upstream⟩

/-- Places in the order in which the operators under a root are visited. -/
structure IsUpstreamFirst (query : Query) (root : Nat) (order : List Nat) : Prop where
  /-- No operator is visited twice. -/
  nodup : order.Nodup
  /-- The root and all operators upstream of it are visited, and no others. -/
  mem_iff : ∀ id, id ∈ order ↔ id = root ∨ query.IsUpstream root id
  /-- An operator is visited after its inputs. -/
  inputs_first : ∀ consumer ∈ order, ∀ input, query.Reads consumer input →
    [input, consumer].Sublist order
  /-- All that a join gets from the left is visited before what it gets from the right. -/
  left_first : ∀ header logic left right, .join header logic left right ∈ query.trees →
    header.id ∈ order → ∀ first second, (first = left.id ∨ query.IsUpstream left.id first) →
      (second = right.id ∨ query.IsUpstream right.id second) → [first, second].Sublist order
  /-- The root is visited last. -/
  root_last : order.getLast? = some root

/-- The places of a tree of a forest are in the right order. -/
theorem isUpstreamFirst_postOrder (forest : IsForest query.trees) (member : tree ∈ query.trees) :
    query.IsUpstreamFirst tree.id (tree.postOrder.map QueryTree.id) where
  nodup := forest.postOrder_ids_nodup member
  mem_iff _ := mem_postOrder_ids_iff forest member
  inputs_first consumer visited input reads := by
    obtain ⟨operator, inside, rfl⟩ := List.mem_map.mp visited
    have operator_mem := (forest.mem_of_mem_postOrder member inside).1
    obtain ⟨inputTree, is_input, rfl⟩ := (reads_iff forest operator_mem).mp reads
    refine List.Sublist.trans ?_ ((QueryTree.postOrder_sublist tree inside).map QueryTree.id)
    rw [operator.postOrder_eq, List.map_append]
    refine (List.singleton_sublist.mpr (List.mem_map_of_mem ?_)).append (.refl _)
    exact List.mem_flatMap.mpr ⟨inputTree, is_input, inputTree.self_mem_postOrder⟩
  left_first header logic left right join_mem visited first second in_left in_right := by
    obtain ⟨operator, inside, same⟩ := List.mem_map.mp visited
    obtain rfl : operator = .join header logic left right :=
      forest.eq_of_id_eq (forest.mem_of_mem_postOrder member inside).1 join_mem same
    have left_mem := (forest.input_mem _ join_mem left List.mem_cons_self).1
    have right_mem :=
      (forest.input_mem _ join_mem right (List.mem_cons_of_mem _ List.mem_cons_self)).1
    refine List.Sublist.trans ?_ ((QueryTree.postOrder_sublist tree inside).map QueryTree.id)
    rw [QueryTree.postOrder, List.map_append, List.map_append]
    refine .trans ?_ (List.sublist_append_left _ _)
    exact (List.singleton_sublist.mpr ((mem_postOrder_ids_iff forest left_mem).mpr in_left)).append
      (List.singleton_sublist.mpr ((mem_postOrder_ids_iff forest right_mem).mpr in_right))
  root_last := by simp [tree.postOrder_eq]

/-- The operators of a query that declarations describe form a forest, and a traversal from any of
them ends, in one order only. It visits the root and the operators upstream of it once each, inputs
first and left before right; it is these that the tree of the root contains. -/
theorem traversal_is_upstream_first {declarations : List Declaration} {query : Query}
    (built : Query.ofDeclarations declarations = .ok query) :
    IsForest query.trees ∧
      ∀ root ∈ query.trees, ∃ order, (∀ other, query.Visits root.id other ↔ order = other) ∧
        order = root.postOrder.map QueryTree.id ∧ query.IsUpstreamFirst root.id order ∧
        ∀ id, root.contains id = true ↔ id = root.id ∨ query.IsUpstream root.id id := by
  have forest := IsForest.of_isLinked (isLinked_of_declarations built).2
  refine ⟨forest, fun root member => ⟨_, fun other => ?_, rfl,
    isUpstreamFirst_postOrder forest member, fun id => ?_⟩⟩
  · rw [Visits, Traversal.start, Traversal.endsWith_tree forest member, Traversal.endsWith_of_nil]
    rfl
  · rw [← mem_postOrder_ids_iff forest member]
    simp [QueryTree.contains]

/-- Sales are selected and join offers, which are declared before them. -/
def matchedDeclarations : List Declaration :=
  [.operator "offers" (.stream goodsSchema), .operator "sales" (.stream goodsSchema),
    .operator "sold" (.select "sales" .always),
    .operator "matched" (.join "sold" (.rows 1 1) "offers" (.rows 1 1) .always)]

/-- The query that is declared. -/
def matchedQuery : Query :=
  (Query.ofDeclarations matchedDeclarations).toOption.get (by decide)

/-- The left input of the join is visited first, although it is declared last. -/
theorem matchedQuery_traversal :
    Query.ofDeclarations matchedDeclarations = .ok matchedQuery ∧
      matchedQuery.Visits 3 [1, 2, 0, 3] ∧ matchedQuery.IsUpstreamFirst 3 [1, 2, 0, 3] := by
  have built : Query.ofDeclarations matchedDeclarations = .ok matchedQuery := rfl
  have member : (matchedQuery.find? "matched").get (by decide) ∈ matchedQuery.trees :=
    List.mem_of_find?_eq_some (Option.some_get _).symm
  obtain ⟨order, visits_iff, order_eq, upstream_first, _⟩ :=
    (traversal_is_upstream_first built).2 _ member
  obtain rfl : order = [1, 2, 0, 3] := order_eq
  exact ⟨built, (visits_iff _).mpr rfl, upstream_first⟩

end Query

end StreamQuery
