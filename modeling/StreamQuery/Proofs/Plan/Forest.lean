import Mathlib.Data.List.Nodup
import Mathlib.Data.List.Pairwise
import Mathlib.Order.Nat
import StreamQuery.Plan.Query
import StreamQuery.Proofs.Outcome

/-!
# Queries are forests

The operators of a query that declarations describe form a forest: every operator is the root of the
tree at its own place, reads only operators declared before it, and has at most one consumer. Hence
no two operators of one tree have the same place.
-/

namespace StreamQuery

namespace QueryTree

/-! ## Operators of a tree -/

/-- Induction from the sources down, without regard to the number of inputs. -/
theorem inputs_induction {motive : QueryTree → Prop}
    (step : ∀ tree : QueryTree, (∀ input ∈ tree.inputs, motive input) → motive tree)
    (tree : QueryTree) : motive tree := by
  induction tree with
  | source header => exact step _ (by simp [inputs])
  | single header logic input induction => exact step _ (by simpa [inputs] using induction)
  | join header logic left right left_induction right_induction =>
      exact step _ (by simpa [inputs] using ⟨left_induction, right_induction⟩)

theorem self_mem_postOrder (tree : QueryTree) : tree ∈ tree.postOrder := by
  cases tree <;> simp [postOrder]

theorem mem_postOrder_iff {operator tree : QueryTree} :
    operator ∈ tree.postOrder ↔
      operator = tree ∨ ∃ input ∈ tree.inputs, operator ∈ input.postOrder := by
  cases tree with
  | source header => simp [postOrder, inputs]
  | single header logic input => simp [postOrder, inputs, or_comm]
  | join header logic left right =>
      simp only [postOrder, inputs, List.mem_append, List.mem_cons, List.not_mem_nil, or_false,
        exists_eq_or_imp, exists_eq_left]
      tauto

theorem mem_postOrder_of_input {operator input tree : QueryTree} (is_input : input ∈ tree.inputs)
    (member : operator ∈ input.postOrder) : operator ∈ tree.postOrder :=
  mem_postOrder_iff.mpr (.inr ⟨input, is_input, member⟩)

/-- The operators that an operator gets its input from are all in its tree. -/
theorem postOrder_trans {operator middle : QueryTree} (tree : QueryTree)
    (inner : operator ∈ middle.postOrder) (outer : middle ∈ tree.postOrder) :
    operator ∈ tree.postOrder := by
  induction tree using inputs_induction with
  | step tree induction =>
      obtain rfl | ⟨input, is_input, member⟩ := mem_postOrder_iff.mp outer
      · exact inner
      · exact mem_postOrder_of_input is_input (induction input is_input member)

theorem input_mem_postOrder {operator input tree : QueryTree} (member : operator ∈ tree.postOrder)
    (is_input : input ∈ operator.inputs) : input ∈ tree.postOrder :=
  postOrder_trans tree (mem_postOrder_of_input is_input input.self_mem_postOrder) member

/-- Every operator of a tree but the root is read by another one. -/
theorem exists_consumer {operator : QueryTree} (tree : QueryTree)
    (member : operator ∈ tree.postOrder) (below : operator ≠ tree) :
    ∃ consumer ∈ tree.postOrder, operator ∈ consumer.inputs := by
  induction tree using inputs_induction with
  | step tree induction =>
      obtain rfl | ⟨input, is_input, inside⟩ := mem_postOrder_iff.mp member
      · exact absurd rfl below
      · by_cases is_self : operator = input
        · exact ⟨tree, tree.self_mem_postOrder, is_self ▸ is_input⟩
        · obtain ⟨consumer, consumer_mem, reads⟩ := induction input is_input inside is_self
          exact ⟨consumer, mem_postOrder_of_input is_input consumer_mem, reads⟩

end QueryTree

/-! ## Linked operators -/

namespace OperatorDeclaration

theorem freeInput_eq_ok {trees : List QueryTree} {consumed : List Nat} {name : String}
    {tree : QueryTree} (found : freeInput trees consumed name = .ok tree) :
    tree ∈ trees ∧ tree.id ∉ consumed := by
  rw [freeInput] at found
  split at found
  · cases found
  · rename_i candidate search
    split at found
    · cases found
    · rename_i free
      cases found
      exact ⟨List.mem_of_find?_eq_some search, free⟩

/-- A linked operator has the next place, and reads operators that had no consumer, each once. -/
theorem link_spec {relations : List RelationDeclaration} {trees : List QueryTree} {name : String}
    {declaration : OperatorDeclaration} {tree : QueryTree}
    (linked : declaration.link relations trees name = .ok tree) :
    tree.id = trees.length ∧ (tree.inputs.map QueryTree.id).Nodup ∧
      ∀ input ∈ tree.inputs, input ∈ trees ∧ input.id ∉ consumed trees := by
  cases declaration with
  | stream schema =>
      obtain rfl := pure_eq_ok.mp linked
      simp [QueryTree.id, QueryTree.header, QueryTree.inputs]
  | select input condition =>
      obtain ⟨inputTree, found, linked⟩ := bind_eq_ok.mp linked
      obtain ⟨_, _, linked⟩ := bind_eq_ok.mp linked
      obtain rfl := pure_eq_ok.mp linked
      simpa [QueryTree.id, QueryTree.header, QueryTree.inputs] using freeInput_eq_ok found
  | project input names =>
      obtain ⟨inputTree, found, linked⟩ := bind_eq_ok.mp linked
      obtain ⟨indices, _, linked⟩ := bind_eq_ok.mp linked
      obtain rfl := pure_eq_ok.mp linked
      simpa [QueryTree.id, QueryTree.header, QueryTree.inputs] using freeInput_eq_ok found
  | combine input relationName condition =>
      obtain ⟨inputTree, found, linked⟩ := bind_eq_ok.mp linked
      obtain ⟨⟨reference, relation⟩, _, linked⟩ := bind_eq_ok.mp linked
      obtain ⟨_, _, linked⟩ := bind_eq_ok.mp linked
      obtain rfl := pure_eq_ok.mp linked
      simpa [QueryTree.id, QueryTree.header, QueryTree.inputs] using freeInput_eq_ok found
  | join left leftWindow right rightWindow condition =>
      obtain ⟨leftTree, left_found, linked⟩ := bind_eq_ok.mp linked
      obtain ⟨rightTree, right_found, linked⟩ := bind_eq_ok.mp linked
      obtain ⟨_, _, linked⟩ := bind_eq_ok.mp linked
      obtain rfl := pure_eq_ok.mp linked
      obtain ⟨left_mem, left_free⟩ := freeInput_eq_ok left_found
      obtain ⟨right_mem, right_free⟩ := freeInput_eq_ok right_found
      rw [List.mem_cons, not_or] at right_free
      refine ⟨rfl, ?_, ?_⟩
      · simpa [QueryTree.inputs] using Ne.symm right_free.1
      · simpa [QueryTree.inputs] using ⟨⟨left_mem, left_free⟩, right_mem, right_free.2⟩
  | mean input attributeName window =>
      obtain ⟨inputTree, found, linked⟩ := bind_eq_ok.mp linked
      obtain ⟨index, _, linked⟩ := bind_eq_ok.mp linked
      split at linked
      · obtain rfl := pure_eq_ok.mp linked
        simpa [QueryTree.id, QueryTree.header, QueryTree.inputs] using freeInput_eq_ok found
      · cases linked
  | elect input window =>
      obtain ⟨inputTree, found, linked⟩ := bind_eq_ok.mp linked
      obtain rfl := pure_eq_ok.mp linked
      simpa [QueryTree.id, QueryTree.header, QueryTree.inputs] using freeInput_eq_ok found

end OperatorDeclaration

namespace Query

/-- Every operator of a query was linked to operators declared before it. -/
def IsLinked (query : Query) : Prop :=
  ∀ place tree, query.trees[place]? = some tree →
    ∃ name declaration,
      OperatorDeclaration.link query.relations (query.trees.take place) name declaration = .ok tree

theorem isLinked_addOperator {query extended : Query} {name : String}
    {declaration : OperatorDeclaration} (linked : query.IsLinked)
    (added : query.addOperator name declaration = .ok extended) :
    extended.relations = query.relations ∧ extended.IsLinked := by
  rw [addOperator] at added
  split at added
  · cases added
  · obtain ⟨tree, link, added⟩ := bind_eq_ok.mp added
    obtain rfl := pure_eq_ok.mp added
    refine ⟨rfl, fun place found found_eq => ?_⟩
    rcases Nat.lt_trichotomy place query.trees.length with earlier | rfl | later
    · have found_eq : query.trees[place]? = some found := by
        simpa [List.getElem?_append_left earlier] using found_eq
      have take_eq : (query.trees ++ [tree]).take place = query.trees.take place :=
        List.take_append_of_le_length (Nat.le_of_lt earlier)
      simpa [take_eq] using linked place found found_eq
    · obtain rfl : tree = found := by simpa using found_eq
      exact ⟨name, declaration, by simpa using link⟩
    · have short : (query.trees ++ [tree]).length ≤ place := by
        simpa using Nat.succ_le_of_lt later
      rw [List.getElem?_eq_none short] at found_eq
      cases found_eq

theorem isLinked_foldlM {operators : List (String × OperatorDeclaration)}
    {query extended : Query} (linked : query.IsLinked)
    (folded : operators.foldlM (fun query (name, declaration) => query.addOperator name declaration)
      query = .ok extended) :
    extended.relations = query.relations ∧ extended.IsLinked := by
  induction operators generalizing query with
  | nil =>
      obtain rfl := pure_eq_ok.mp folded
      exact ⟨rfl, linked⟩
  | cons operator operators induction =>
      obtain ⟨next, added, folded⟩ := bind_eq_ok.mp folded
      obtain ⟨relations_eq, next_linked⟩ := isLinked_addOperator linked added
      obtain ⟨final_eq, final_linked⟩ := induction next_linked folded
      exact ⟨final_eq.trans relations_eq, final_linked⟩

/-- The relations of a query are the declared ones, and its operators are linked. -/
theorem isLinked_of_declarations {declarations : List Declaration} {query : Query}
    (built : Query.ofDeclarations declarations = .ok query) :
    query.relations = declaredRelations declarations ∧ query.IsLinked := by
  simp only [ofDeclarations] at built
  split at built
  · cases built
  · split at built
    · cases built
    · have linked : IsLinked { relations := declaredRelations declarations, trees := [] } :=
        fun place tree found => by simp at found
      exact isLinked_foldlM linked built

end Query

/-! ## Forests -/

/-- Trees by place: each reads trees from earlier places, and none is read twice. -/
structure IsForest (trees : List QueryTree) : Prop where
  /-- The root of a tree stands at the place of the tree. -/
  id_eq : ∀ place (tree : QueryTree), trees[place]? = some tree → tree.id = place
  /-- The inputs of a tree come before it. -/
  input_mem : ∀ tree ∈ trees, ∀ input ∈ tree.inputs, input ∈ trees ∧ input.id < tree.id
  /-- An operator has at most one consumer. -/
  consumed_nodup : (OperatorDeclaration.consumed trees).Nodup

namespace IsForest

theorem nil : IsForest [] where
  id_eq := by simp
  input_mem := by simp
  consumed_nodup := by simp [OperatorDeclaration.consumed]

theorem id_lt {trees : List QueryTree} (forest : IsForest trees) {tree : QueryTree}
    (member : tree ∈ trees) : tree.id < trees.length := by
  obtain ⟨place, found⟩ := List.mem_iff_getElem?.mp member
  have place_lt : place < trees.length := (List.getElem?_eq_some_iff.mp found).1
  rwa [forest.id_eq place tree found]

theorem getElem?_id {trees : List QueryTree} (forest : IsForest trees) {tree : QueryTree}
    (member : tree ∈ trees) : trees[tree.id]? = some tree := by
  obtain ⟨place, found⟩ := List.mem_iff_getElem?.mp member
  rwa [forest.id_eq place tree found]

theorem eq_of_id_eq {trees : List QueryTree} (forest : IsForest trees) {first second : QueryTree}
    (first_mem : first ∈ trees) (second_mem : second ∈ trees) (same : first.id = second.id) :
    first = second := by
  have first_at := forest.getElem?_id first_mem
  rw [same, forest.getElem?_id second_mem] at first_at
  exact (Option.some.inj first_at).symm

/-- A linked operator extends the forest. -/
theorem append {trees : List QueryTree} (forest : IsForest trees)
    {relations : List RelationDeclaration} {name : String} {declaration : OperatorDeclaration}
    {tree : QueryTree} (linked : declaration.link relations trees name = .ok tree) :
    IsForest (trees ++ [tree]) := by
  obtain ⟨id_eq, inputs_nodup, inputs_free⟩ := OperatorDeclaration.link_spec linked
  refine ⟨fun place found found_eq => ?_, fun consumer consumer_mem input is_input => ?_, ?_⟩
  · rcases Nat.lt_or_ge place trees.length with earlier | later
    · exact forest.id_eq place found (by simpa [List.getElem?_append_left earlier] using found_eq)
    · obtain ⟨rfl, rfl⟩ : place = trees.length ∧ tree = found := by
        rw [List.getElem?_append_right later, List.getElem?_singleton] at found_eq
        split at found_eq
        · exact ⟨by omega, Option.some.inj found_eq⟩
        · cases found_eq
      exact id_eq
  · rw [List.mem_append, List.mem_singleton] at consumer_mem ⊢
    rcases consumer_mem with old | rfl
    · obtain ⟨input_mem, input_lt⟩ := forest.input_mem consumer old input is_input
      exact ⟨.inl input_mem, input_lt⟩
    · have input_mem := (inputs_free input is_input).1
      exact ⟨.inl input_mem, id_eq ▸ forest.id_lt input_mem⟩
  · have consumed_eq : OperatorDeclaration.consumed (trees ++ [tree]) =
        OperatorDeclaration.consumed trees ++ tree.inputs.map QueryTree.id := by
      simp [OperatorDeclaration.consumed]
    rw [consumed_eq, List.nodup_append]
    refine ⟨forest.consumed_nodup, inputs_nodup, fun consumed consumed_mem id id_mem same => ?_⟩
    obtain ⟨input, is_input, rfl⟩ := List.mem_map.mp id_mem
    exact (inputs_free input is_input).2 (same ▸ consumed_mem)

theorem of_isLinked {query : Query} (linked : query.IsLinked) : IsForest query.trees := by
  have build (count : Nat) : IsForest (query.trees.take count) := by
    induction count with
    | zero => simpa using nil
    | succ count induction =>
        cases found : query.trees[count]? with
        | none =>
            have short : query.trees.length ≤ count := List.getElem?_eq_none_iff.mp found
            rw [List.take_of_length_le (by omega)]
            rwa [List.take_of_length_le short] at induction
        | some tree =>
            obtain ⟨name, declaration, link⟩ := linked count tree found
            rw [List.take_add_one, found]
            exact induction.append link
  simpa using build query.trees.length

variable {trees : List QueryTree}

theorem mem_of_mem_postOrder (forest : IsForest trees) {tree operator : QueryTree}
    (member : tree ∈ trees) (inside : operator ∈ tree.postOrder) :
    operator ∈ trees ∧ operator.id ≤ tree.id := by
  induction tree using QueryTree.inputs_induction with
  | step tree induction =>
      obtain rfl | ⟨input, is_input, below⟩ := QueryTree.mem_postOrder_iff.mp inside
      · exact ⟨member, le_rfl⟩
      · obtain ⟨input_mem, input_lt⟩ := forest.input_mem tree member input is_input
        obtain ⟨operator_mem, operator_le⟩ := induction input is_input input_mem below
        exact ⟨operator_mem, operator_le.trans input_lt.le⟩

/-- An operator has one consumer. -/
theorem consumer_unique (forest : IsForest trees) {first second operator : QueryTree}
    (first_mem : first ∈ trees) (second_mem : second ∈ trees)
    (first_reads : operator ∈ first.inputs) (second_reads : operator ∈ second.inputs) :
    first = second := by
  by_contra different
  have apart := (List.nodup_flatMap.mp forest.consumed_nodup).2
  have : Std.Symm (Function.onFun List.Disjoint
      fun tree : QueryTree => tree.inputs.map QueryTree.id) :=
    ⟨fun _ _ disjoint _ in_second in_first => disjoint in_first in_second⟩
  exact apart.forall first_mem second_mem different (List.mem_map_of_mem first_reads)
    (List.mem_map_of_mem second_reads)

/-- An operator that reads a proper part of a tree belongs to the tree. -/
theorem mem_postOrder_of_input_mem (forest : IsForest trees) {tree consumer input : QueryTree}
    (member : tree ∈ trees) (consumer_mem : consumer ∈ trees) (is_input : input ∈ consumer.inputs)
    (inside : input ∈ tree.postOrder) (proper : input ≠ tree) : consumer ∈ tree.postOrder := by
  obtain ⟨other, other_inside, reads⟩ := QueryTree.exists_consumer tree inside proper
  have other_mem := (forest.mem_of_mem_postOrder member other_inside).1
  rwa [forest.consumer_unique consumer_mem other_mem is_input reads]

/-- No operator of a tree reads its root. -/
theorem input_ne_root (forest : IsForest trees) {tree operator input : QueryTree}
    (member : tree ∈ trees) (inside : operator ∈ tree.postOrder)
    (is_input : input ∈ operator.inputs) : input ≠ tree := by
  rintro rfl
  obtain ⟨operator_mem, operator_le⟩ := forest.mem_of_mem_postOrder member inside
  exact absurd (forest.input_mem operator operator_mem input is_input).2 (by omega)

/-- A join reads two different operators. -/
theorem left_id_ne_right_id (forest : IsForest trees) {header : OperatorHeader} {logic : JoinLogic}
    {left right : QueryTree} (member : .join header logic left right ∈ trees) :
    left.id ≠ right.id := by
  have nodup := (List.nodup_flatMap.mp forest.consumed_nodup).1 _ member
  simpa [QueryTree.inputs] using nodup

/-- The inputs of a join share no operator: the operator nearest to the join that they shared would
have two consumers. -/
theorem disjoint_postOrder (forest : IsForest trees) {tree left right : QueryTree}
    (member : tree ∈ trees) (left_input : left ∈ tree.inputs) (right_input : right ∈ tree.inputs)
    (different : left.id ≠ right.id) {operator : QueryTree}
    (in_left : operator ∈ left.postOrder) : operator ∉ right.postOrder := by
  obtain ⟨left_mem, left_lt⟩ := forest.input_mem tree member left left_input
  obtain ⟨right_mem, right_lt⟩ := forest.input_mem tree member right right_input
  -- Downward induction on the place: the consumer of a shared operator is shared, too.
  have climb (gap : Nat) : ∀ operator : QueryTree, tree.id - operator.id = gap →
      operator ∈ left.postOrder → operator ∉ right.postOrder := by
    induction gap using Nat.strongRecOn with
    | _ gap induction =>
        intro operator gap_eq in_left in_right
        have mem_of {input consumer : QueryTree} (input_mem : input ∈ trees)
            (inside : consumer ∈ input.postOrder) := forest.mem_of_mem_postOrder input_mem inside
        by_cases is_left : operator = left
        · subst is_left
          obtain ⟨consumer, consumer_in, reads⟩ := QueryTree.exists_consumer right in_right
            fun same => different (congrArg QueryTree.id same)
          obtain ⟨consumer_mem, consumer_le⟩ := mem_of right_mem consumer_in
          obtain rfl := forest.consumer_unique member consumer_mem left_input reads
          omega
        · by_cases is_right : operator = right
          · subst is_right
            obtain ⟨consumer, consumer_in, reads⟩ := QueryTree.exists_consumer left in_left is_left
            obtain ⟨consumer_mem, consumer_le⟩ := mem_of left_mem consumer_in
            obtain rfl := forest.consumer_unique member consumer_mem right_input reads
            omega
          · obtain ⟨first, first_in, first_reads⟩ :=
              QueryTree.exists_consumer left in_left is_left
            obtain ⟨second, second_in, second_reads⟩ :=
              QueryTree.exists_consumer right in_right is_right
            obtain ⟨first_mem, first_le⟩ := mem_of left_mem first_in
            obtain ⟨second_mem, _⟩ := mem_of right_mem second_in
            obtain rfl := forest.consumer_unique first_mem second_mem first_reads second_reads
            have operator_lt := (forest.input_mem first first_mem operator first_reads).2
            exact induction (tree.id - first.id) (by omega) first rfl first_in second_in
  exact climb _ operator rfl in_left

/-- The operators of a tree have different places. -/
theorem postOrder_ids_nodup (forest : IsForest trees) {tree : QueryTree} (member : tree ∈ trees) :
    (tree.postOrder.map QueryTree.id).Nodup := by
  have below {tree input operator : QueryTree} (tree_mem : tree ∈ trees)
      (is_input : input ∈ tree.inputs) (inside : operator ∈ input.postOrder) :
      operator.id < tree.id := by
    obtain ⟨input_mem, input_lt⟩ := forest.input_mem tree tree_mem input is_input
    exact (forest.mem_of_mem_postOrder input_mem inside).2.trans_lt input_lt
  induction tree with
  | source header => simp [QueryTree.postOrder]
  | single header logic input induction =>
      have is_input : input ∈ (QueryTree.single header logic input).inputs := by
        simp [QueryTree.inputs]
      rw [QueryTree.postOrder, List.map_append, List.nodup_append]
      refine ⟨induction (forest.input_mem _ member _ is_input).1, by simp, ?_⟩
      intro id id_mem last last_mem
      obtain ⟨operator, inside, rfl⟩ := List.mem_map.mp id_mem
      obtain rfl := by simpa using last_mem
      exact (below member is_input inside).ne
  | join header logic left right left_induction right_induction =>
      have left_input : left ∈ (QueryTree.join header logic left right).inputs := by
        simp [QueryTree.inputs]
      have right_input : right ∈ (QueryTree.join header logic left right).inputs := by
        simp [QueryTree.inputs]
      obtain ⟨left_mem, _⟩ := forest.input_mem _ member _ left_input
      obtain ⟨right_mem, _⟩ := forest.input_mem _ member _ right_input
      have different := forest.left_id_ne_right_id member
      rw [QueryTree.postOrder, List.map_append, List.map_append, List.nodup_append,
        List.nodup_append]
      refine ⟨⟨left_induction left_mem, right_induction right_mem, ?_⟩, by simp, ?_⟩
      · intro id id_mem other other_mem same
        obtain ⟨operator, inside, rfl⟩ := List.mem_map.mp id_mem
        obtain ⟨twin, twin_inside, rfl⟩ := List.mem_map.mp other_mem
        obtain rfl := forest.eq_of_id_eq (forest.mem_of_mem_postOrder left_mem inside).1
          (forest.mem_of_mem_postOrder right_mem twin_inside).1 same
        exact forest.disjoint_postOrder member left_input right_input different inside twin_inside
      · intro id id_mem last last_mem
        obtain rfl := by simpa using last_mem
        rw [List.mem_append, List.mem_map, List.mem_map] at id_mem
        rcases id_mem with ⟨operator, inside, rfl⟩ | ⟨operator, inside, rfl⟩
        · exact (below member left_input inside).ne
        · exact (below member right_input inside).ne

end IsForest

end StreamQuery
