import StreamQuery.Proofs.Plan.CommitChoice

/-!
# Redo areas are closed

What starts over is closed under what it depends on: every operator on the way from a read to the
commit operator starts over, and each of its inputs starts over as well or is delivered again by an
operator without reads. Operators start over once, and after those that they get input from.
-/

namespace StreamQuery

namespace RedoArea

/-- An area of a tree from which what was read for a commit operator is computed again. -/
structure Restores (area : RedoArea) (tree commit : QueryTree) : Prop where
  /-- Whatever lies between a read and the commit operator starts over. -/
  path : ∀ operator ∈ commit.postOrder,
    (∃ reader ∈ operator.postOrder, reader.readsRelation = true) → operator.id ∈ area.operators
  /-- Nothing outside the tree starts over. -/
  inside : ∀ id ∈ area.operators, ∃ operator ∈ tree.postOrder, operator.id = id
  /-- What starts over gets all of its input again. -/
  inputs : ∀ operator ∈ tree.postOrder, operator.id ∈ area.operators → ∀ input ∈ operator.inputs,
    input.id ∈ area.operators ∨ input.id ∈ area.streams
  /-- What is delivered again goes to an operator that starts over, and comes from one that does
  not and that has no reads. -/
  streams : ∀ id ∈ area.streams, ∃ operator ∈ tree.postOrder, operator.id ∈ area.operators ∧
    ∃ input ∈ operator.inputs, input.id = id ∧ id ∉ area.operators ∧
      ∀ reader ∈ input.postOrder, reader.readsRelation = false
  /-- An operator starts over once. -/
  operators_nodup : area.operators.Nodup
  /-- An output is delivered again once. -/
  streams_nodup : area.streams.Nodup
  /-- Operators start over after those that they get input from. -/
  order : ∀ operator ∈ tree.postOrder, ∀ below ∈ operator.postOrder, below ≠ operator →
    operator.id ∈ area.operators → below.id ∈ area.operators →
    area.operators.idxOf below.id < area.operators.idxOf operator.id

/-! ## Order -/

/-- Operators start over in the order in which they are evaluated. -/
theorem visit_operators_sublist (belowWindow : Bool) (tree : QueryTree) :
    (visit belowWindow tree).1.operators.Sublist (tree.postOrder.map QueryTree.id) := by
  have root {condition : Prop} [Decidable condition] (id : Nat) :
      (if condition then [id] else []).Sublist [id] := by
    split
    · exact .refl _
    · exact List.nil_sublist _
  induction tree generalizing belowWindow with
  | source header => exact List.nil_sublist _
  | single header logic input induction =>
      rw [visit, QueryTree.postOrder, List.map_append]
      exact (induction _).append (root _)
  | join header logic left right left_induction right_induction =>
      rw [visit, QueryTree.postOrder, List.map_append, List.map_append]
      exact ((left_induction true).append (right_induction true)).append (root _)

/-- Outputs are delivered again in the order in which they are consumed. -/
theorem visit_streams_sublist (belowWindow : Bool) (tree : QueryTree) :
    (visit belowWindow tree).1.streams.Sublist (OperatorDeclaration.consumed tree.postOrder) := by
  induction tree generalizing belowWindow with
  | source header => exact List.nil_sublist _
  | single header logic input induction =>
      rw [visit, QueryTree.postOrder, OperatorDeclaration.consumed, List.flatMap_append]
      refine (induction _).append ?_
      dsimp only
      split
      · exact .refl _
      · exact List.nil_sublist _
  | join header logic left right left_induction right_induction =>
      rw [visit, QueryTree.postOrder, OperatorDeclaration.consumed, List.flatMap_append,
        List.flatMap_append]
      refine ((left_induction true).append (right_induction true)).append ?_
      dsimp only
      split
      · exact List.sublist_cons_self _ _
      · exact List.Sublist.cons_cons _ (List.nil_sublist _)
      · exact List.nil_sublist _

end RedoArea

/-- No output is consumed twice in a tree. -/
theorem IsForest.consumed_postOrder_nodup {trees : List QueryTree} (forest : IsForest trees)
    {tree : QueryTree} (member : tree ∈ trees) :
    (OperatorDeclaration.consumed tree.postOrder).Nodup := by
  have mem_trees {operator : QueryTree} (inside : operator ∈ tree.postOrder) : operator ∈ trees :=
    (forest.mem_of_mem_postOrder member inside).1
  have different : tree.postOrder.Nodup := (forest.postOrder_ids_nodup member).of_map _
  rw [OperatorDeclaration.consumed, List.nodup_flatMap]
  refine ⟨fun operator inside =>
    (List.nodup_flatMap.mp forest.consumed_nodup).1 operator (mem_trees inside),
    List.Pairwise.imp_of_mem (fun first_mem second_mem apart => ?_) different⟩
  intro id of_first of_second
  obtain ⟨input, first_reads, rfl⟩ := List.mem_map.mp of_first
  obtain ⟨other, second_reads, same⟩ := List.mem_map.mp of_second
  have input_mem := (forest.input_mem _ (mem_trees first_mem) input first_reads).1
  have other_mem := (forest.input_mem _ (mem_trees second_mem) other second_reads).1
  obtain rfl := forest.eq_of_id_eq other_mem input_mem same
  exact apart (forest.consumer_unique (mem_trees first_mem) (mem_trees second_mem) first_reads
    second_reads)

namespace RedoArea

/-- If operators are listed in post order, each comes after those that it gets input from. -/
theorem idxOf_lt_of_sublist {tree operator below : QueryTree} {ids : List Nat}
    (ids_nodup : (tree.postOrder.map QueryTree.id).Nodup)
    (sublist : ids.Sublist (tree.postOrder.map QueryTree.id)) (member : operator ∈ tree.postOrder)
    (inside : below ∈ operator.postOrder) (different : below ≠ operator)
    (operator_listed : operator.id ∈ ids) (below_listed : below.id ∈ ids) :
    ids.idxOf below.id < ids.idxOf operator.id := by
  obtain ⟨earlier, later, order_eq⟩ := List.append_of_mem member
  have below_mem := QueryTree.mem_earlier_of_postOrder_eq order_eq inside different
  rw [order_eq, List.map_append] at ids_nodup sublist
  obtain ⟨first, second, rfl, first_sublist, second_sublist⟩ := List.sublist_append_iff.mp sublist
  have apart := (List.nodup_append.mp ids_nodup).2.2
  have operator_later : operator.id ∉ first := fun listed =>
    apart _ (first_sublist.subset listed) _ List.mem_cons_self rfl
  have below_earlier : below.id ∈ first := (List.mem_append.mp below_listed).resolve_right
    fun listed => apart _ (List.mem_map_of_mem below_mem) _ (second_sublist.subset listed) rfl
  rw [List.idxOf_append_of_mem below_earlier, List.idxOf_append_of_notMem operator_later]
  exact (List.idxOf_lt_length_of_mem below_earlier).trans_le (Nat.le_add_right _ _)

end RedoArea

/-- Whatever operators a query consists of, the redo area of each of its trees restores what was
read for the commit operator. -/
theorem redoArea_restores {declarations : List Declaration} {query : Query}
    (built : Query.ofDeclarations declarations = .ok query) {tree commit : QueryTree}
    (member : tree ∈ query.trees) (found : tree.commitOperator? = some commit) :
    (RedoArea.ofTree tree).Restores tree commit := by
  have forest := IsForest.of_isLinked (Query.isLinked_of_declarations built).2
  have ids_nodup := forest.postOrder_ids_nodup member
  have sublist := RedoArea.visit_operators_sublist false tree
  have preferred := QueryTree.isPreferred_of_commitOperator? found
  have same_of {first second : QueryTree} (first_mem : first ∈ tree.postOrder)
      (second_mem : second ∈ tree.postOrder) (same : first.id = second.id) : first = second :=
    List.inj_on_of_nodup_map ids_nodup first_mem second_mem same
  refine ⟨?_, ?_, ?_, ?_, ids_nodup.sublist sublist,
    (forest.consumed_postOrder_nodup member).sublist (RedoArea.visit_streams_sublist false tree),
    ?_⟩
  case refine_1 =>
    rintro operator inside ⟨reader, reader_mem, reads_relation⟩
    refine RedoArea.mem_ofTree_operators_of_isWindowOperator preferred.mem_postOrder
      (QueryTree.isWindowOperator_of_isCandidate preferred.isCandidate) inside ?_
    rw [QueryTree.reads_eq_countP, List.countP_pos_iff]
    exact ⟨reader, reader_mem, reads_relation⟩
  case refine_2 =>
    intro id restarts
    obtain ⟨operator, operator_mem, id_eq, _⟩ := RedoArea.reads_of_mem_operators restarts
    exact ⟨operator, operator_mem, id_eq⟩
  case refine_3 =>
    intro operator operator_mem restarts input is_input
    obtain ⟨other, below, reads, id_eq⟩ := RedoArea.mem_visit_operators_iff.mp restarts
    obtain rfl := same_of below.1 operator_mem id_eq
    by_cases unread : input.reads = 0
    · exact .inr (RedoArea.mem_visit_streams_iff.mpr
        ⟨other, below, reads, input, is_input, unread, rfl⟩)
    · exact .inl (RedoArea.mem_visit_operators_iff.mpr
        ⟨input, below.input is_input, Nat.pos_of_ne_zero unread, rfl⟩)
  case refine_4 =>
    intro id delivered
    obtain ⟨consumer, consumer_mem, restarts, input, is_input, unread, rfl⟩ :=
      RedoArea.exists_consumer_of_mem_streams delivered
    refine ⟨consumer, consumer_mem, restarts, input, is_input, rfl, fun also_restarts => ?_, ?_⟩
    · obtain ⟨other, other_mem, other_id, reads⟩ := RedoArea.reads_of_mem_operators also_restarts
      obtain rfl := same_of other_mem (QueryTree.input_mem_postOrder consumer_mem is_input) other_id
      omega
    · rw [QueryTree.reads_eq_countP, List.countP_eq_zero] at unread
      simpa using unread
  case refine_5 =>
    exact fun operator operator_mem below inside different =>
      RedoArea.idxOf_lt_of_sublist ids_nodup sublist operator_mem inside different

/-! ## Two priced streams -/

/-- Prices of sales are compared with the mean of those of orders, within limits. -/
def comparedDeclarations : List Declaration :=
  [.relation { name := "prices", schema := priceSchema },
    .operator "sales" (.stream goodsSchema),
    .operator "orders" (.stream goodsSchema),
    .operator "limits" (.stream goodsSchema),
    .operator "priced" (.combine "sales" "prices" (.attributes "goods" .equal "id")),
    .operator "quoted" (.combine "orders" "prices" (.attributes "goods" .equal "id")),
    .operator "mean" (.mean "quoted" "price" (.rows 2 1)),
    .operator "compared" (.join "priced" (.rows 2 1) "mean" (.time 3 3) .always),
    .operator "limited" (.join "limits" (.rows 1 1) "compared" (.rows 1 1) .always)]

/-- The query that is declared. -/
def comparedQuery : Query :=
  (Query.ofDeclarations comparedDeclarations).toOption.get (by decide)

/-- Its last operator, with all others. -/
def limitedTree : QueryTree :=
  (comparedQuery.find? "limited").get (by decide)

/-- The comparison, which encloses both reads. -/
def comparedTree : QueryTree :=
  (comparedQuery.find? "compared").get (by decide)

/-- The mean encloses one read and the comparison two, so it is the comparison that is restored. -/
theorem comparedTree_restores :
    Query.ofDeclarations comparedDeclarations = .ok comparedQuery ∧
      limitedTree ∈ comparedQuery.trees ∧ limitedTree.commitOperator? = some comparedTree ∧
      RedoArea.ofTree limitedTree = { operators := [3, 4, 5, 6, 7], streams := [0, 1, 2] } ∧
      (RedoArea.ofTree limitedTree).Restores limitedTree comparedTree := by
  have built : Query.ofDeclarations comparedDeclarations = .ok comparedQuery := rfl
  have member : limitedTree ∈ comparedQuery.trees :=
    List.mem_of_find?_eq_some (Option.some_get _).symm
  have found : limitedTree.commitOperator? = some comparedTree := rfl
  exact ⟨built, member, found, by decide, redoArea_restores built member found⟩

end StreamQuery
