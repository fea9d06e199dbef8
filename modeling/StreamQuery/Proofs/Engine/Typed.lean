import StreamQuery.Proofs.Engine.Cells
import StreamQuery.Proofs.Operator.Typed
import StreamQuery.Proofs.Relation.Rows

/-!
# Typed worlds

A world is typed if the cells of a tree are typed and relations show rows of their schemas. An
operator of the tree that finds all its attributes leaves a typed world typed and fails only by a
comparison of values of different types.
-/

namespace StreamQuery

namespace World

/-- The cells of a tree carry and remember tuples of the right schemas, and relations show rows of
theirs. -/
structure IsTyped (relations : List RelationDeclaration) (tree : QueryTree) (world : World) :
    Prop where
  /-- The cells. -/
  cells : world.Each Cell.IsTyped tree
  /-- The relations. -/
  catalog : world.catalog.IsTyped relations

variable {relations : List RelationDeclaration} {tree operator input : QueryTree} {world : World}

namespace IsTyped

theorem modifyCell (typed : world.IsTyped relations tree) (id : Nat) {change : Cell → Cell}
    (changed : ∀ operator (cell : Cell), cell.IsTyped operator → (change cell).IsTyped operator) :
    (world.modifyCell id change).IsTyped relations tree where
  cells := typed.cells.modifyCell fun operator _ _ cell _ => changed operator cell
  catalog := typed.catalog

/-- An operator that does well with its own cell does well. -/
theorem act (typed : world.IsTyped relations tree)
    (nodup : (tree.postOrder.map QueryTree.id).Nodup) (member : operator ∈ tree.postOrder)
    {action : Cell → Cell × Except OperatorError Step}
    (acts : ∀ cell : Cell, cell.IsTyped operator → GoesWell (Cell.IsTyped operator) (action cell)) :
    GoesWell (IsTyped relations tree) (world.act operator.header action) := by
  refine ⟨⟨?_, by simpa using typed.catalog⟩, fun error failed => ?_⟩
  · refine typed.cells.act fun other other_mem same cell cell_typed => ?_
    obtain rfl := List.inj_on_of_nodup_map nodup other_mem member same
    exact (acts cell cell_typed).typed
  · obtain ⟨cell, found, cell_typed⟩ := typed.cells operator member
    rw [act_of_getElem? found] at failed
    exact (acts cell cell_typed).error error failed

/-- A tuple that is taken from an operator is one of its schema. -/
theorem take (typed : world.IsTyped relations tree) (member : input ∈ tree.postOrder)
    {tuple? : Option Tuple} {rest : World} (taken : world.take input.id = (tuple?, rest)) :
    (∀ tuple ∈ tuple?, tuple.Conforms input.schema) ∧ rest.IsTyped relations tree := by
  have cells := typed.cells.take (fun _ _ _ shrinks holds => holds.of_shrinks shrinks) input.id
  have catalog_eq := world.take_catalog input.id
  rw [taken] at cells catalog_eq
  refine ⟨?_, cells, catalog_eq ▸ typed.catalog⟩
  rintro tuple rfl
  obtain ⟨cell, queue, found, queue_eq, _⟩ := take_eq_some taken
  obtain ⟨cell', found', cell_typed⟩ := typed.cells input member
  obtain rfl := Option.some.inj (found'.symm.trans found)
  exact cell_typed.output.queue tuple (queue_eq ▸ List.mem_cons_self)

/-- What is taken from both inputs of a join are tuples of their schemas. -/
theorem take_both {left right : QueryTree} (typed : world.IsTyped relations tree)
    (left_mem : left ∈ tree.postOrder) (right_mem : right ∈ tree.postOrder)
    {leftTuple? rightTuple? : Option Tuple} {afterLeft afterRight : World}
    (left_taken : world.take left.id = (leftTuple?, afterLeft))
    (right_taken : afterLeft.take right.id = (rightTuple?, afterRight)) :
    (∀ arrival ∈ (leftTuple?.map (Side.left, ·)).toList ++ (rightTuple?.map (Side.right, ·)).toList,
      arrival.2.Conforms (left.sideSchema right arrival.1)) ∧
      afterRight.IsTyped relations tree := by
  obtain ⟨left_conforms, after_left⟩ := typed.take left_mem left_taken
  obtain ⟨right_conforms, after_right⟩ := after_left.take right_mem right_taken
  refine ⟨fun arrival arrived => ?_, after_right⟩
  rcases List.mem_append.mp arrived with from_left | from_right
  · obtain ⟨tuple, tuple_mem, rfl⟩ := Option.map_eq_some_iff.mp (Option.mem_toList.mp from_left)
    exact left_conforms tuple tuple_mem
  · obtain ⟨tuple, tuple_mem, rfl⟩ := Option.map_eq_some_iff.mp (Option.mem_toList.mp from_right)
    exact right_conforms tuple tuple_mem

end IsTyped

section

variable {header : OperatorHeader} {role : CommitRole}

theorem process_goesWell {logic : SingleLogic} {tuple : Tuple}
    (typed : world.IsTyped relations tree) (nodup : (tree.postOrder.map QueryTree.id).Nodup)
    (member : .single header logic input ∈ tree.postOrder)
    (resolved : (QueryTree.single header logic input).IsResolved relations)
    (fits : tuple.Fits input.schema) :
    GoesWell (IsTyped relations tree) (world.process role header logic tuple) := by
  cases logic with
  | select condition =>
      exact typed.act nodup member fun _ => Cell.select_goesWell resolved fits
  | project indices =>
      exact typed.act nodup member fun _ => Cell.project_goesWell resolved fits
  | combine reference condition =>
      obtain ⟨declared, is_declared, _⟩ := id resolved
      obtain ⟨relation, found, _⟩ := typed.catalog.rows _ _ is_declared
      simp only [process, found]
      rcases read : world.catalog.readRelation reference.place relation with ⟨snapshot, after⟩
      obtain ⟨rows_fit, after_typed⟩ := typed.catalog.readRelation is_declared found read
      have next : IsTyped relations tree { world with catalog := after } :=
        ⟨typed.cells.of_cells_eq rfl, after_typed⟩
      exact next.act nodup member fun _ =>
        Cell.combine_goesWell resolved is_declared fits rows_fit relation.id
  | aggregate window function =>
      exact typed.act nodup member fun _ => Cell.aggregate_goesWell role resolved fits

theorem evaluateSingle_goesWell {logic : SingleLogic} (typed : world.IsTyped relations tree)
    (nodup : (tree.postOrder.map QueryTree.id).Nodup)
    (member : .single header logic input ∈ tree.postOrder)
    (resolved : (QueryTree.single header logic input).IsResolved relations) :
    GoesWell (IsTyped relations tree) (world.evaluateSingle role header logic input.id) := by
  have input_mem : input ∈ tree.postOrder :=
    QueryTree.input_mem_postOrder member (by simp [QueryTree.inputs])
  rw [evaluateSingle]
  split
  · split
    · exact .of_ok (typed.modifyCell _ fun _ _ => Cell.IsTyped.closeCommit) _
    · exact .of_ok typed _
  · split
    · exact .of_ok typed _
    · rename_i tuple rest taken
      obtain ⟨conforms, rest_typed⟩ := typed.take input_mem taken
      have counted := rest_typed.modifyCell header.id fun _ _ cell_typed =>
        cell_typed.consume 1
      simp only
      split
      · rename_i ends
        refine counted.act nodup member fun cell cell_typed =>
          Cell.deliver_goesWell cell_typed (fun results sent result result_mem data => ?_) (by simp)
        cases sent
        obtain rfl := List.mem_singleton.mp result_mem
        cases ends.symm.trans data
      · rename_i data
        exact process_goesWell counted nodup member resolved
          (conforms tuple rfl (by simpa using data))

theorem evaluateJoin_goesWell {logic : JoinLogic} {left right : QueryTree}
    (typed : world.IsTyped relations tree) (nodup : (tree.postOrder.map QueryTree.id).Nodup)
    (member : .join header logic left right ∈ tree.postOrder)
    (resolved : (QueryTree.join header logic left right).IsResolved relations) :
    GoesWell (IsTyped relations tree) (world.evaluateJoin header logic left.id right.id) := by
  have left_mem : left ∈ tree.postOrder :=
    QueryTree.input_mem_postOrder member (by simp [QueryTree.inputs])
  have right_mem : right ∈ tree.postOrder :=
    QueryTree.input_mem_postOrder member (by simp [QueryTree.inputs])
  rw [evaluateJoin]
  rcases left_taken : world.take left.id with ⟨leftTuple?, afterLeft⟩
  rcases right_taken : afterLeft.take right.id with ⟨rightTuple?, afterRight⟩
  obtain ⟨conform, after_both⟩ := typed.take_both left_mem right_mem left_taken right_taken
  simp only [right_taken]
  split
  · exact .of_ok typed _
  · exact after_both.act nodup member fun _ => Cell.joinArrivals_goesWell resolved conform

/-- An operator that finds all its attributes goes well. -/
theorem IsTyped.evaluate (typed : world.IsTyped relations tree)
    (nodup : (tree.postOrder.map QueryTree.id).Nodup) (member : operator ∈ tree.postOrder)
    (resolved : operator.IsResolved relations) (role : CommitRole) :
    GoesWell (IsTyped relations tree) (world.evaluate role operator) := by
  cases operator with
  | source header => exact typed.act nodup member fun _ => Cell.passOn_goesWell
  | single header logic input => exact evaluateSingle_goesWell typed nodup member resolved
  | join header logic left right => exact evaluateJoin_goesWell typed nodup member resolved

end

/-! ## The scheduler -/

theorem endTransactions_isTyped {world : World} (typed : world.catalog.IsTyped relations)
    {operators : List QueryTree}
    (resolved : ∀ operator ∈ operators, operator.IsResolved relations) (mode : Mode) :
    (world.endTransactions mode operators).catalog.IsTyped relations := by
  rw [endTransactions]
  generalize world.catalog = catalog at typed
  induction operators generalizing catalog with
  | nil => exact typed
  | cons operator operators induction =>
      have later (other : QueryTree) (member : other ∈ operators) :=
        resolved other (List.mem_cons_of_mem _ member)
      rw [List.foldl_cons]
      rcases operator with header | ⟨header, _ | _ | ⟨reference, condition⟩ | _, input⟩ | _
      case single.combine =>
        obtain ⟨declared, is_declared, _⟩ := resolved _ List.mem_cons_self
        exact induction later _ (typed.endTransactionAt is_declared mode)
      all_goals exact induction later _ typed

theorem IsTyped.react {schedule : Schedule} {execution : Execution}
    (typed : execution.world.IsTyped relations tree)
    (resolved : ∀ operator ∈ schedule.order, operator.IsResolved relations) (step : Step) :
    (schedule.react execution step).world.IsTyped relations tree := by
  refine ⟨Each.react (fun _ _ _ shrinks holds => holds.of_shrinks shrinks)
    (fun _ _ keepsOutput holds => holds.restart keepsOutput) schedule step typed.cells, ?_⟩
  refine Schedule.react_preserves (·.catalog.IsTyped relations) ?_ ?_ ?_ step typed.catalog
  · intro world change _ holds
    rwa [modifyOutputs_catalog]
  · intro world holds
    rwa [restart_catalog]
  · exact fun world holds => endTransactions_isTyped holds resolved _

end World

end StreamQuery
