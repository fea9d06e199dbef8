import StreamQuery.Engine.Action
import StreamQuery.Proofs.Engine.World
import StreamQuery.Proofs.Operator.Yields
import StreamQuery.Proofs.Plan.Forest

/-!
# Flow of tuples

A statement about the results of each operator is carried by a world if it holds of all tuples that
wait, that are kept in a backup or that are remembered. What an operator sends is computed from
such tuples; hence a statement that is closed under `Yields` stays carried.
-/

namespace StreamQuery

/-- What is to hold of the tuples of a running query. -/
structure FlowInvariant where
  /-- What holds of the results of an operator. -/
  holds : QueryTree → Tuple → Prop
  /-- Whether the results of an operator may be kept in a backup. -/
  keeps : QueryTree → Prop

/-- All tuples in the cell of an operator satisfy an invariant. -/
structure Cell.Carries (flow : FlowInvariant) (operator : QueryTree) (cell : Cell) : Prop where
  /-- The waiting results. -/
  queue : ∀ tuple ∈ cell.output.queue, flow.holds operator tuple
  /-- The results that can be delivered again. -/
  backup : ∀ tuple ∈ cell.output.backup, flow.holds operator tuple
  /-- There is a backup only where it is allowed. -/
  keeps : cell.output.isProtected = true ∨ cell.output.backup ≠ [] → flow.keeps operator
  /-- The tuples that are remembered. -/
  memory : cell.memory.Carries flow.holds operator

namespace Cell.Carries

variable {flow : FlowInvariant} {operator : QueryTree} {cell after : Cell}

theorem of_shrinks (carries : cell.Carries flow operator)
    (output_shrinks : cell.output.Shrinks after.output)
    (memory : after.memory.Carries flow.holds operator) : after.Carries flow operator where
  queue tuple member := by
    rcases output_shrinks.queue tuple member with waits | backed_up
    · exact carries.queue tuple waits
    · exact carries.backup tuple backed_up
  backup tuple member := carries.backup tuple (output_shrinks.backup tuple member)
  keeps kept := by
    refine carries.keeps (kept.imp (fun guarded => ?_) fun nonempty empty => nonempty ?_)
    · cases unprotected : cell.output.isProtected with
      | true => rfl
      | false => simp [output_shrinks.isProtected unprotected] at guarded
    · refine List.eq_nil_iff_forall_not_mem.mpr fun tuple member => ?_
      simpa [empty] using output_shrinks.backup tuple member
  memory := memory

theorem of_sends {yields : Tuple → Prop} (carries : cell.Carries flow operator)
    (sends : cell.Sends yields (Memory.Carries flow.holds operator) after)
    (closed : ∀ tuple, yields tuple → flow.holds operator tuple) :
    after.Carries flow operator := by
  obtain ⟨results, output_eq, yielded, memory⟩ := sends
  have backup_eq : after.output.backup =
      if cell.output.isProtected then cell.output.backup ++ results else cell.output.backup := by
    rw [output_eq, Channel.enqueueAll_backup]
  refine ⟨fun tuple member => ?_, fun tuple member => ?_, fun kept => ?_, memory⟩
  · rw [output_eq, Channel.enqueueAll_queue, List.mem_append] at member
    rcases member with old | result
    · exact carries.queue tuple old
    · exact closed tuple (yielded tuple result)
  · rw [backup_eq] at member
    split at member
    · rcases List.mem_append.mp member with old | result
      · exact carries.backup tuple old
      · exact closed tuple (yielded tuple result)
    · exact carries.backup tuple member
  · rw [backup_eq, output_eq, Channel.enqueueAll_isProtected] at kept
    refine carries.keeps (kept.elim .inl fun nonempty => ?_)
    split at nonempty
    · exact .inl ‹_›
    · exact .inr nonempty

/-- An operator that starts over keeps the invariant. -/
theorem restart (carries : cell.Carries flow operator) (keepsOutput : Bool) :
    (cell.restart keepsOutput).Carries flow operator := by
  have memory : cell.memory.reset.Carries flow.holds operator := by
    refine Memory.carries_reset fun arrivals header memory_eq operator_eq => ?_
    have remembered := carries.memory
    rw [memory_eq, operator_eq] at remembered
    exact operator_eq ▸ remembered
  cases keepsOutput with
  | true => exact carries.of_shrinks (.refl _) memory
  | false => exact carries.of_shrinks (Channel.shrinks_clear _) memory

theorem mono {flow' : FlowInvariant} (carries : cell.Carries flow operator)
    (weaker : ∀ source ∈ operator :: operator.inputs, ∀ tuple,
      flow.holds source tuple → flow'.holds source tuple)
    (keeps : flow.keeps operator → flow'.keeps operator) : cell.Carries flow' operator where
  queue tuple member := weaker operator (by simp) tuple (carries.queue tuple member)
  backup tuple member := weaker operator (by simp) tuple (carries.backup tuple member)
  keeps kept := keeps (carries.keeps kept)
  memory := carries.memory.mono weaker

end Cell.Carries

theorem Cell.Sends.congr {yields : Tuple → Prop} {remembers : Memory → Prop}
    {old cell after : Cell} (sends : cell.Sends yields remembers after)
    (output_eq : cell.output = old.output) : old.Sends yields remembers after := by
  obtain ⟨results, after_eq, yielded, remembered⟩ := sends
  exact ⟨results, output_eq ▸ after_eq, yielded, remembered⟩

namespace World

/-- All tuples of the operators of a tree satisfy an invariant. -/
def Carries (flow : FlowInvariant) (tree : QueryTree) (world : World) : Prop :=
  ∀ operator ∈ tree.postOrder, ∀ cell, world.cells[operator.id]? = some cell →
    cell.Carries flow operator

variable {flow : FlowInvariant} {trees : List QueryTree} {tree : QueryTree} {world : World}

theorem Carries.mono {flow' : FlowInvariant} (carries : world.Carries flow tree)
    (weaker : ∀ operator ∈ tree.postOrder, ∀ tuple,
      flow.holds operator tuple → flow'.holds operator tuple)
    (keeps : ∀ operator ∈ tree.postOrder, flow.keeps operator → flow'.keeps operator) :
    world.Carries flow' tree := by
  intro operator member cell found
  refine (carries operator member cell found).mono (fun source source_mem => ?_)
    (keeps operator member)
  rcases List.mem_cons.mp source_mem with rfl | is_input
  · exact weaker source member
  · exact weaker source (QueryTree.input_mem_postOrder member is_input)

theorem Carries.of_cells_eq {after : World} (carries : world.Carries flow tree)
    (cells_eq : after.cells = world.cells) : after.Carries flow tree := by
  intro operator member cell found
  exact carries operator member cell (cells_eq ▸ found)

/-- One cell may change if it keeps the invariant. -/
theorem Carries.modifyCell (carries : world.Carries flow tree) {id : Nat} {change : Cell → Cell}
    (changed : ∀ operator ∈ tree.postOrder, operator.id = id → ∀ cell : Cell,
      cell.Carries flow operator → (change cell).Carries flow operator) :
    (world.modifyCell id change).Carries flow tree := by
  intro operator member cell found
  by_cases same : operator.id = id
  · rw [same, getElem?_modifyCell_self] at found
    obtain ⟨old, old_found, rfl⟩ := Option.map_eq_some_iff.mp found
    exact changed operator member same old (carries operator member old (same ▸ old_found))
  · rw [getElem?_modifyCell_of_ne _ _ same] at found
    exact carries operator member cell found

theorem Carries.modifyOutput (carries : world.Carries flow tree) {id : Nat}
    {change : Channel → Channel} (shrinks : ∀ channel : Channel, channel.Shrinks (change channel)) :
    (world.modifyOutput id change).Carries flow tree :=
  carries.modifyCell fun _ _ _ cell cell_carries =>
    cell_carries.of_shrinks (shrinks cell.output) cell_carries.memory

theorem Carries.modifyOutputs (carries : world.Carries flow tree) {ids : List Nat}
    {change : Channel → Channel} (shrinks : ∀ channel : Channel, channel.Shrinks (change channel)) :
    (world.modifyOutputs ids change).Carries flow tree := by
  induction ids generalizing world with
  | nil => exact carries
  | cons id ids induction => exact induction (carries.modifyOutput shrinks)

theorem Carries.restart (carries : world.Carries flow tree) {spared? : Option Nat}
    {ids : List Nat} : (world.restart spared? ids).Carries flow tree := by
  induction ids generalizing world with
  | nil => exact carries
  | cons id ids induction =>
      exact induction (carries.modifyCell fun _ _ _ _ cell_carries => cell_carries.restart _)

theorem Carries.modifyArrivals (carries : world.Carries flow tree) {id : Nat} {tuple : Tuple}
    (holds : ∀ header, flow.holds (.source header) tuple) :
    (world.modifyArrivals id (·.enqueue tuple)).Carries flow tree := by
  refine carries.modifyCell fun operator _ _ cell cell_carries => ?_
  split
  · rename_i arrivals memory_eq
    refine ⟨cell_carries.queue, cell_carries.backup, cell_carries.keeps, ?_⟩
    have remembered := memory_eq ▸ cell_carries.memory
    cases operator with
    | source header =>
        intro waiting member
        rcases List.mem_append.mp member with old | newest
        · exact remembered waiting old
        · obtain rfl := List.mem_singleton.mp newest
          exact holds header
    | single header logic input => cases logic <;> trivial
    | join header logic left right => trivial
  · exact cell_carries

/-! ## Evaluations -/

section

variable {holds : QueryTree → Tuple → Prop} {role : CommitRole} {header : OperatorHeader}
  {before rest : World}

theorem process_steps {logic : SingleLogic} {input : QueryTree} {tuple : Tuple}
    (drains : Drains header.id before rest) (catalog_eq : rest.catalog = before.catalog)
    (given : holds input tuple)
    (remembered : ∀ cell, before.cells[header.id]? = some cell →
      cell.memory.Carries holds (.single header logic input)) :
    Steps header.id
      (Cell.Sends
        (Yields before.catalog (rest.process role header logic tuple).1.catalog role holds
          (.single header logic input))
        (Memory.Carries holds (.single header logic input)))
      before (rest.process role header logic tuple).1 := by
  have remembered_of {old cell : Cell} (memory_eq : cell.memory = old.memory)
      (found : before.cells[header.id]? = some old) :
      cell.memory.Carries holds (.single header logic input) :=
    memory_eq ▸ remembered old found
  cases logic with
  | select condition =>
      exact Steps.act drains fun old cell output_eq _ _ =>
        (Cell.sends_select given).congr output_eq
  | project indices =>
      refine Steps.act drains fun old cell output_eq memory_eq found =>
        Cell.Sends.congr ?_ output_eq
      refine Cell.sends_deliver (remembered_of memory_eq found)
        fun results projected result member => ?_
      obtain ⟨image, image_eq, rfl⟩ := map_eq_ok.mp projected
      obtain rfl := List.mem_singleton.mp member
      exact .projected given image_eq
  | combine reference condition =>
      simp only [World.process]
      split
      · exact Steps.of_drains drains fun old cell output_eq memory_eq found =>
          Cell.sends_nothing output_eq (remembered_of memory_eq found)
      · rename_i relation relation_found
        rw [act_catalog]
        rcases read : rest.catalog.readRelation reference.place relation with ⟨snapshot, after⟩
        rw [catalog_eq] at relation_found read
        have drains : Drains header.id before { rest with catalog := after } :=
          ⟨drains.self, drains.others⟩
        refine Steps.act drains fun old cell output_eq memory_eq found =>
          Cell.Sends.congr ?_ output_eq
        refine Cell.sends_deliver (remembered_of memory_eq found)
          fun results matched result member => ?_
        obtain ⟨⟨row, position⟩, _, rfl⟩ := mem_matchRows matched member
        exact .matched given relation_found read
  | aggregate window function =>
      exact Steps.act drains fun old cell output_eq memory_eq found =>
        (Cell.sends_aggregate given (remembered_of memory_eq found)).congr output_eq

end

/-- A tuple that can be taken from an input holds, also after another input was drained. -/
theorem Carries.holds_of_take {own : Nat} {input : QueryTree} {tuple : Tuple} {rest after : World}
    (carries : world.Carries flow tree) (drains : Drains own world rest)
    (member : input ∈ tree.postOrder) (different : input.id ≠ own)
    (taken : rest.take input.id = (some tuple, after)) : flow.holds input tuple := by
  obtain ⟨cell, queue, found, queue_eq, _⟩ := take_eq_some taken
  obtain ⟨old, old_found, shrinks⟩ := drains.others input.id cell different found
  have old_carries := carries input member old old_found
  rcases shrinks.output.queue tuple (by simp [queue_eq]) with waits | backed_up
  · exact old_carries.queue tuple waits
  · exact old_carries.backup tuple backed_up

section

variable {role : CommitRole} {header : OperatorHeader}

/-- What an operator of a tree has sent when it was evaluated, and what it remembers. -/
abbrev EvaluationSteps (flow : FlowInvariant) (operator : QueryTree) (role : CommitRole)
    (before after : World) : Prop :=
  Steps operator.id
    (Cell.Sends (Yields before.catalog after.catalog role flow.holds operator)
      (Memory.Carries flow.holds operator))
    before after

theorem evaluateSingle_steps {logic : SingleLogic} {input : QueryTree}
    (carries : world.Carries flow tree) (member : .single header logic input ∈ tree.postOrder)
    (different : input.id ≠ header.id) :
    EvaluationSteps flow (.single header logic input) role world
      (world.evaluateSingle role header logic input.id).1 := by
  have remembered (cell : Cell) (found : world.cells[header.id]? = some cell) :
      cell.memory.Carries flow.holds (.single header logic input) :=
    (carries _ member cell found).memory
  have input_mem : input ∈ tree.postOrder :=
    QueryTree.input_mem_postOrder member (by simp [QueryTree.inputs])
  have stays : EvaluationSteps flow (.single header logic input) role world world :=
    .of_drains (.refl _ world) fun old cell output_eq memory_eq found =>
      Cell.sends_nothing output_eq (memory_eq ▸ remembered old found)
  rw [evaluateSingle]
  split
  · split
    · refine Steps.modifyCell (.refl _ world) fun old cell output_eq memory_eq found => ?_
      have cell_remembers := memory_eq ▸ remembered old found
      rw [Cell.closeCommit]
      split
      · rename_i aggregation aggregation_eq
        rw [aggregation_eq] at cell_remembers
        refine Cell.sends_nothing output_eq ?_
        cases logic <;> trivial
      · exact Cell.sends_nothing output_eq cell_remembers
    · exact stays
  · split
    · exact stays
    · rename_i tuple rest taken
      have given := carries.holds_of_take (.refl header.id world) input_mem different taken
      have drained : Drains header.id world rest := by
        simpa [taken] using Drains.take different world
      have drains := drained.trans (.consume header.id 1 rest)
      have catalog_eq : rest.catalog = world.catalog := by
        simpa [taken] using take_catalog world input.id
      simp only
      split
      · rename_i ends
        refine Steps.act drains fun old cell output_eq memory_eq found =>
          Cell.Sends.congr ?_ output_eq
        refine Cell.sends_deliver (memory_eq ▸ remembered old found)
          fun results delivered result result_mem => ?_
        cases delivered
        obtain rfl := List.mem_singleton.mp result_mem
        exact .passed given (.inl ends)
      · exact process_steps drains catalog_eq given remembered

theorem evaluateJoin_steps {logic : JoinLogic} {left right : QueryTree}
    (carries : world.Carries flow tree) (member : .join header logic left right ∈ tree.postOrder)
    (left_different : left.id ≠ header.id) (right_different : right.id ≠ header.id) :
    EvaluationSteps flow (.join header logic left right) role world
      (world.evaluateJoin header logic left.id right.id).1 := by
  have remembered (cell : Cell) (found : world.cells[header.id]? = some cell) :
      cell.memory.Carries flow.holds (.join header logic left right) :=
    (carries _ member cell found).memory
  have left_mem : left ∈ tree.postOrder :=
    QueryTree.input_mem_postOrder member (by simp [QueryTree.inputs])
  have right_mem : right ∈ tree.postOrder :=
    QueryTree.input_mem_postOrder member (by simp [QueryTree.inputs])
  rw [evaluateJoin]
  rcases left_taken : world.take left.id with ⟨leftTuple?, afterLeft⟩
  rcases right_taken : afterLeft.take right.id with ⟨rightTuple?, afterRight⟩
  have left_drains : Drains header.id world afterLeft := by
    simpa [left_taken] using Drains.take left_different world
  have right_drains : Drains header.id afterLeft afterRight := by
    simpa [right_taken] using Drains.take right_different afterLeft
  simp only [right_taken]
  split
  · exact .of_drains (.refl _ world) fun old cell output_eq memory_eq found =>
      Cell.sends_nothing output_eq (memory_eq ▸ remembered old found)
  · refine Steps.act (left_drains.trans right_drains) fun old cell output_eq memory_eq found =>
      Cell.Sends.congr (Cell.sends_joinArrivals ?_ (memory_eq ▸ remembered old found)) output_eq
    intro arrival arrived
    rcases List.mem_append.mp arrived with from_left | from_right
    · obtain ⟨tuple, rfl, rfl⟩ := Option.map_eq_some_iff.mp (Option.mem_toList.mp from_left)
      exact carries.holds_of_take (.refl header.id world) left_mem left_different left_taken
    · obtain ⟨tuple, rfl, rfl⟩ := Option.map_eq_some_iff.mp (Option.mem_toList.mp from_right)
      exact carries.holds_of_take left_drains right_mem right_different right_taken

/-- An operator that is evaluated sends what it computes from its input and changes nothing else. -/
theorem evaluate_steps {operator : QueryTree} (role : CommitRole)
    (carries : world.Carries flow tree) (member : operator ∈ tree.postOrder)
    (different : ∀ input ∈ operator.inputs, input.id ≠ operator.id) :
    EvaluationSteps flow operator role world (world.evaluate role operator).1 := by
  cases operator with
  | source header =>
      refine Steps.act (.refl _ world) fun old cell output_eq memory_eq found =>
        Cell.Sends.congr ?_ output_eq
      exact Cell.sends_passOn (memory_eq ▸ (carries _ member old found).memory)
  | single header logic input =>
      exact evaluateSingle_steps carries member (different input (by simp [QueryTree.inputs]))
  | join header logic left right =>
      exact evaluateJoin_steps carries member (different left (by simp [QueryTree.inputs]))
        (different right (by simp [QueryTree.inputs]))

/-- An invariant that is closed under what an operator computes stays carried when the operator is
evaluated. -/
theorem Carries.evaluate {operator : QueryTree} (carries : world.Carries flow tree)
    (nodup : (tree.postOrder.map QueryTree.id).Nodup) (member : operator ∈ tree.postOrder)
    (different : ∀ input ∈ operator.inputs, input.id ≠ operator.id)
    (closed : ∀ tuple, Yields world.catalog (world.evaluate role operator).1.catalog role
      flow.holds operator tuple → flow.holds operator tuple) :
    (world.evaluate role operator).1.Carries flow tree := by
  have steps := evaluate_steps role carries member different
  intro other other_mem cell found
  by_cases same : other.id = operator.id
  · obtain rfl := List.inj_on_of_nodup_map nodup other_mem member same
    obtain ⟨old, old_found, sends⟩ := steps.self cell found
    exact (carries other other_mem old old_found).of_sends sends closed
  · obtain ⟨old, old_found, shrinks⟩ := steps.others other.id cell same found
    have old_carries := carries other other_mem old old_found
    exact old_carries.of_shrinks shrinks.output (shrinks.memory ▸ old_carries.memory)

end

end World

end StreamQuery
