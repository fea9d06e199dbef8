import StreamQuery.Proofs.Engine.Run
import StreamQuery.Proofs.Engine.World

/-!
# Properties of all cells

Every operator of a tree keeps its cell throughout a run. A property of cells that survives the loss
of waiting tuples and a restart survives everything that a scheduler does in response to a step.
-/

namespace StreamQuery

namespace World

/-- Every operator of a tree has a cell with a property. -/
def Each (property : QueryTree → Cell → Prop) (tree : QueryTree) (world : World) : Prop :=
  ∀ operator ∈ tree.postOrder, world.CellAt operator.id (property operator)

variable {property : QueryTree → Cell → Prop} {tree : QueryTree} {world : World}

theorem Each.of_cells_eq {after : World} (each : world.Each property tree)
    (cells_eq : after.cells = world.cells) : after.Each property tree := by
  intro operator member
  obtain ⟨cell, found, holds⟩ := each operator member
  exact ⟨cell, cells_eq ▸ found, holds⟩

/-- One cell may change if it keeps the property. -/
theorem Each.modifyCell (each : world.Each property tree) {id : Nat} {change : Cell → Cell}
    (changed : ∀ operator ∈ tree.postOrder, operator.id = id → ∀ cell,
      world.cells[id]? = some cell → property operator cell → property operator (change cell)) :
    (world.modifyCell id change).Each property tree := by
  intro operator member
  by_cases same : operator.id = id
  · obtain ⟨cell, found, holds⟩ := each operator member
    rw [same] at found ⊢
    exact ⟨change cell, by rw [getElem?_modifyCell_self, found]; rfl,
      changed operator member same cell found holds⟩
  · exact (each operator member).modifyCell_of_ne same

theorem Each.act (each : world.Each property tree) {header : OperatorHeader}
    {action : Cell → Cell × Except OperatorError Step}
    (acted : ∀ operator ∈ tree.postOrder, operator.id = header.id → ∀ cell : Cell,
      property operator cell → property operator (action cell).1) :
    (world.act header action).1.Each property tree := by
  rw [World.act]
  split
  · rename_i cell found
    refine each.modifyCell fun operator member same old old_found holds => ?_
    obtain rfl := Option.some.inj (old_found.symm.trans found)
    exact acted operator member same old holds
  · exact each

theorem Each.modifyOutput (each : world.Each property tree) {id : Nat} {change : Channel → Channel}
    (changed : ∀ operator (cell : Cell), property operator cell →
      property operator { cell with output := change cell.output }) :
    (world.modifyOutput id change).Each property tree :=
  each.modifyCell fun operator _ _ cell _ => changed operator cell

theorem Each.modifyOutputs (each : world.Each property tree) {ids : List Nat}
    {change : Channel → Channel}
    (changed : ∀ operator (cell : Cell), property operator cell →
      property operator { cell with output := change cell.output }) :
    (world.modifyOutputs ids change).Each property tree := by
  induction ids generalizing world with
  | nil => exact each
  | cons id ids induction => exact induction (each.modifyOutput changed)

section

variable (shrinks : ∀ operator (cell : Cell) (output : Channel), cell.output.Shrinks output →
  property operator cell → property operator { cell with output })

include shrinks

theorem Each.take (each : world.Each property tree) (id : Nat) :
    (world.take id).2.Each property tree := by
  rcases taken : world.take id with ⟨_ | tuple, rest⟩
  · obtain ⟨_, rfl⟩ := take_eq_none taken
    exact each
  · obtain ⟨source, queue, found, queue_eq, rfl⟩ := take_eq_some taken
    refine each.modifyCell fun operator _ _ cell cell_found holds => ?_
    obtain rfl := Option.some.inj (cell_found.symm.trans found)
    refine shrinks operator cell { cell.output with queue }
      ⟨?_, fun _ kept => kept, fun bare => bare⟩ holds
    exact fun waiting later => .inl (queue_eq ▸ List.mem_cons_of_mem tuple later)

variable (restarts : ∀ operator (cell : Cell) (keepsOutput : Bool), property operator cell →
  property operator (cell.restart keepsOutput))

include restarts

theorem Each.react (schedule : Schedule) {execution : Execution} (step : Step)
    (each : execution.world.Each property tree) :
    (schedule.react execution step).world.Each property tree := by
  refine Schedule.react_preserves (·.Each property tree)
    (fun _ _ loses holds => Each.modifyOutputs holds fun _ _ => shrinks _ _ _ (loses _))
    (fun world holds => ?_)
    (fun _ holds => Each.of_cells_eq holds rfl) step each
  rw [restart]
  generalize schedule.redo.operators = ids
  induction ids generalizing world with
  | nil => exact holds
  | cons id ids induction =>
      exact induction _ (holds.modifyCell fun operator _ _ cell _ => restarts operator cell _)

end

end World

end StreamQuery
