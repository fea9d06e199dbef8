import StreamQuery.Proofs.Engine.Cells
import StreamQuery.Proofs.Engine.Deployment

/-!
# Shapes of memories

What an operator remembers changes, but not its shape: an aggregation keeps remembering a window, a
window join two of them, and a source keeps remembering arrivals, which are never backed up.
-/

namespace StreamQuery

/-- What does not change of what an operator remembers. -/
inductive Memory.Shape where
  /-- A channel of arrivals, with its backup. -/
  | source (isProtected : Bool) (backup : List Tuple)
  | select
  | stateless
  | aggregate
  | join

/-- The shape of what an operator remembers. -/
def Memory.shape : Memory → Memory.Shape
  | .source arrivals => .source arrivals.isProtected arrivals.backup
  | .select _ _ => .select
  | .stateless => .stateless
  | .aggregate _ => .aggregate
  | .join _ => .join

namespace Memory

theorem shape_reset (memory : Memory) : memory.reset.shape = memory.shape := by
  cases memory <;> rfl

/-- Arrivals are not backed up. -/
theorem bare_of_shape {arrivals : Channel} {operator : QueryTree}
    (shape : (source arrivals).shape = (initial operator).shape) :
    arrivals.isProtected = false ∧ arrivals.backup = [] := by
  rcases operator with header | ⟨header, _ | _ | _ | _, input⟩ | ⟨header, logic, left, right⟩
  · exact (Shape.source.inj shape)
  all_goals cases shape

end Memory

/-! ## Cells -/

/-- The operator of a cell remembers what it does in the shape that it has at the start. -/
def Cell.IsShaped (operator : QueryTree) (cell : Cell) : Prop :=
  cell.memory.shape = (Memory.initial operator).shape

namespace Cell

variable (cell : Cell)

theorem shape_closeCommit : cell.closeCommit.memory.shape = cell.memory.shape := by
  rw [closeCommit]
  split
  · rename_i memory_eq
    rw [memory_eq]
    rfl
  · rfl

theorem shape_passOn (name : String) :
    (cell.passOn name).1.memory.shape = cell.memory.shape := by
  rw [passOn]
  split
  · rename_i arrivals memory_eq
    split
    · rfl
    · rename_i dequeued
      obtain ⟨_, rest_eq⟩ := Channel.dequeue?_eq_some dequeued
      rw [memory_eq, rest_eq]
      rfl
  · rfl

theorem shape_deliver (outcome : Except OperatorError (List Tuple)) :
    (cell.deliver outcome).1.memory.shape = cell.memory.shape := by
  rcases outcome with _ | (_ | _) <;> rfl

theorem shape_select (name : String) (condition : Condition) (tuple : Tuple) :
    (cell.select name condition tuple).1.memory.shape = cell.memory.shape := by
  rw [select]
  split
  · rename_i memory_eq
    rw [memory_eq]
    exact shape_deliver _ _
  · rfl

theorem shape_aggregate (header : OperatorHeader) (function : AggregateFunction)
    (role : CommitRole) (tuple : Tuple) :
    (cell.aggregate header function role tuple).1.memory.shape = cell.memory.shape := by
  rw [aggregate]
  split
  · rename_i memory_eq
    rw [memory_eq]
    simp only
    split <;> rfl
  · rfl

theorem shape_joinArrivals (header : OperatorHeader) (condition : Condition)
    (arrivals : List (Side × Tuple)) :
    (cell.joinArrivals header condition arrivals).1.memory.shape = cell.memory.shape := by
  rw [joinArrivals]
  split
  · rename_i memory_eq
    rw [memory_eq]
    simp only
    split
    · exact shape_deliver _ _
    · rfl
  · rfl

end Cell

/-! ## Worlds -/

namespace World

/-- All operators of a tree keep the shapes of what they remember. -/
abbrev IsShaped (tree : QueryTree) (world : World) : Prop :=
  world.Each Cell.IsShaped tree

namespace IsShaped

variable {tree : QueryTree} {world : World}

theorem modifyCell (shaped : world.IsShaped tree) (id : Nat) {change : Cell → Cell}
    (shape_eq : ∀ cell, (change cell).memory.shape = cell.memory.shape) :
    (world.modifyCell id change).IsShaped tree :=
  Each.modifyCell shaped fun _ _ _ cell _ shape => (shape_eq cell).trans shape

theorem act (shaped : world.IsShaped tree) {header : OperatorHeader}
    {action : Cell → Cell × Except OperatorError Step}
    (shape_eq : ∀ cell, (action cell).1.memory.shape = cell.memory.shape) :
    (world.act header action).1.IsShaped tree :=
  Each.act shaped fun _ _ _ cell shape => (shape_eq cell).trans shape

theorem take (shaped : world.IsShaped tree) (id : Nat) : (world.take id).2.IsShaped tree :=
  Each.take (fun _ _ _ _ shape => shape) shaped id

theorem process (shaped : world.IsShaped tree) (role : CommitRole) (header : OperatorHeader)
    (logic : SingleLogic) (tuple : Tuple) :
    (world.process role header logic tuple).1.IsShaped tree := by
  cases logic with
  | select condition => exact shaped.act fun cell => cell.shape_select _ _ _
  | project indices => exact shaped.act fun cell => cell.shape_deliver _
  | combine reference condition =>
      simp only [World.process]
      split
      · exact shaped
      · rename_i relation _
        have read : ({ world with
            catalog := (world.catalog.readRelation reference.place relation).2 } : World).IsShaped
              tree := Each.of_cells_eq shaped rfl
        exact read.act fun cell => cell.shape_deliver _
  | aggregate window function => exact shaped.act fun cell => cell.shape_aggregate _ _ _ _

theorem evaluate (shaped : world.IsShaped tree) (role : CommitRole) (operator : QueryTree) :
    (world.evaluate role operator).1.IsShaped tree := by
  cases operator with
  | source header => exact shaped.act fun cell => cell.shape_passOn _
  | single header logic input =>
      rw [World.evaluate, evaluateSingle]
      split
      · split
        · exact shaped.modifyCell _ Cell.shape_closeCommit
        · exact shaped
      · rcases taken : world.take input.id with ⟨_ | tuple, rest⟩
        · exact shaped
        · have rest_shaped : rest.IsShaped tree := by
            simpa only [taken] using shaped.take input.id
          have counted : (rest.modifyCell header.id (·.consume 1)).IsShaped tree :=
            rest_shaped.modifyCell header.id fun _ => rfl
          simp only
          split
          · exact counted.act fun cell => cell.shape_deliver _
          · exact counted.process role header logic tuple
  | join header logic left right =>
      rw [World.evaluate, evaluateJoin]
      simp only
      split
      · exact shaped
      · exact ((shaped.take left.id).take right.id).act fun cell => cell.shape_joinArrivals _ _ _

end IsShaped

end World

theorem Deployment.preserves_isShaped (deployment : Deployment) (allowed : Action → Prop) :
    deployment.schedule.Preserves allowed fun _ world => world.IsShaped deployment.tree := by
  refine ⟨fun _ world operator after error _ shaped evaluated => ?_,
    fun _ world operator after step execution _ shaped evaluated world_eq => ?_,
    fun _ execution action _ external shaped => ?_⟩
  · simpa only [evaluated] using shaped.evaluate (deployment.schedule.role operator.id) operator
  · have fired : execution.world.IsShaped deployment.tree := by
      simpa only [evaluated, world_eq] using
        shaped.evaluate (deployment.schedule.role operator.id) operator
    refine World.Each.react ?_ ?_ deployment.schedule step fired
    · exact fun _ _ _ _ shape => shape
    · exact fun _ cell _ shape => (Memory.shape_reset cell.memory).trans shape
  · cases action with
    | arrive source tuple =>
        refine World.Each.modifyCell shaped fun operator _ _ cell _ shape => ?_
        split
        · rename_i arrivals memory_eq
          rw [Cell.IsShaped, memory_eq] at shape
          obtain ⟨unprotected, _⟩ := Memory.bare_of_shape shape
          simpa [Cell.IsShaped, Memory.shape, Channel.enqueue, unprotected] using shape
        · exact shape
    | load place row => exact World.Each.of_cells_eq shaped rfl
    | update place change => exact World.Each.of_cells_eq shaped rfl
    | collect operator => exact shaped.modifyCell operator fun _ => rfl
    | setBatchCount count => exact shaped
    | wakeUp => exact absurd trivial external

theorem Deployment.start_isShaped (deployment : Deployment) :
    deployment.start.world.IsShaped deployment.tree :=
  fun _ member => ⟨_, deployment.getElem?_start member, rfl⟩

/-- Memories keep their shapes, whatever happens. -/
theorem Deployment.isShaped_run (deployment : Deployment) (actions : List Action) :
    (deployment.run actions).world.IsShaped deployment.tree := by
  exact @Schedule.Preserves.run _ _ _ (deployment.preserves_isShaped fun _ => True) actions
    (fun _ _ => trivial) [] _ deployment.start_isShaped

end StreamQuery
