import StreamQuery.Engine.World
import StreamQuery.Proofs.Channel

/-!
# Frames of worlds

Changing one cell leaves the others alone. An operator that takes its input can only drain the
outputs of other operators.
-/

namespace StreamQuery

/-- A cell whose memory is kept and whose output loses tuples at most. -/
structure Cell.Shrinks (before after : Cell) : Prop where
  /-- The output gains nothing. -/
  output : before.output.Shrinks after.output
  /-- What is remembered stays. -/
  memory : after.memory = before.memory

namespace Cell.Shrinks

theorem refl (cell : Cell) : cell.Shrinks cell where
  output := .refl _
  memory := rfl

theorem trans {first second third : Cell} (earlier : first.Shrinks second)
    (later : second.Shrinks third) : first.Shrinks third where
  output := earlier.output.trans later.output
  memory := later.memory.trans earlier.memory

end Cell.Shrinks

@[simp] theorem Memory.reset_reset (memory : Memory) : memory.reset.reset = memory.reset := by
  cases memory with
  | aggregate aggregation =>
      simp only [reset, Aggregation.reset]
      cases aggregation.synopsis <;> rfl
  | join state =>
      obtain ⟨⟨left, _, _⟩, ⟨right, _, _⟩⟩ := state
      cases left <;> cases right <;> rfl
  | _ => rfl

theorem Cell.restart_restart (cell : Cell) (keepsOutput : Bool) :
    (cell.restart keepsOutput).restart keepsOutput = cell.restart keepsOutput := by
  cases keepsOutput <;> simp [restart, Channel.clear]

namespace World

theorem getElem?_modifyCell_self (world : World) (id : Nat) (change : Cell → Cell) :
    (world.modifyCell id change).cells[id]? = world.cells[id]?.map change := by
  simp [modifyCell]

theorem getElem?_modifyCell_of_ne (world : World) {id other : Nat} (change : Cell → Cell)
    (different : other ≠ id) :
    (world.modifyCell id change).cells[other]? = world.cells[other]? := by
  simp [modifyCell, List.getElem?_modify_ne change world.cells different.symm]

@[simp] theorem modifyCell_catalog (world : World) (id : Nat) (change : Cell → Cell) :
    (world.modifyCell id change).catalog = world.catalog :=
  rfl

theorem output_of_getElem? {world : World} {id : Nat} {cell : Cell}
    (found : world.cells[id]? = some cell) : world.output id = cell.output := by
  simp [output, found]

theorem output_of_getElem?_eq_none {world : World} {id : Nat}
    (missing : world.cells[id]? = none) : world.output id = {} := by
  simp [output, missing]

/-- A tuple that is taken was the oldest one of the output. -/
theorem take_eq_some {world rest : World} {id : Nat} {tuple : Tuple}
    (taken : world.take id = (some tuple, rest)) :
    ∃ cell queue, world.cells[id]? = some cell ∧ cell.output.queue = tuple :: queue ∧
      rest = world.modifyOutput id fun _ => { cell.output with queue } := by
  rw [take] at taken
  split at taken
  · rename_i head channel dequeued
    obtain ⟨rfl, rfl⟩ : head = tuple ∧ world.modifyOutput id (fun _ => channel) = rest := by
      simpa using taken
    cases found : world.cells[id]? with
    | none => simp [output_of_getElem?_eq_none found, Channel.dequeue?] at dequeued
    | some cell =>
        rw [output_of_getElem? found] at dequeued
        obtain ⟨queue_eq, channel_eq⟩ := Channel.dequeue?_eq_some dequeued
        exact ⟨cell, channel.queue, rfl, queue_eq, by rw [← channel_eq]⟩
  · simp at taken

theorem take_eq_none {world rest : World} {id : Nat} (taken : world.take id = (none, rest)) :
    (world.output id).queue = [] ∧ rest = world := by
  rw [take] at taken
  split at taken
  · simp at taken
  · rename_i dequeued
    exact ⟨Channel.dequeue?_eq_none dequeued, by simpa using taken.symm⟩

theorem take_of_nil {world : World} {id : Nat} {cell : Cell} (found : world.cells[id]? = some cell)
    (empty : cell.output.queue = []) : world.take id = (none, world) := by
  simp [take, output_of_getElem? found, Channel.dequeue?, empty]

theorem take_of_cons {world : World} {id : Nat} {cell : Cell} (found : world.cells[id]? = some cell)
    {tuple : Tuple} {queue : List Tuple} (queue_eq : cell.output.queue = tuple :: queue) :
    world.take id =
      (some tuple, world.modifyOutput id fun _ => { cell.output with queue }) := by
  simp [take, output_of_getElem? found, Channel.dequeue?, queue_eq]

theorem act_of_getElem? {world : World} {header : OperatorHeader} {cell : Cell}
    (found : world.cells[header.id]? = some cell)
    (action : Cell → Cell × Except OperatorError Step) :
    world.act header action =
      (world.modifyCell header.id fun _ => (action cell).1, (action cell).2) := by
  rw [act, found]

@[simp] theorem take_catalog (world : World) (id : Nat) :
    (world.take id).2.catalog = world.catalog := by
  rw [take]
  split <;> rfl

@[simp] theorem act_catalog (world : World) (header : OperatorHeader)
    (action : Cell → Cell × Except OperatorError Step) :
    (world.act header action).1.catalog = world.catalog := by
  rw [act]
  split <;> rfl

@[simp] theorem modifyOutputs_catalog (world : World) (ids : List Nat)
    (change : Channel → Channel) : (world.modifyOutputs ids change).catalog = world.catalog := by
  induction ids generalizing world with
  | nil => rfl
  | cons id ids induction => exact induction (world.modifyOutput id change)

@[simp] theorem restart_catalog (world : World) (spared? : Option Nat) (ids : List Nat) :
    (world.restart spared? ids).catalog = world.catalog := by
  induction ids generalizing world with
  | nil => rfl
  | cons id ids induction => exact induction (world.modifyCell id (·.restart (spared? = some id)))

/-- The cell at a place has a property. -/
def CellAt (world : World) (id : Nat) (property : Cell → Prop) : Prop :=
  ∃ cell, world.cells[id]? = some cell ∧ property cell

section

variable {world : World} {id other : Nat} {property : Cell → Prop} {change : Cell → Cell}

theorem CellAt.modifyCell_self {changed : Cell → Prop} (holds : world.CellAt id property)
    (changes : ∀ cell, property cell → changed (change cell)) :
    (world.modifyCell id change).CellAt id changed := by
  obtain ⟨cell, found, cell_holds⟩ := holds
  exact ⟨change cell, by rw [getElem?_modifyCell_self, found]; rfl, changes cell cell_holds⟩

theorem CellAt.modifyCell_of_ne (holds : world.CellAt id property) (different : id ≠ other) :
    (world.modifyCell other change).CellAt id property := by
  obtain ⟨cell, found, cell_holds⟩ := holds
  exact ⟨cell, by rw [getElem?_modifyCell_of_ne _ _ different, found], cell_holds⟩

theorem CellAt.modifyCell (holds : world.CellAt id property) (other : Nat)
    (kept : ∀ cell, property cell → property (change cell)) :
    (world.modifyCell other change).CellAt id property := by
  by_cases same : id = other
  · subst same
    exact holds.modifyCell_self kept
  · exact holds.modifyCell_of_ne same

end

/-! ## Operators stay -/

section

variable (world : World)

@[simp] theorem length_modifyCell (id : Nat) (change : Cell → Cell) :
    (world.modifyCell id change).cells.length = world.cells.length := by
  simp [modifyCell]

@[simp] theorem length_modifyOutput (id : Nat) (change : Channel → Channel) :
    (world.modifyOutput id change).cells.length = world.cells.length :=
  world.length_modifyCell id _

@[simp] theorem length_modifyOutputs (ids : List Nat) (change : Channel → Channel) :
    (world.modifyOutputs ids change).cells.length = world.cells.length := by
  induction ids generalizing world with
  | nil => rfl
  | cons id ids induction => exact (induction _).trans (world.length_modifyOutput id change)

@[simp] theorem length_restart (spared? : Option Nat) (ids : List Nat) :
    (world.restart spared? ids).cells.length = world.cells.length := by
  induction ids generalizing world with
  | nil => rfl
  | cons id ids induction => exact (induction _).trans (world.length_modifyCell id _)

@[simp] theorem length_take (id : Nat) : (world.take id).2.cells.length = world.cells.length := by
  rw [take]
  split <;> simp

@[simp] theorem length_act (header : OperatorHeader)
    (action : Cell → Cell × Except OperatorError Step) :
    (world.act header action).1.cells.length = world.cells.length := by
  rw [act]
  split <;> simp

theorem length_process (role : CommitRole) (header : OperatorHeader) (logic : SingleLogic)
    (tuple : Tuple) :
    (world.process role header logic tuple).1.cells.length = world.cells.length := by
  cases logic with
  | combine reference condition =>
      simp only [process]
      split
      · rfl
      · exact length_act _ header _
  | _ => exact length_act _ header _

theorem length_evaluate (role : CommitRole) (operator : QueryTree) :
    (world.evaluate role operator).1.cells.length = world.cells.length := by
  cases operator with
  | source header => exact length_act world header _
  | join header logic left right =>
      simp only [evaluate, evaluateJoin]
      split
      · rfl
      · rw [length_act, length_take, length_take]
  | single header logic input =>
      simp only [evaluate, evaluateSingle]
      split
      · split
        · exact length_modifyCell _ _ _
        · rfl
      · rcases taken : world.take input.id with ⟨_ | tuple, rest⟩
        · rfl
        · have rest_length : rest.cells.length = world.cells.length := by
            simpa [taken] using world.length_take input.id
          simp only
          split
          · rw [length_act, length_modifyCell, rest_length]
          · rw [length_process, length_modifyCell, rest_length]

end

/-- A world in which one operator is as before, and the outputs of the others lost tuples at most.
-/
structure Drains (own : Nat) (before after : World) : Prop where
  /-- The operator itself has its output and its memory. -/
  self : ∀ cell, after.cells[own]? = some cell →
    ∃ old, before.cells[own]? = some old ∧ cell.output = old.output ∧ cell.memory = old.memory
  /-- The other operators gain nothing. -/
  others : ∀ id cell, id ≠ own → after.cells[id]? = some cell →
    ∃ old, before.cells[id]? = some old ∧ old.Shrinks cell

namespace Drains

theorem refl (own : Nat) (world : World) : Drains own world world where
  self cell found := ⟨cell, found, rfl, rfl⟩
  others _ cell _ found := ⟨cell, found, .refl cell⟩

theorem trans {own : Nat} {first second third : World} (earlier : Drains own first second)
    (later : Drains own second third) : Drains own first third where
  self cell found := by
    obtain ⟨middle, middle_found, output_eq, memory_eq⟩ := later.self cell found
    obtain ⟨old, old_found, old_output, old_memory⟩ := earlier.self middle middle_found
    exact ⟨old, old_found, output_eq.trans old_output, memory_eq.trans old_memory⟩
  others id cell different found := by
    obtain ⟨middle, middle_found, shrinks⟩ := later.others id cell different found
    obtain ⟨old, old_found, old_shrinks⟩ := earlier.others id middle different middle_found
    exact ⟨old, old_found, old_shrinks.trans shrinks⟩

theorem take {own id : Nat} (different : id ≠ own) (world : World) :
    Drains own world (world.take id).2 := by
  rcases taken : world.take id with ⟨_ | tuple, rest⟩
  · obtain ⟨_, rfl⟩ := take_eq_none taken
    exact refl own rest
  · obtain ⟨source, queue, source_found, queue_eq, rfl⟩ := take_eq_some taken
    constructor
    · intro cell found
      rw [modifyOutput, getElem?_modifyCell_of_ne _ _ different.symm] at found
      exact ⟨cell, found, rfl, rfl⟩
    · intro other cell _ found
      by_cases same : other = id
      · subst same
        rw [modifyOutput, getElem?_modifyCell_self, source_found] at found
        obtain rfl := Option.some.inj found
        refine ⟨source, source_found, ⟨?_, fun _ member => member, fun guarded => guarded⟩, rfl⟩
        exact fun waiting member => .inl (queue_eq ▸ List.mem_cons_of_mem tuple member)
      · rw [modifyOutput, getElem?_modifyCell_of_ne _ _ same] at found
        exact ⟨cell, found, .refl cell⟩

theorem consume (own count : Nat) (world : World) :
    Drains own world (world.modifyCell own (·.consume count)) where
  self cell found := by
    rw [getElem?_modifyCell_self] at found
    obtain ⟨old, old_found, rfl⟩ := Option.map_eq_some_iff.mp found
    exact ⟨old, old_found, rfl, rfl⟩
  others id cell different found := by
    rw [getElem?_modifyCell_of_ne _ _ different] at found
    exact ⟨cell, found, .refl cell⟩

end Drains

/-- A world in which one operator has changed its own cell, and the outputs of the others lost
tuples at most. -/
structure Steps (own : Nat) (related : Cell → Cell → Prop) (before after : World) : Prop where
  /-- The operator itself has changed as described. -/
  self : ∀ cell, after.cells[own]? = some cell →
    ∃ old, before.cells[own]? = some old ∧ related old cell
  /-- The other operators gain nothing. -/
  others : ∀ id cell, id ≠ own → after.cells[id]? = some cell →
    ∃ old, before.cells[id]? = some old ∧ old.Shrinks cell

namespace Steps

variable {own : Nat} {related : Cell → Cell → Prop}

theorem of_drains {before after : World} (drains : Drains own before after)
    (unchanged : ∀ old cell : Cell, cell.output = old.output → cell.memory = old.memory →
      before.cells[own]? = some old → related old cell) : Steps own related before after where
  self cell found := by
    obtain ⟨old, old_found, output_eq, memory_eq⟩ := drains.self cell found
    exact ⟨old, old_found, unchanged old cell output_eq memory_eq old_found⟩
  others := drains.others

theorem modifyCell {before rest : World} {change : Cell → Cell} (drains : Drains own before rest)
    (changed : ∀ old cell : Cell, cell.output = old.output → cell.memory = old.memory →
      before.cells[own]? = some old → related old (change cell)) :
    Steps own related before (rest.modifyCell own change) where
  self cell found := by
    rw [getElem?_modifyCell_self] at found
    obtain ⟨middle, middle_found, rfl⟩ := Option.map_eq_some_iff.mp found
    obtain ⟨old, old_found, output_eq, memory_eq⟩ := drains.self middle middle_found
    exact ⟨old, old_found, changed old middle output_eq memory_eq old_found⟩
  others id cell different found := by
    rw [getElem?_modifyCell_of_ne _ _ different] at found
    exact drains.others id cell different found

theorem act {before rest : World} {header : OperatorHeader}
    {action : Cell → Cell × Except OperatorError Step} (drains : Drains header.id before rest)
    (acted : ∀ old cell : Cell, cell.output = old.output → cell.memory = old.memory →
      before.cells[header.id]? = some old → related old (action cell).1) :
    Steps header.id related before (rest.act header action).1 := by
  rw [World.act]
  split
  · rename_i cell found
    constructor
    · intro after after_found
      rw [getElem?_modifyCell_self, found] at after_found
      obtain rfl := Option.some.inj after_found
      obtain ⟨old, old_found, output_eq, memory_eq⟩ := drains.self cell found
      exact ⟨old, old_found, acted old cell output_eq memory_eq old_found⟩
    · intro id after different after_found
      rw [getElem?_modifyCell_of_ne _ _ different] at after_found
      exact drains.others id after different after_found
  · rename_i missing
    refine ⟨fun after after_found => ?_, drains.others⟩
    rw [missing] at after_found
    cases after_found

end Steps

/-! ## Operators that start over -/

/-- A change that is not felt twice is made once, however often an output is mentioned. -/
theorem getElem?_modifyOutputs (world : World) (ids : List Nat) (id : Nat)
    (change : Channel → Channel)
    (idempotent : ∀ channel, change (change channel) = change channel) :
    (world.modifyOutputs ids change).cells[id]? = world.cells[id]?.map fun cell =>
      { cell with output := if id ∈ ids then change cell.output else cell.output } := by
  induction ids generalizing world with
  | nil => simp [modifyOutputs]
  | cons first ids induction =>
      refine (induction (world.modifyOutput first change)).trans ?_
      by_cases same : id = first
      · subst same
        rw [modifyOutput, getElem?_modifyCell_self, Option.map_map]
        refine congrArg (Option.map · _) (funext fun cell => ?_)
        by_cases again : id ∈ ids <;> simp [again, idempotent]
      · simp [modifyOutput, getElem?_modifyCell_of_ne _ _ same, same]

theorem getElem?_modifyOutputs_of_not_mem (world : World) {ids : List Nat} {id : Nat}
    (absent : id ∉ ids) (change : Channel → Channel) :
    (world.modifyOutputs ids change).cells[id]? = world.cells[id]? := by
  induction ids generalizing world with
  | nil => rfl
  | cons first ids induction =>
      rw [List.mem_cons, not_or] at absent
      have later := induction (world.modifyOutput first change) absent.2
      rw [modifyOutput, getElem?_modifyCell_of_ne _ _ absent.1] at later
      exact later

theorem getElem?_restart_of_not_mem (world : World) (spared? : Option Nat) {ids : List Nat}
    {id : Nat} (absent : id ∉ ids) :
    (world.restart spared? ids).cells[id]? = world.cells[id]? := by
  induction ids generalizing world with
  | nil => rfl
  | cons first ids induction =>
      rw [List.mem_cons, not_or] at absent
      have later := induction (world.modifyCell first (·.restart (spared? = some first))) absent.2
      rw [getElem?_modifyCell_of_ne _ _ absent.1] at later
      exact later

/-- An operator that starts over is restarted, however often it is mentioned. -/
theorem getElem?_restart_of_mem (world : World) (spared? : Option Nat) {ids : List Nat} {id : Nat}
    (member : id ∈ ids) :
    (world.restart spared? ids).cells[id]? =
      world.cells[id]?.map (·.restart (spared? = some id)) := by
  induction ids generalizing world with
  | nil => cases member
  | cons first ids induction =>
      have head_restarts (same : id = first) :
          (world.modifyCell first (·.restart (spared? = some first))).cells[id]? =
            world.cells[id]?.map (·.restart (spared? = some id)) := by
        rw [← same, getElem?_modifyCell_self]
      by_cases later : id ∈ ids
      · refine
          (induction (world.modifyCell first (·.restart (spared? = some first))) later).trans ?_
        by_cases same : id = first
        · rw [head_restarts same, Option.map_map]
          exact congrArg (Option.map · _) (funext fun cell => cell.restart_restart _)
        · rw [getElem?_modifyCell_of_ne _ _ same]
      · have same : id = first := (List.mem_cons.mp member).resolve_right later
        exact (getElem?_restart_of_not_mem _ spared? later).trans (head_restarts same)

/-- An operator that starts over remembers nothing and, unless it is spared, has nothing to deliver.
-/
theorem restart_spec {world : World} {spared? : Option Nat} {ids : List Nat} {id : Nat}
    (member : id ∈ ids) {cell : Cell} (found : (world.restart spared? ids).cells[id]? = some cell) :
    cell.memory.reset = cell.memory ∧ (spared? ≠ some id → cell.output.queue = []) := by
  rw [getElem?_restart_of_mem world spared? member] at found
  obtain ⟨old, _, rfl⟩ := Option.map_eq_some_iff.mp found
  refine ⟨old.memory.reset_reset, fun unspared => ?_⟩
  simp [Cell.restart, unspared, Channel.clear]

end World

end StreamQuery
