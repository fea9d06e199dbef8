import StreamQuery.Proofs.Downstream
import StreamQuery.Proofs.Engine.Moves

/-!
# Responses of the scheduler

What a response to a step does to outputs and to memories: backups lose tuples, and if the redo area
starts over, its operators forget, their outputs are emptied, and backups wait in place of the
queues that lead into the area.
-/

namespace StreamQuery

namespace World

variable {world : World} {id : Nat} {ids : List Nat}

theorem memory?_modifyOutput (world : World) (id other : Nat) (change : Channel → Channel) :
    (world.modifyOutput id change).memory? other = world.memory? other := by
  by_cases same : other = id
  · subst same
    rw [memory?, memory?, modifyOutput, getElem?_modifyCell_self, Option.map_map]
    rfl
  · exact memory?_modifyCell_of_ne _ same _

@[simp] theorem memory?_modifyOutputs (world : World) (ids : List Nat)
    (change : Channel → Channel) (id : Nat) :
    (world.modifyOutputs ids change).memory? id = world.memory? id := by
  induction ids generalizing world with
  | nil => rfl
  | cons first ids induction =>
      exact (induction (world.modifyOutput first change)).trans (memory?_modifyOutput _ _ _ _)

/-- A change that is not felt twice is made once, however often an output is mentioned. -/
theorem output_modifyOutputs (ids : List Nat) {change : Channel → Channel} (empty : change {} = {})
    (idempotent : ∀ channel, change (change channel) = change channel) :
    (world.modifyOutputs ids change).output id =
      if id ∈ ids then change (world.output id) else world.output id := by
  rw [output, getElem?_modifyOutputs _ _ _ _ idempotent]
  cases found : world.cells[id]? with
  | none => simp [output_of_getElem?_eq_none found, empty]
  | some cell => simp [output_of_getElem? found]

theorem memory?_restart (spared? : Option Nat) :
    (world.restart spared? ids).memory? id =
      if id ∈ ids then (world.memory? id).map Memory.reset else world.memory? id := by
  split
  · rename_i member
    rw [memory?, getElem?_restart_of_mem _ _ member, Option.map_map, memory?, Option.map_map]
    rfl
  · rename_i absent
    rw [memory?, memory?, getElem?_restart_of_not_mem _ _ absent]

theorem output_restart (spared? : Option Nat) :
    (world.restart spared? ids).output id =
      if id ∈ ids ∧ spared? ≠ some id then (world.output id).clear else world.output id := by
  by_cases member : id ∈ ids
  · rw [output, getElem?_restart_of_mem _ _ member]
    cases found : world.cells[id]? with
    | none => simp [output_of_getElem?_eq_none found, Channel.clear]
    | some cell => by_cases spared : spared? = some id <;>
        simp [output_of_getElem? found, Cell.restart, spared, member]
  · rw [output, getElem?_restart_of_not_mem _ _ member, if_neg (by simp [member])]
    rfl

end World

namespace Channel

@[simp] theorem recover_recover (channel : Channel) : channel.recover.recover = channel.recover :=
  rfl

@[simp] theorem evictBefore_evictBefore (channel : Channel) (mark : Int) :
    (channel.evictBefore mark).evictBefore mark = channel.evictBefore mark := by
  simp [evictBefore]

@[simp] theorem evictAndRewind_evictAndRewind (channel : Channel) (mark : Int) :
    (channel.evictAndRewind mark).evictAndRewind mark = channel.evictAndRewind mark := by
  simp [evictAndRewind, evictBefore, recover]

end Channel

namespace Schedule

/-- What a response leaves of an output: a part of the backup. -/
structure Evicts (before after : World) (id : Nat) : Prop where
  /-- What waits stays. -/
  queue : (after.output id).queue = (before.output id).queue
  /-- The backup loses tuples at most. -/
  backup : (after.output id).backup.Sublist (before.output id).backup
  /-- Protection stays. -/
  isProtected : (after.output id).isProtected = (before.output id).isProtected
  /-- What is remembered stays. -/
  memory : after.memory? id = before.memory? id

/-- What is left when the redo area starts over. -/
structure Restarts (schedule : Schedule) (before after : World) (id : Nat) : Prop where
  /-- The backup loses tuples at most. -/
  backup : (after.output id).backup.Sublist (before.output id).backup
  /-- Protection stays. -/
  isProtected : (after.output id).isProtected = (before.output id).isProtected
  /-- Operators of the area forget. -/
  memory : after.memory? id =
    if id ∈ schedule.redo.operators then (before.memory? id).map Memory.reset
    else before.memory? id
  /-- At the inlets only what is in the backup waits. -/
  delivered : id ∈ schedule.redo.streams →
    (after.output id).queue.Sublist (after.output id).backup
  /-- Elsewhere in the area nothing waits, except results of the commit operator. -/
  queue : id ∉ schedule.redo.streams → (after.output id).queue =
    if id ∈ schedule.redo.operators ∧ schedule.commit? ≠ some id then []
    else (before.output id).queue

variable {schedule : Schedule} {execution : Execution}

theorem Evicts.refl (world : World) (id : Nat) : Evicts world world id :=
  ⟨rfl, .refl _, rfl, rfl⟩

theorem Restarts.of_evicts {before middle after : World} {id : Nat}
    (evicts : Evicts before middle id) (restarts : schedule.Restarts middle after id) :
    schedule.Restarts before after id where
  backup := restarts.backup.trans evicts.backup
  isProtected := restarts.isProtected.trans evicts.isProtected
  memory := by rw [restarts.memory, evicts.memory]
  delivered := restarts.delivered
  queue outside := by rw [restarts.queue outside, evicts.queue]

/-! ## Commits -/

theorem output_commitBefore (execution : Execution) (mark : Int) (id : Nat) :
    (schedule.commitBefore execution mark).world.output id =
      if id ∈ schedule.redo.streams then (execution.world.output id).evictBefore mark
      else execution.world.output id :=
  World.output_modifyOutputs _ rfl fun _ => Channel.evictBefore_evictBefore _ _

theorem memory?_commitBefore (execution : Execution) (mark : Int) (id : Nat) :
    (schedule.commitBefore execution mark).world.memory? id = execution.world.memory? id :=
  World.memory?_modifyOutputs _ _ _ _

theorem evicts_commitBefore (execution : Execution) (mark : Int) (id : Nat) :
    Evicts execution.world (schedule.commitBefore execution mark).world id := by
  constructor
  · rw [output_commitBefore]
    split <;> rfl
  · rw [output_commitBefore]
    split
    · exact List.filter_sublist
    · exact .refl _
  · rw [output_commitBefore]
    split <;> rfl
  · exact memory?_commitBefore _ _ _

/-! ## Repetitions -/

theorem output_redoArea (execution : Execution) (id : Nat) :
    (schedule.redoArea execution).world.output id =
      if id ∈ schedule.redo.streams then
        (if id ∈ schedule.redo.operators ∧ schedule.commit? ≠ some id then
          (execution.world.output id).clear
        else execution.world.output id).recover
      else if id ∈ schedule.redo.operators ∧ schedule.commit? ≠ some id then
        (execution.world.output id).clear
      else execution.world.output id := by
  rw [← World.output_restart schedule.commit?]
  exact World.output_modifyOutputs _ rfl fun _ => Channel.recover_recover _

theorem memory?_redoArea (execution : Execution) (id : Nat) :
    (schedule.redoArea execution).world.memory? id =
      if id ∈ schedule.redo.operators then (execution.world.memory? id).map Memory.reset
      else execution.world.memory? id := by
  rw [← World.memory?_restart schedule.commit?]
  exact World.memory?_modifyOutputs _ _ _ _

theorem restarts_redoArea (execution : Execution) (id : Nat) :
    schedule.Restarts execution.world (schedule.redoArea execution).world id := by
  refine ⟨?_, ?_, memory?_redoArea _ _, fun inlet => ?_, fun outside => ?_⟩
  · rw [output_redoArea]
    split <;> split <;> exact .refl _
  · rw [output_redoArea]
    split <;> split <;> rfl
  · rw [output_redoArea, if_pos inlet]
    exact .refl _
  · rw [output_redoArea, if_neg outside]
    split <;> rfl

/-! ## Ends of transactions -/

theorem output_endTransaction (replays : schedule.replaysArea = true) (execution : Execution)
    (waiting : Int) (id : Nat) :
    (schedule.endTransaction execution waiting).world.output id =
      if id ∈ schedule.redo.operators ∧ schedule.commit? ≠ some id then
        (if id ∈ schedule.redo.streams then
          (execution.world.output id).evictAndRewind waiting
        else execution.world.output id).clear
      else if id ∈ schedule.redo.streams then
        (execution.world.output id).evictAndRewind waiting
      else execution.world.output id := by
  have rewound : ((execution.world.endTransactions schedule.mode schedule.order).modifyOutputs
      schedule.redo.streams (·.evictAndRewind waiting)).output id =
        if id ∈ schedule.redo.streams then (execution.world.output id).evictAndRewind waiting
        else execution.world.output id :=
    World.output_modifyOutputs _ rfl fun _ => Channel.evictAndRewind_evictAndRewind _ _
  rw [← rewound, endTransaction]
  simp only [replays, if_true]
  exact World.output_restart _

theorem memory?_endTransaction (replays : schedule.replaysArea = true) (execution : Execution)
    (waiting : Int) (id : Nat) :
    (schedule.endTransaction execution waiting).world.memory? id =
      if id ∈ schedule.redo.operators then (execution.world.memory? id).map Memory.reset
      else execution.world.memory? id := by
  have kept : ((execution.world.endTransactions schedule.mode schedule.order).modifyOutputs
      schedule.redo.streams (·.evictAndRewind waiting)).memory? id = execution.world.memory? id :=
    World.memory?_modifyOutputs _ _ _ _
  rw [← kept, endTransaction]
  simp only [replays, if_true]
  exact World.memory?_restart _

theorem restarts_endTransaction (replays : schedule.replaysArea = true) (execution : Execution)
    (waiting : Int) (id : Nat) :
    schedule.Restarts execution.world (schedule.endTransaction execution waiting).world id := by
  refine ⟨?_, ?_, memory?_endTransaction replays _ _ _, fun inlet => ?_, fun outside => ?_⟩
  · rw [output_endTransaction replays]
    split <;> split <;> first | exact List.filter_sublist | exact .refl _
  · rw [output_endTransaction replays]
    split <;> split <;> rfl
  · rw [output_endTransaction replays]
    split
    · exact List.nil_sublist _
    · exact .refl _
  · rw [output_endTransaction replays, if_neg outside]
    split <;> rfl

/-! ## Responses -/

/-- Where the redo area does not start over, a response takes tuples out of backups at most. -/
theorem evicts_react {step : Step} (stays : ¬schedule.StartsOver execution step) (id : Nat) :
    Evicts execution.world (schedule.react execution step).world id := by
  have same : Evicts execution.world execution.world id := .refl _ _
  have pessimistically (pessimistic : schedule.mode.isPessimistic = true) :
      Evicts execution.world (schedule.reactPessimistically execution step).world id := by
    cases step with
    | pendingAbort waiting =>
        rw [reactPessimistically]
        split
        · rename_i complete
          have keeps : ¬schedule.replaysArea = true := fun replays =>
            stays ⟨pessimistic, complete, replays⟩
          rw [endTransaction]
          simp only [keeps, Bool.false_eq_true, if_false]
          exact ⟨rfl, .refl _, rfl, rfl⟩
        · exact same
    | _ => exact same
  rw [react]
  cases mode : schedule.mode with
  | uncontrolled => exact same
  | optimistic =>
      cases step with
      | commit mark => exact evicts_commitBefore execution mark id
      | lostConsistency committed? => exact absurd mode stays
      | _ => exact same
  | twoPhaseLocking => exact pessimistically (by rw [mode]; rfl)
  | snapshot => exact pessimistically (by rw [mode]; rfl)

/-- What is left when the redo area starts over in response to a step. -/
theorem restarts_react {step : Step} (starts : schedule.StartsOver execution step) (id : Nat) :
    schedule.Restarts execution.world (schedule.react execution step).world id := by
  cases step with
  | lostConsistency committed? =>
      have mode : schedule.mode = .optimistic := starts
      rw [react]
      simp only [mode, reactOptimistically]
      cases committed? with
      | none => exact restarts_redoArea execution id
      | some mark =>
          exact (restarts_redoArea _ id).of_evicts (evicts_commitBefore execution mark id)
  | pendingAbort waiting =>
      obtain ⟨pessimistic, complete, replays⟩ := starts
      rw [react_of_isPessimistic pessimistic, reactPessimistically, if_pos complete]
      exact restarts_endTransaction replays execution waiting id
  | _ => exact starts.elim

end Schedule

end StreamQuery
