import StreamQuery.Engine.Trace
import StreamQuery.Proofs.Channel

/-!
# Runs

A property of the world, of the evaluations so far and of the number of open commits holds
throughout a run if every evaluation, together with what the scheduler does in response, and every
other action keep it.
-/

namespace StreamQuery

namespace Action

/-- Whether an action is a turn of the scheduler. -/
def IsTurn : Action → Prop
  | wakeUp => True
  | _ => False

/-- The tuple that arrives at a source. -/
def arrival? (source : Nat) : Action → Option Tuple
  | arrive id tuple => if id = source then some tuple else none
  | _ => none

end Action

/-! ## Arrivals -/

/-- All tuples that arrive at a source, in order. -/
def arrivalsAt (source : Nat) (actions : List Action) : List Tuple :=
  actions.filterMap (Action.arrival? source)

theorem arrivalsAt_append (source : Nat) (earlier later : List Action) :
    arrivalsAt source (earlier ++ later) = arrivalsAt source earlier ++ arrivalsAt source later :=
  List.filterMap_append

theorem arrivalsAt_of_no_arrival {source : Nat} {action : Action}
    (quiet : action.arrival? source = none) : arrivalsAt source [action] = [] := by
  simp [arrivalsAt, quiet]

@[simp] theorem arrivalsAt_arrive (source : Nat) (tuple : Tuple) :
    arrivalsAt source [.arrive source tuple] = [tuple] := by
  simp [arrivalsAt, Action.arrival?]

/-! ## Results of a log -/

namespace Firing

theorem sentBy_append_self (log : List Firing) (firing : Firing) :
    sentBy firing.operator.id (log ++ [firing]) = sentBy firing.operator.id log ++ firing.sent := by
  rw [sentBy, List.flatMap_append, List.flatMap_singleton, if_pos rfl]
  rfl

theorem sentBy_append_of_ne (log : List Firing) {firing : Firing} {id : Nat}
    (different : firing.operator.id ≠ id) :
    sentBy id (log ++ [firing]) = sentBy id log := by
  rw [sentBy, List.flatMap_append, List.flatMap_singleton, if_neg different, List.append_nil]
  rfl

theorem mem_sentBy {id : Nat} {log : List Firing} {result : Tuple} :
    result ∈ sentBy id log ↔
      ∃ firing ∈ log, firing.operator.id = id ∧ result ∈ firing.sent := by
  rw [sentBy, List.mem_flatMap]
  constructor
  · rintro ⟨firing, member, sent⟩
    split at sent
    · exact ⟨firing, member, ‹_›, sent⟩
    · cases sent
  · rintro ⟨firing, member, id_eq, sent⟩
    exact ⟨firing, member, by rwa [if_pos id_eq]⟩

end Firing

/-! ## Steps of the scheduler -/

namespace Schedule

theorem react_eq_self_of_isSignal_eq_false (schedule : Schedule) (execution : Execution)
    (step : Step) (quiet : step.isSignal = false) : schedule.react execution step = execution := by
  rw [react]
  split <;> cases step <;> first | rfl | cases quiet

theorem react_of_isPessimistic {schedule : Schedule}
    (pessimistic : schedule.mode.isPessimistic = true) (execution : Execution) (step : Step) :
    schedule.react execution step = schedule.reactPessimistically execution step := by
  rw [react]
  cases mode_eq : schedule.mode <;> simp [mode_eq, Mode.isPessimistic] at pessimistic <;> rfl

@[simp] theorem endTransaction_openCommits (schedule : Schedule) (execution : Execution)
    (waiting : Int) : (schedule.endTransaction execution waiting).openCommits = 0 := by
  rw [endTransaction]
  simp only
  split <;> rfl

/-- Actions from outside change no counter of the scheduler. -/
theorem metrics_perform (schedule : Schedule) (execution : Execution) {action : Action}
    (external : ¬action.IsTurn) :
    (schedule.perform execution action).metrics = execution.metrics := by
  cases action <;> first | rfl | exact absurd trivial external

theorem actionFirings_of_external (schedule : Schedule) (execution : Execution) {action : Action}
    (external : ¬action.IsTurn) : schedule.actionFirings execution action = [] := by
  cases action <;> first | rfl | exact absurd trivial external

/-- A property of worlds holds after a response of the scheduler if it survives the three things
that responses are made of. -/
theorem react_preserves {schedule : Schedule} (property : World → Prop)
    (shrinks : ∀ world (change : Channel → Channel),
      (∀ channel : Channel, channel.Shrinks (change channel)) → property world →
      property (world.modifyOutputs schedule.redo.streams change))
    (restarts : ∀ world, property world →
      property (world.restart schedule.commit? schedule.redo.operators))
    (ends : ∀ world, property world →
      property (world.endTransactions schedule.mode schedule.order))
    {execution : Execution} (step : Step) (holds : property execution.world) :
    property (schedule.react execution step).world := by
  have commits (mark : Int) := shrinks _ _ (Channel.shrinks_evictBefore · mark) holds
  have redoes {world : World} (holds : property world) :=
    shrinks _ _ Channel.shrinks_recover (restarts world holds)
  have pessimistically : property (schedule.reactPessimistically execution step).world := by
    cases step with
    | pendingAbort waiting =>
        rw [reactPessimistically]
        split
        · rw [endTransaction]
          simp only
          split
          · exact restarts _ (shrinks _ _ (Channel.shrinks_evictAndRewind · waiting) (ends _ holds))
          · exact ends _ holds
        · exact holds
    | _ => exact holds
  rw [react]
  cases schedule.mode with
  | uncontrolled => exact holds
  | optimistic =>
      cases step with
      | lostConsistency committed? =>
          cases committed? with
          | none => exact redoes holds
          | some mark => exact redoes (commits mark)
      | commit mark => exact commits mark
      | _ => exact holds
  | twoPhaseLocking => exact pessimistically
  | snapshot => exact pessimistically

/-- What is kept by each part of a turn and by other actions, where it may depend on everything that
changes in a run. -/
structure Maintains (schedule : Schedule) (allowed : Action → Prop)
    (motive : List Firing → Execution → Prop) : Prop where
  /-- The operator after the next one will be evaluated next. -/
  advances : ∀ log execution, motive log execution → motive log (schedule.advanceCursor execution)
  /-- An evaluation that fails is followed by nothing. -/
  fails : ∀ log execution operator after error, operator ∈ schedule.order →
    motive log execution →
    execution.world.evaluate (schedule.role operator.id) operator = (after, .error error) →
    motive (log ++ [schedule.fire operator execution.world]) { execution with world := after }
  /-- An evaluation that succeeds is counted, and followed by the reaction to its step. -/
  succeeds : ∀ log execution operator after step, operator ∈ schedule.order →
    motive log execution →
    execution.world.evaluate (schedule.role operator.id) operator = (after, .ok step) →
    motive (log ++ [schedule.fire operator execution.world])
      (schedule.react (({ execution with world := after }).countStep step) step)
  /-- Actions from outside. -/
  acts : ∀ log execution action, allowed action → ¬action.IsTurn → motive log execution →
    motive log (schedule.perform execution action)

namespace Maintains

variable {schedule : Schedule} {allowed : Action → Prop} {motive : List Firing → Execution → Prop}

/-- The execution after a turn: the scheduler reacts to the step of the last evaluation. -/
private def settled (schedule : Schedule) :
    Execution × Except ControlError Step → Execution
  | (after, .error _) => after
  | (after, .ok step) => schedule.react after step

private theorem batch (maintains : schedule.Maintains allowed motive) {operator : QueryTree}
    (member : operator ∈ schedule.order) (count : Nat) :
    ∀ log execution, motive log execution →
      motive (log ++ schedule.batchFirings operator count execution)
        (settled schedule (schedule.evaluateBatch operator count execution)) := by
  induction count with
  | zero =>
      intro log execution holds
      simpa [batchFirings, evaluateBatch, settled,
        schedule.react_eq_self_of_isSignal_eq_false execution .idle rfl] using holds
  | succ count induction =>
      intro log execution holds
      rw [batchFirings, evaluateBatch]
      rcases evaluated : execution.world.evaluate (schedule.role operator.id) operator with
        ⟨after, error | step⟩
      · exact maintains.fails log execution operator after error member holds evaluated
      · have next := maintains.succeeds log execution operator after step member holds evaluated
        by_cases last : step = .idle ∨ step.isSignal = true
        · simpa [last, settled] using next
        · have quiet : step.isSignal = false := by simpa using fun signals => last (.inr signals)
          rw [schedule.react_eq_self_of_isSignal_eq_false _ _ quiet] at next
          simpa [last] using induction _ _ next

/-- One turn of the scheduler keeps what is maintained. -/
theorem turn (maintains : schedule.Maintains allowed motive) {log : List Firing}
    {execution : Execution} (holds : motive log execution) :
    motive (log ++ schedule.firings execution) (schedule.wakeUp execution).1 := by
  rw [firings, wakeUp]
  cases found : schedule.order[execution.cursor]? with
  | none => simpa using holds
  | some operator =>
      have member : operator ∈ schedule.order := List.mem_of_getElem? found
      have batch := maintains.batch member execution.batchCount log _
        (maintains.advances log execution holds)
      rcases outcome : schedule.evaluateBatch operator execution.batchCount
        (schedule.advanceCursor execution) with ⟨after, error | step⟩
      · simpa [outcome, settled] using batch
      · simpa [outcome, settled] using batch

/-- A whole run keeps what is maintained. -/
theorem run (maintains : schedule.Maintains allowed motive) {actions : List Action}
    (all_allowed : ∀ action ∈ actions, allowed action) {log : List Firing} {execution : Execution}
    (holds : motive log execution) :
    motive (log ++ schedule.trace execution actions) (schedule.performAll execution actions) := by
  induction actions generalizing log execution with
  | nil => simpa [trace, performAll] using holds
  | cons action actions induction =>
      have next : motive (log ++ schedule.actionFirings execution action)
          (schedule.perform execution action) := by
        by_cases is_turn : action.IsTurn
        · cases action with
          | wakeUp => exact maintains.turn holds
          | _ => cases is_turn
        · rw [actionFirings_of_external schedule execution is_turn, List.append_nil]
          exact maintains.acts log execution action (all_allowed action (by simp)) is_turn holds
      simpa [trace, performAll] using
        induction (fun later member => all_allowed later (by simp [member])) next

end Maintains

/-- What is kept by evaluations, by the reactions to them and by other actions, where it depends on
the number of commits since the last transaction ended. -/
structure Sustains (schedule : Schedule) (allowed : Action → Prop)
    (motive : List Firing → World → Nat → Prop) : Prop where
  /-- An evaluation that fails is followed by nothing. -/
  fails : ∀ log world commits operator after error, operator ∈ schedule.order →
    motive log world commits →
    world.evaluate (schedule.role operator.id) operator = (after, .error error) →
    motive (log ++ [schedule.fire operator world]) after commits
  /-- An evaluation that succeeds is followed by the reaction to its step. -/
  succeeds : ∀ log world operator after step execution, operator ∈ schedule.order →
    motive log world execution.openCommits →
    world.evaluate (schedule.role operator.id) operator = (after, .ok step) →
    execution.world = after →
    motive (log ++ [schedule.fire operator world]) (schedule.react execution step).world
      (schedule.react execution step).openCommits
  /-- Actions from outside. -/
  acts : ∀ log execution action, allowed action → ¬action.IsTurn →
    motive log execution.world execution.openCommits →
    motive log (schedule.perform execution action).world
      (schedule.perform execution action).openCommits

namespace Sustains

variable {schedule : Schedule} {allowed : Action → Prop}
  {motive : List Firing → World → Nat → Prop}

/-- What is sustained is maintained, however often was counted. -/
theorem maintains (sustains : schedule.Sustains allowed motive) :
    schedule.Maintains allowed fun log execution =>
      motive log execution.world execution.openCommits where
  advances _ _ holds := holds
  fails log execution := sustains.fails log execution.world execution.openCommits
  succeeds log execution operator after step member holds evaluated :=
    sustains.succeeds log execution.world operator after step _ member holds evaluated rfl
  acts := sustains.acts

/-- One turn of the scheduler keeps what is sustained. -/
theorem turn (sustains : schedule.Sustains allowed motive) {log : List Firing}
    {execution : Execution} (holds : motive log execution.world execution.openCommits) :
    motive (log ++ schedule.firings execution) (schedule.wakeUp execution).1.world
      (schedule.wakeUp execution).1.openCommits :=
  sustains.maintains.turn holds

/-- A whole run keeps what is sustained. -/
theorem run (sustains : schedule.Sustains allowed motive) {actions : List Action}
    (all_allowed : ∀ action ∈ actions, allowed action) {log : List Firing} {execution : Execution}
    (holds : motive log execution.world execution.openCommits) :
    motive (log ++ schedule.trace execution actions)
      (schedule.performAll execution actions).world
      (schedule.performAll execution actions).openCommits :=
  sustains.maintains.run all_allowed holds

end Sustains

/-- What is kept by evaluations, by the reactions to them and by other actions. -/
structure Preserves (schedule : Schedule) (allowed : Action → Prop)
    (motive : List Firing → World → Prop) : Prop where
  /-- An evaluation that fails is followed by nothing. -/
  fails : ∀ log world operator after error, operator ∈ schedule.order → motive log world →
    world.evaluate (schedule.role operator.id) operator = (after, .error error) →
    motive (log ++ [schedule.fire operator world]) after
  /-- An evaluation that succeeds is followed by the reaction to its step. -/
  succeeds : ∀ log world operator after step execution, operator ∈ schedule.order →
    motive log world →
    world.evaluate (schedule.role operator.id) operator = (after, .ok step) →
    execution.world = after →
    motive (log ++ [schedule.fire operator world]) (schedule.react execution step).world
  /-- Actions from outside. -/
  acts : ∀ log execution action, allowed action → ¬action.IsTurn → motive log execution.world →
    motive log (schedule.perform execution action).world

namespace Preserves

variable {schedule : Schedule} {allowed : Action → Prop} {motive : List Firing → World → Prop}

/-- What is preserved is sustained however many commits there were. -/
theorem sustains (preserves : schedule.Preserves allowed motive) :
    schedule.Sustains allowed fun log world _ => motive log world where
  fails log world _ := preserves.fails log world
  succeeds := preserves.succeeds
  acts := preserves.acts

/-- What is preserved separately is preserved together. -/
theorem and {other : List Firing → World → Prop} (preserves : schedule.Preserves allowed motive)
    (also : schedule.Preserves allowed other) :
    schedule.Preserves allowed fun log world => motive log world ∧ other log world where
  fails log world operator after error member holds evaluated :=
    ⟨preserves.fails log world operator after error member holds.1 evaluated,
      also.fails log world operator after error member holds.2 evaluated⟩
  succeeds log world operator after step execution member holds evaluated world_eq :=
    ⟨preserves.succeeds log world operator after step execution member holds.1 evaluated world_eq,
      also.succeeds log world operator after step execution member holds.2 evaluated world_eq⟩
  acts log execution action action_allowed external holds :=
    ⟨preserves.acts log execution action action_allowed external holds.1,
      also.acts log execution action action_allowed external holds.2⟩

/-- Every firing starts where what is preserved holds. -/
theorem records (preserves : schedule.Preserves allowed motive) :
    schedule.Preserves allowed fun log world => motive log world ∧
      ∀ firing ∈ log, firing.operator ∈ schedule.order ∧
        firing = schedule.fire firing.operator firing.before ∧
        ∃ earlier, motive earlier firing.before := by
  have fire {log : List Firing} {world : World} {operator : QueryTree}
      (member : operator ∈ schedule.order) (holds : motive log world)
      (recorded : ∀ firing ∈ log, firing.operator ∈ schedule.order ∧
        firing = schedule.fire firing.operator firing.before ∧
        ∃ earlier, motive earlier firing.before) :
      ∀ firing ∈ log ++ [schedule.fire operator world], firing.operator ∈ schedule.order ∧
        firing = schedule.fire firing.operator firing.before ∧
        ∃ earlier, motive earlier firing.before := by
    intro firing firing_mem
    rcases List.mem_append.mp firing_mem with old | newest
    · exact recorded firing old
    · obtain rfl := List.mem_singleton.mp newest
      exact ⟨member, rfl, log, holds⟩
  refine ⟨fun log world operator after error member holds evaluated => ?_,
    fun log world operator after step execution member holds evaluated world_eq => ?_,
    fun log execution action action_allowed external holds => ?_⟩
  · exact ⟨preserves.fails log world operator after error member holds.1 evaluated,
      fire member holds.1 holds.2⟩
  · exact ⟨preserves.succeeds log world operator after step execution member holds.1 evaluated
      world_eq, fire member holds.1 holds.2⟩
  · exact ⟨preserves.acts log execution action action_allowed external holds.1, holds.2⟩

/-- One turn of the scheduler keeps what is preserved. -/
theorem turn (preserves : schedule.Preserves allowed motive) {log : List Firing}
    {execution : Execution} (holds : motive log execution.world) :
    motive (log ++ schedule.firings execution) (schedule.wakeUp execution).1.world :=
  preserves.sustains.turn holds

/-- A whole run keeps what is preserved. -/
theorem run (preserves : schedule.Preserves allowed motive) {actions : List Action}
    (all_allowed : ∀ action ∈ actions, allowed action) {log : List Firing} {execution : Execution}
    (holds : motive log execution.world) :
    motive (log ++ schedule.trace execution actions)
      (schedule.performAll execution actions).world :=
  preserves.sustains.run all_allowed holds

end Preserves

end Schedule

end StreamQuery
