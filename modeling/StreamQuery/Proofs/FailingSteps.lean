import StreamQuery.Proofs.EndOfStream
import StreamQuery.Proofs.Engine.Failures
import StreamQuery.Proofs.OptimisticCounters

/-!
# Steps that fail

What a step that fails leaves behind. Its operator has sent nothing, unless it is a join that was
closed by a marker in the same step: the marker is sent before the join fails, and it is not
counted. So an operator has sent as many tuples as it has counted, and one more for each such
marker.
-/

namespace StreamQuery

namespace Firing

/-- The marker that closes the operator, if it is a join, before it looks at a tuple. -/
def closingMarkers (firing : Firing) : List Tuple :=
  firing.before.closingMarkers firing.operator

theorem sentBy_cons (id : Nat) (firing : Firing) (log : List Firing) :
    sentBy id (firing :: log) =
      (if firing.operator.id = id then firing.sent else []) ++ sentBy id log :=
  List.flatMap_cons

/-- What was sent is what has been added to the output. -/
theorem sent_of_output_eq {firing : Firing} {results : List Tuple}
    (output_eq : firing.after.output firing.operator.id =
      (firing.before.output firing.operator.id).enqueueAll results) : firing.sent = results := by
  rw [sent, output_eq, Channel.enqueueAll_queue, List.drop_left]

end Firing

namespace Schedule

variable {schedule : Schedule}

/-- The markers that failing steps of an operator have left behind. -/
def leftBy (schedule : Schedule) (id : Nat) (log : List Firing) : List Tuple :=
  (log.filter fun firing => firing.operator.id = id && !schedule.succeeds firing).flatMap
    Firing.closingMarkers

/-- Every operator has counted what it sent in the steps that did not fail. -/
def CountsSent (schedule : Schedule) (log : List Firing) (world : World) : Prop :=
  ∀ operator ∈ schedule.order, world.emitted? operator.id =
    some (Firing.sentBy operator.id (log.filter schedule.succeeds)).length

/-- An operator that is evaluated succeeds if its evaluation does. -/
theorem succeeds_fire (schedule : Schedule) (operator : QueryTree) (world : World) :
    schedule.succeeds (schedule.fire operator world) =
      (world.evaluate (schedule.role operator.id) operator).2.isOk :=
  rfl

/-- The responses of the scheduler count nothing. -/
theorem emitted?_react (schedule : Schedule) (execution : Execution) (step : Step) (id : Nat) :
    (schedule.react execution step).world.emitted? id = execution.world.emitted? id :=
  schedule.react_preserves (·.emitted? id = execution.world.emitted? id)
    (fun _ _ _ same => (World.emitted?_modifyOutputs _ _ _ _).trans same)
    (fun _ same => (World.emitted?_restart _ _ _ _).trans same) (fun _ same => same) step rfl

theorem emitted?_perform (schedule : Schedule) (execution : Execution) {action : Action}
    (external : ¬action.IsTurn) (id : Nat) :
    (schedule.perform execution action).world.emitted? id = execution.world.emitted? id := by
  cases action with
  | arrive source tuple => exact World.emitted?_modifyArrivals _ _ _ _
  | collect operator =>
      exact World.emitted?_modifyCell _ operator
        (fun cell => { cell with output := cell.output.clear }) (fun _ => rfl) id
  | wakeUp => exact absurd trivial external
  | _ => rfl

/-- All that an operator has sent is what it sent in steps that did not fail, and the markers that
it left behind in the others. -/
theorem length_sentBy {log : List Firing}
    (left : ∀ firing ∈ log, schedule.succeeds firing = false →
      firing.sent = firing.closingMarkers) (id : Nat) :
    (Firing.sentBy id log).length =
      (Firing.sentBy id (log.filter schedule.succeeds)).length +
        (schedule.leftBy id log).length := by
  induction log with
  | nil => rfl
  | cons firing log induction =>
      have later := induction fun other member => left other (List.mem_cons_of_mem _ member)
      rw [Firing.sentBy_cons, List.length_append, later]
      cases succeeded : schedule.succeeds firing with
      | true =>
          rw [List.filter_cons_of_pos succeeded, Firing.sentBy_cons, List.length_append,
            Nat.add_assoc]
          simp [leftBy, succeeded]
      | false =>
          rw [List.filter_cons_of_neg (by simp [succeeded]),
            left firing List.mem_cons_self succeeded]
          by_cases own : firing.operator.id = id
          · simp [leftBy, own, succeeded, Nat.add_left_comm]
          · simp [leftBy, own]

end Schedule

namespace Deployment

variable {deployment : Deployment} {operator : QueryTree}

theorem evaluate_countsSent (deployment : Deployment) (world : World) (role : CommitRole)
    (member : operator ∈ deployment.schedule.order) :
    World.CountsSent operator.id (world.closingMarkers operator) world
      (world.evaluate role operator) := by
  rw [order_eq] at member
  exact World.evaluate_countsSent deployment.forest world role
    (deployment.forest.mem_of_mem_postOrder deployment.tree_mem member).1

/-- Steps that do not fail count what they send, and the others count nothing. -/
theorem preserves_countsSent (deployment : Deployment) :
    deployment.schedule.Preserves (fun _ => True) deployment.schedule.CountsSent where
  fails log world operator after error member holds evaluated other other_mem := by
    have counts :=
      deployment.evaluate_countsSent world (deployment.schedule.role operator.id) member
    rw [evaluated] at counts
    have failed :
        deployment.schedule.succeeds (deployment.schedule.fire operator world) = false := by
      rw [Schedule.succeeds_fire, evaluated]
      rfl
    rw [List.filter_append, List.filter_cons_of_neg (by simp [failed]), List.filter_nil,
      List.append_nil]
    by_cases same : other.id = operator.id
    · rw [same]
      exact (counts.of_error (same ▸ holds other other_mem) rfl).2
    · exact (counts.others other.id same).trans (holds other other_mem)
  succeeds log world operator after step execution member holds evaluated world_eq other
      other_mem := by
    have counts :=
      deployment.evaluate_countsSent world (deployment.schedule.role operator.id) member
    rw [evaluated] at counts
    have succeeded : deployment.schedule.succeeds (deployment.schedule.fire operator world) =
        true := by
      rw [Schedule.succeeds_fire, evaluated]
      rfl
    rw [Schedule.emitted?_react, world_eq, List.filter_append, List.filter_cons_of_pos succeeded,
      List.filter_nil]
    by_cases same : other.id = operator.id
    · obtain ⟨results, output_eq, emitted_eq⟩ :=
        counts.of_ok (same ▸ holds other other_mem) rfl
      have sent_eq : (deployment.schedule.fire operator world).sent = results :=
        Firing.sent_of_output_eq (by
          rw [Schedule.fire, evaluated]
          exact output_eq)
      rw [same]
      refine emitted_eq.trans (congrArg some ?_)
      have sends := Firing.sentBy_append_self (log.filter deployment.schedule.succeeds)
        (deployment.schedule.fire operator world)
      rw [sent_eq] at sends
      exact (List.length_append.symm).trans (congrArg List.length sends).symm
    · rw [Firing.sentBy_append_of_ne _ (Ne.symm same)]
      exact (counts.others other.id same).trans (holds other other_mem)
  acts log execution action _ external holds other other_mem :=
    (deployment.schedule.emitted?_perform execution external other.id).trans (holds other other_mem)

/-- Throughout a run every operator has counted what it sent in the steps that did not fail, and
every step starts from such a world. -/
theorem run_countsSent (deployment : Deployment) (actions : List Action) :
    deployment.schedule.CountsSent (deployment.trace actions) (deployment.run actions).world ∧
      ∀ firing ∈ deployment.trace actions, firing.operator ∈ deployment.schedule.order ∧
        firing = deployment.schedule.fire firing.operator firing.before ∧
        ∃ earlier, deployment.schedule.CountsSent earlier firing.before := by
  have starts : deployment.schedule.CountsSent [] deployment.start.world := by
    intro operator member
    rw [World.emitted?, deployment.getElem?_start (deployment.order_eq ▸ member)]
    rfl
  have any_action : ∀ action ∈ actions, True := fun _ _ => trivial
  exact @Schedule.Preserves.run _ _ _ deployment.preserves_countsSent.records actions any_action []
    _ ⟨starts, fun _ member => absurd member List.not_mem_nil⟩

/-- A step that fails leaves the marker that closes its operator. -/
theorem output_of_failed (deployment : Deployment) {actions : List Action} {firing : Firing}
    (member : firing ∈ deployment.trace actions)
    (failed : deployment.schedule.succeeds firing = false) :
    firing.after.output firing.operator.id =
      (firing.before.output firing.operator.id).enqueueAll firing.closingMarkers := by
  obtain ⟨in_order, firing_eq, earlier, counted⟩ :=
    (deployment.run_countsSent actions).2 firing member
  have counts := deployment.evaluate_countsSent firing.before
    (deployment.schedule.role firing.operator.id) in_order
  have after_eq : firing.after = (firing.before.evaluate
      (deployment.schedule.role firing.operator.id) firing.operator).1 := by
    rw [firing_eq]
    rfl
  rw [Schedule.succeeds] at failed
  cases outcome_eq : (firing.before.evaluate (deployment.schedule.role firing.operator.id)
      firing.operator).2 with
  | ok step =>
      rw [outcome_eq] at failed
      cases failed
  | error error =>
      rw [after_eq]
      exact (counts.of_error (counted firing.operator in_order) outcome_eq).1

/-- Only joins leave something behind. -/
theorem leftBy_eq_nil (deployment : Deployment) (actions : List Action)
    (member : operator ∈ deployment.tree.postOrder) (few : operator.inputs.length ≤ 1) :
    deployment.schedule.leftBy operator.id (deployment.trace actions) = [] := by
  rw [Schedule.leftBy, List.flatMap_eq_nil_iff]
  intro firing firing_mem
  obtain ⟨recorded, own⟩ := List.mem_filter.mp firing_mem
  have in_order := ((deployment.run_countsSent actions).2 firing recorded).1
  have same : firing.operator = operator := deployment.eq_of_id_eq
    (deployment.order_eq ▸ in_order) member (of_decide_eq_true (Bool.and_eq_true_iff.mp own).1)
  rw [Firing.closingMarkers, same]
  exact firing.before.closingMarkers_eq_nil few

end Deployment

/-- A step that fails leaves nothing in the output of its operator but the marker that closes the
operator in this step. Apart from these markers an operator has sent what it has counted, and only
joins leave them. -/
theorem failing_steps_leave_closing_markers (deployment : Deployment) (actions : List Action) :
    (∀ firing ∈ deployment.trace actions, deployment.schedule.succeeds firing = false →
      firing.after.output firing.operator.id =
        (firing.before.output firing.operator.id).enqueueAll firing.closingMarkers) ∧
    ∀ operator ∈ deployment.tree.postOrder, ∃ count,
      (deployment.run actions).world.emitted? operator.id = some count ∧
        (deployment.sentBy operator.id actions).length =
          count + (deployment.schedule.leftBy operator.id (deployment.trace actions)).length ∧
        (operator.inputs.length ≤ 1 →
          deployment.schedule.leftBy operator.id (deployment.trace actions) = []) := by
  have left : ∀ firing ∈ deployment.trace actions, deployment.schedule.succeeds firing = false →
      firing.after.output firing.operator.id =
        (firing.before.output firing.operator.id).enqueueAll firing.closingMarkers :=
    fun firing member failed => deployment.output_of_failed member failed
  refine ⟨left, fun operator member => ?_⟩
  have counted := (deployment.run_countsSent actions).1 operator (deployment.order_eq ▸ member)
  refine ⟨_, counted, ?_, deployment.leftBy_eq_nil actions member⟩
  exact Schedule.length_sentBy
    (fun firing firing_mem failed => Firing.sent_of_output_eq (left firing firing_mem failed))
    operator.id

/-- Means over priced sales that are paired with offers. The condition compares a price with a text
unless it is ten. -/
def fragilePairs : Deployment :=
  (Deployment.ofDeclarations?
    [.relation { name := "prices", schema := priceSchema },
      .operator "sales" (.stream goodsSchema),
      .operator "offers" (.stream offerSchema),
      .operator "priced" (.combine "sales" "prices" (.attributes "goods" .equal "id")),
      .operator "paired" (.join "priced" (.rows 1 1) "offers" (.rows 1 1)
        (.or (.constant "price" .equal (.int 10)) (.constant "price" .less (.string "x")))),
      .operator "mean" (.mean "paired" "price" (.rows 2 2))]
    "mean" (.ofMode .optimistic)).get (by decide)

/-- The sales have ended when the means are redone, and the second sale has another price then. Its
pair fails in the turn in which the offers end. -/
def fragileActions : List Action :=
  [.setBatchCount 10, .load 0 (.ofInts priceSchema [1, 10] 0),
      .load 0 (.ofInts priceSchema [2, 10] 0), .arrive 0 (.ofInts goodsSchema [1] 0),
      .arrive 1 (.ofInts offerSchema [7] 0)] ++
    List.replicate 5 .wakeUp ++
    [.update 0 id, .arrive 0 (.ofInts goodsSchema [2] 1), .arrive 0 (.endOfStream goodsSchema 2)] ++
    List.replicate 5 .wakeUp ++
    [.update 0 fun _ => [.ofInts priceSchema [1, 10] 0, .ofInts priceSchema [2, 20] 0],
      .arrive 1 (.endOfStream offerSchema 2)] ++
    List.replicate 4 .wakeUp

set_option maxRecDepth 10000 in
/-- A step fails with a marker more in the output than before. -/
theorem fragilePairs_fails :
    ∃ firing ∈ fragilePairs.trace fragileActions, fragilePairs.schedule.succeeds firing = false ∧
      firing.closingMarkers.length = 1 ∧
      (firing.before.output firing.operator.id).queue.length = 1 ∧
      (firing.after.output firing.operator.id).queue.length = 2 := by
  decide +kernel

/-- The marker of the offers is in the output of the join that failed. The mean leaves nothing. -/
theorem fragilePairs_leaves_marker :
    (∃ firing ∈ fragilePairs.trace fragileActions, fragilePairs.schedule.succeeds firing = false ∧
      firing.closingMarkers.length = 1 ∧
      firing.after.output firing.operator.id =
        (firing.before.output firing.operator.id).enqueueAll firing.closingMarkers) ∧
    (∃ operator ∈ fragilePairs.tree.postOrder, operator.id = 3 ∧ ∃ count,
      (fragilePairs.run fragileActions).world.emitted? operator.id = some count ∧
        (fragilePairs.sentBy operator.id fragileActions).length = count +
          (fragilePairs.schedule.leftBy operator.id (fragilePairs.trace fragileActions)).length) ∧
    fragilePairs.schedule.leftBy fragilePairs.tree.id (fragilePairs.trace fragileActions) = [] := by
  obtain ⟨left, counted⟩ := failing_steps_leave_closing_markers fragilePairs fragileActions
  refine ⟨?_, ?_, ?_⟩
  · obtain ⟨firing, member, failed, one_marker, _⟩ := fragilePairs_fails
    exact ⟨firing, member, failed, one_marker, left firing member failed⟩
  · have joins : ∃ operator ∈ fragilePairs.tree.postOrder, operator.id = 3 := by decide
    obtain ⟨operator, member, id_eq⟩ := joins
    obtain ⟨count, count_eq, sent, _⟩ := counted operator member
    exact ⟨operator, member, id_eq, count, count_eq, sent⟩
  · obtain ⟨_, _, _, none_left⟩ := counted fragilePairs.tree (QueryTree.self_mem_postOrder _)
    exact none_left (by decide)

set_option maxRecDepth 10000 in
/-- The output of the join is not what it was before the step that failed, and the join has sent one
tuple more than it has counted. -/
theorem failing_join_sends_marker :
    (¬∀ firing ∈ fragilePairs.trace fragileActions, fragilePairs.schedule.succeeds firing = false →
      firing.after.output firing.operator.id = firing.before.output firing.operator.id) ∧
    (fragilePairs.run fragileActions).world.emitted? 3 = some 3 ∧
    (fragilePairs.sentBy 3 fragileActions).length = 4 := by
  refine ⟨fun unchanged => ?_, by decide +kernel, by decide +kernel⟩
  obtain ⟨firing, member, failed, _, before_eq, after_eq⟩ := fragilePairs_fails
  rw [unchanged firing member failed, before_eq] at after_eq
  cases after_eq

end StreamQuery
