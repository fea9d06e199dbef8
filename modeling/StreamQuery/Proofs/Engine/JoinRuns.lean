import Mathlib.Data.List.ProdSigma
import Mathlib.Order.Bounds.Basic
import StreamQuery.Proofs.Engine.Deployment
import StreamQuery.Proofs.Engine.Pending
import StreamQuery.Proofs.Engine.Responses
import StreamQuery.Proofs.Tuple.Data
import StreamQuery.Proofs.Window.Calls

/-!
# Runs of joins

What a join remembers and what it sends depends only on the data that its sides have received since
it was made or last started over: each side shows what the synopsis of its window shows, and the
pairs of what both show are sent whenever a side completes a window.
-/

namespace StreamQuery

/-! ## Pairs -/

namespace Condition

/-- The condition does not fail on any pair of some tuples. -/
def Compares (condition : Condition) (lefts rights : List Tuple) : Prop :=
  ∀ left ∈ lefts, ∀ right ∈ rights, ∃ verdict, condition.checkPair left right = .ok verdict

/-- The pairs of some tuples that satisfy the condition, left tuples first, each as a tuple that
arrives with the later of the two and has read what both have read. -/
def joined (condition : Condition) (schema : Schema) (lowWater : Int) (lefts rights : List Tuple) :
    List Tuple :=
  ((lefts.product rights).filter fun (left, right) => condition.checkPair left right = .ok true).map
    fun (left, right) =>
      { kind := .data
        schema
        values := left.values ++ right.values
        arrival := max left.arrival right.arrival
        lowWater
        stamps := left.stamps.union right.stamps
        lineage := .paired left.lineage right.lineage }

/-- When joined tuples arrive does not depend on their low-water mark. -/
theorem map_arrival_joined (condition : Condition) (schema : Schema) (lowWater : Int)
    (lefts rights : List Tuple) :
    (condition.joined schema lowWater lefts rights).map Tuple.arrival =
      ((lefts.product rights).filter fun (left, right) =>
        condition.checkPair left right = .ok true).map fun (left, right) =>
          max left.arrival right.arrival :=
  List.map_map

end Condition

namespace WindowJoin

variable {condition : Condition} {schema : Schema} {join : WindowJoin}

/-- If the condition does not fail, the pairs are those that satisfy it. -/
theorem select_eq_ok {lowWater : Int} {pairs : List (Tuple × Tuple)}
    (compares : ∀ candidate ∈ pairs,
      ∃ verdict, condition.checkPair candidate.1 candidate.2 = .ok verdict) :
    select condition schema lowWater pairs =
      .ok ((pairs.filter fun (left, right) => condition.checkPair left right = .ok true).map
        fun (left, right) => pair schema lowWater left right) := by
  induction pairs with
  | nil => rfl
  | cons candidate pairs induction =>
      obtain ⟨left, right⟩ := candidate
      obtain ⟨verdict, checked⟩ := compares (left, right) List.mem_cons_self
      have later := induction fun other member => compares other (List.mem_cons_of_mem _ member)
      have checked : condition.checkPair left right = .ok verdict := checked
      rw [select, checked, later]
      cases verdict with
      | true =>
          rw [List.filter_cons_of_pos (by simp [checked])]
          rfl
      | false =>
          rw [List.filter_cons_of_neg (by simp [checked])]
          rfl

theorem results_of_not_ready (unready : ¬(join.left.isReady = true ∧ join.right.isReady = true)) :
    join.results condition schema = .ok [] := by
  rw [results, if_neg (by simpa using unready)]

/-- Without tuples on one side there are no pairs. -/
theorem results_of_nil (empty : join.left.synopsis.tuples = [] ∨ join.right.synopsis.tuples = []) :
    join.results condition schema = .ok [] := by
  have no_candidates : join.candidates = [] := by
    rcases empty with left_empty | right_empty
    · rw [candidates, left_empty, List.flatMap_nil]
    · rw [candidates, right_empty]
      exact List.flatMap_eq_nil_iff.mpr fun _ _ => rfl
  rw [results, no_candidates]
  split
  · split <;> rfl
  · rfl

/-- The pairs of what both sides show have the lowest low-water mark that they show. -/
theorem results_of_ready (left_ready : join.left.isReady = true)
    (right_ready : join.right.isReady = true) (filled : join.left.synopsis.tuples ≠ [])
    (compares : condition.Compares join.left.synopsis.tuples join.right.synopsis.tuples) :
    ∃ lowest,
      IsLeast {time | time ∈
        (join.left.synopsis.tuples ++ join.right.synopsis.tuples).map Tuple.lowWater} lowest ∧
      join.results condition schema = .ok (condition.joined schema lowest
        join.left.synopsis.tuples join.right.synopsis.tuples) := by
  obtain ⟨lowest, found⟩ : ∃ lowest, join.lowWater? = some lowest := by
    refine Option.ne_none_iff_exists'.mp fun none_lowest => filled ?_
    rw [lowWater?, List.min?_eq_none_iff, List.map_eq_nil_iff] at none_lowest
    exact (List.append_eq_nil_iff.mp none_lowest).1
  refine ⟨lowest, List.min?_eq_some_iff.mp found, ?_⟩
  rw [results, left_ready, right_ready]
  simp only [Bool.and_self, if_true, found]
  refine select_eq_ok fun candidate member => ?_
  have sides := List.mem_product.mp (show candidate ∈ List.product _ _ from member)
  exact compares _ sides.1 _ sides.2

end WindowJoin

/-! ## Sides -/

/-- The number of windows that some tuples complete. -/
def Window.completions (window : Window) (tuples : List Tuple) : Nat :=
  (SynopsisLog.ofTuples window tuples).reports.flatten.length

/-- What the synopsis of a window shows after some tuples. -/
def Window.shown (window : Window) (tuples : List Tuple) : List Tuple :=
  (SynopsisLog.ofTuples window tuples).synopsis.tuples

theorem Window.completions_append_singleton (window : Window) (tuples : List Tuple)
    (tuple : Tuple) : window.completions (tuples ++ [tuple]) = window.completions tuples +
      ((SynopsisLog.ofTuples window tuples).synopsis.enqueue tuple).2.length := by
  rw [completions, SynopsisLog.reports_ofTuples_append_singleton, List.flatten_append,
    List.length_append, List.flatten_singleton, completions]

/-- The window of a side. -/
def JoinLogic.window (logic : JoinLogic) : Side → Window
  | .left => logic.leftWindow
  | .right => logic.rightWindow

namespace JoinSide

variable {window : Window} {tuples : List Tuple} {side : JoinSide}

/-- What a side of a join remembers of the data that it has received. -/
structure Remembers (window : Window) (tuples : List Tuple) (side : JoinSide) : Prop where
  /-- The data is in the synopsis. -/
  synopsis_eq : side.synopsis = (SynopsisLog.ofTuples window tuples).synopsis
  /-- The side is ready once a window is complete. -/
  isReady_iff : side.isReady = true ↔ 0 < window.completions tuples

theorem Remembers.reset (remembers : side.Remembers window tuples) :
    side.reset.Remembers window [] where
  synopsis_eq := by
    rw [JoinSide.reset, remembers.synopsis_eq, SynopsisLog.ofTuples, Synopsis.reset_enqueueAll,
      Synopsis.reset_ofWindow]
    rfl
  isReady_iff := ⟨nofun, nofun⟩

/-- Only data goes into the synopsis. -/
theorem Remembers.receive (remembers : side.Remembers window tuples) (tuple? : Option Tuple) :
    (side.receive tuple?).1.Remembers window (tuples ++ dataOf tuple?.toList) ∧
      ((side.receive tuple?).2 = true ↔
        window.completions tuples < window.completions (tuples ++ dataOf tuple?.toList)) := by
  cases tuple? with
  | none =>
      rw [Option.toList_none, dataOf_nil, List.append_nil]
      exact ⟨remembers, by simp [JoinSide.receive]⟩
  | some tuple =>
      rw [Option.toList_some]
      cases ends : tuple.isEndOfStream with
      | true =>
          rw [dataOf_cons_of_marker ends, dataOf_nil, List.append_nil, JoinSide.receive,
            if_pos ends]
          exact ⟨⟨remembers.synopsis_eq, remembers.isReady_iff⟩, by simp⟩
      | false =>
          have completions_eq := window.completions_append_singleton tuples tuple
          have accept_eq : side.accept tuple =
              ({ side with
                  synopsis := (side.synopsis.enqueue tuple).1
                  isReady := side.isReady || !(side.synopsis.enqueue tuple).2.isEmpty },
                !(side.synopsis.enqueue tuple).2.isEmpty) := rfl
          have completed_iff : (!(side.synopsis.enqueue tuple).2.isEmpty) = true ↔
              0 < ((SynopsisLog.ofTuples window tuples).synopsis.enqueue tuple).2.length := by
            rw [remembers.synopsis_eq, List.length_pos_iff]
            simp
          rw [dataOf_cons_of_data ends, dataOf_nil, JoinSide.receive, if_neg (by simp [ends]),
            accept_eq, completions_eq]
          refine ⟨⟨?_, ?_⟩, completed_iff.trans (Nat.lt_add_right_iff_pos).symm⟩
          · rw [SynopsisLog.ofTuples_append_singleton, remembers.synopsis_eq]
            rfl
          · rw [Bool.or_eq_true, remembers.isReady_iff, completed_iff, completions_eq]
            omega

end JoinSide

/-! ## Runs -/

/-- The tuples that a join takes in one evaluation. -/
structure Delivery where
  left? : Option Tuple
  right? : Option Tuple

/-- The tuple from one side, if one waits there. -/
def Delivery.on (delivery : Delivery) : Side → Option Tuple
  | .left => delivery.left?
  | .right => delivery.right?

/-- The data that a side has received, oldest first. -/
def received (deliveries : List Delivery) (side : Side) : List Tuple :=
  dataOf (deliveries.filterMap (·.on side))

theorem received_append_singleton (deliveries : List Delivery) (delivery : Delivery) (side : Side) :
    received (deliveries ++ [delivery]) side =
      received deliveries side ++ dataOf (delivery.on side).toList := by
  rw [received, List.filterMap_append, dataOf_append, ← received]
  cases found : delivery.on side <;> simp [found]

/-- The inputs of a join are two other operators. -/
structure OperatorHeader.Joins (header : OperatorHeader) (left right : Nat) : Prop where
  left_ne : left ≠ header.id
  right_ne : right ≠ header.id
  apart : left ≠ right

/-- What waits for a join. -/
def World.delivery (world : World) (left right : Nat) : Delivery where
  left? := (world.output left).queue.head?
  right? := (world.output right).queue.head?

/-- A world that is reached from one in which a join is new, with what the join has taken since it
was new or last started over. Between its evaluations anything may happen elsewhere. -/
inductive JoinRun (header : OperatorHeader) (logic : JoinLogic) (left right : Nat) :
    List Delivery → World → Prop
  | start {world : World}
    (is_new : world.memory? header.id = some (.join
      { left := { synopsis := .ofWindow logic.leftWindow }
        right := { synopsis := .ofWindow logic.rightWindow } })) :
    JoinRun header logic left right [] world
  | evaluate {deliveries : List Delivery} {world : World}
    (run : JoinRun header logic left right deliveries world) :
    JoinRun header logic left right (deliveries ++ [world.delivery left right])
      (world.evaluateJoin header logic left right).1
  | restart {deliveries : List Delivery} {world after : World}
    (run : JoinRun header logic left right deliveries world)
    (forgets : after.memory? header.id = (world.memory? header.id).map Memory.reset) :
    JoinRun header logic left right [] after
  | elsewhere {deliveries : List Delivery} {world after : World}
    (run : JoinRun header logic left right deliveries world)
    (remembers : after.memory? header.id = world.memory? header.id) :
    JoinRun header logic left right deliveries after

variable {header : OperatorHeader} {logic : JoinLogic} {left right : Nat}
  {deliveries : List Delivery} {world : World}

/-- What a join remembers of what it has taken. -/
def WindowJoin.Remembers (logic : JoinLogic) (deliveries : List Delivery) (state : WindowJoin) :
    Prop :=
  ∀ side, (state.side side).Remembers (logic.window side) (received deliveries side)

/-- One more delivery, and whether it completes a window. -/
theorem WindowJoin.Remembers.ofArrivals {state : WindowJoin}
    (remembers : state.Remembers logic deliveries) (delivery : Delivery) :
    (Turn.ofArrivals state delivery.left? delivery.right?).join.Remembers logic
        (deliveries ++ [delivery]) ∧
      ((Turn.ofArrivals state delivery.left? delivery.right?).completed = true ↔
        ∃ side, (logic.window side).completions (received deliveries side) <
          (logic.window side).completions (received (deliveries ++ [delivery]) side)) := by
  obtain ⟨join_eq, completed_eq⟩ := Turn.ofArrivals_spec state delivery.left? delivery.right?
  obtain ⟨left_remembers, left_completes⟩ := (remembers .left).receive delivery.left?
  obtain ⟨right_remembers, right_completes⟩ := (remembers .right).receive delivery.right?
  constructor
  · intro side
    rw [join_eq, received_append_singleton]
    cases side with
    | left => exact left_remembers
    | right => exact right_remembers
  · simp only [received_append_singleton]
    rw [completed_eq, Bool.or_eq_true]
    constructor
    · rintro (completes | completes)
      · exact ⟨.left, left_completes.mp completes⟩
      · exact ⟨.right, right_completes.mp completes⟩
    · rintro ⟨_ | _, completes⟩
      · exact .inl (left_completes.mpr completes)
      · exact .inr (right_completes.mpr completes)

theorem World.delivery_of_nil (left_empty : (world.output left).queue = [])
    (right_empty : (world.output right).queue = []) :
    world.delivery left right = { left? := none, right? := none } := by
  rw [delivery, left_empty, right_empty]
  rfl

/-- A join remembers all data that it has taken since it was new or last started over. -/
theorem JoinRun.remembers (run : JoinRun header logic left right deliveries world)
    (joins : header.Joins left right) :
    ∃ state, world.memory? header.id = some (.join state) ∧ state.Remembers logic deliveries := by
  induction run with
  | start is_new =>
      refine ⟨_, is_new, ?_⟩
      rintro (_ | _) <;> exact ⟨rfl, nofun, nofun⟩
  | restart _ forgets induction =>
      obtain ⟨state, memory_eq, remembers⟩ := induction
      refine ⟨state.reset, by rw [forgets, memory_eq]; rfl, ?_⟩
      rintro (_ | _)
      · exact (remembers .left).reset
      · exact (remembers .right).reset
  | elsewhere _ unchanged induction =>
      obtain ⟨state, memory_eq, remembers⟩ := induction
      exact ⟨state, unchanged.trans memory_eq, remembers⟩
  | @evaluate deliveries world _ induction =>
      obtain ⟨state, memory_eq, remembers⟩ := induction
      obtain ⟨cell, found, cell_memory⟩ := Option.map_eq_some_iff.mp memory_eq
      by_cases waits : (world.output left).queue ≠ [] ∨ (world.output right).queue ≠ []
      · obtain ⟨⟨results, acts⟩, _⟩ :=
          World.evaluateJoin_joins found logic joins.left_ne joins.right_ne joins.apart waits
        rcases acts.received with ⟨found_state, _, is_state, _, _, _, after_eq⟩ | ⟨_, no_join, _⟩
        · obtain rfl : state = found_state :=
            Memory.join.inj (cell_memory.symm.trans is_state)
          exact ⟨_, after_eq, (remembers.ofArrivals (world.delivery left right)).1⟩
        · exact absurd cell_memory (no_join state)
      · obtain ⟨left_empty, right_empty⟩ := by simpa using waits
        rw [World.evaluateJoin_of_nil left_empty right_empty]
        refine ⟨state, memory_eq, fun side => ?_⟩
        rw [received_append_singleton, World.delivery_of_nil left_empty right_empty]
        cases side <;> simpa [Delivery.on] using remembers _

/-! ## What is sent -/

/-- A join sends some tuples in one evaluation. -/
structure World.JoinSends (world : World) (header : OperatorHeader) (logic : JoinLogic)
    (left right : Nat) (sent : List Tuple) : Prop where
  /-- The tuples follow those that wait. -/
  output_eq : (world.evaluateJoin header logic left right).1.output header.id =
    (world.output header.id).enqueueAll sent
  /-- Their number is reported. -/
  step_eq : (world.evaluateJoin header logic left right).2 =
    .ok (if (world.output left).queue.isEmpty && (world.output right).queue.isEmpty then .idle
      else if sent.isEmpty then .noOutput else .emitted sent.length)

/-- A join pairs what its sides show, or sends nothing. -/
structure World.JoinsWindows (world : World) (header : OperatorHeader) (logic : JoinLogic)
    (left right : Nat) (pairs : Prop) (shown : Side → List Tuple) : Prop where
  /-- Nothing is sent. -/
  silent : ¬pairs → world.JoinSends header logic left right []
  /-- All pairs that satisfy the condition are sent, with the lowest low-water mark of all. -/
  joined : pairs → logic.condition.Compares (shown .left) (shown .right) →
    ∃ lowest, IsLeast {time | time ∈ (shown .left ++ shown .right).map Tuple.lowWater} lowest ∧
      world.JoinSends header logic left right
        (logic.condition.joined header.schema lowest (shown .left) (shown .right))

/-- Data that a join receives makes it send no markers. -/
theorem WindowJoin.Turn.markers_of_data (state : WindowJoin) (delivery : Delivery)
    (data : ∀ side, ∀ tuple ∈ delivery.on side, tuple.isEndOfStream = false) :
    (ofArrivals state delivery.left? delivery.right?).markers = [] := by
  obtain ⟨left?, right?⟩ := delivery
  have left_data := data .left
  have right_data := data .right
  rcases left? with _ | left <;> rcases right? with _ | right <;>
    simp_all [ofArrivals, receive, Delivery.on]

theorem Cell.joinArrivals_sends {cell : Cell} {state : WindowJoin}
    (memory_eq : cell.memory = .join state) (header : OperatorHeader) (condition : Condition)
    (arrivals : List (Side × Tuple)) {results : List Tuple}
    (no_markers :
      (arrivals.foldl WindowJoin.Turn.receive ({ join := state } : WindowJoin.Turn)).markers = [])
    (computed : (arrivals.foldl WindowJoin.Turn.receive
      ({ join := state } : WindowJoin.Turn)).results condition header.schema = .ok results) :
    (cell.joinArrivals header condition arrivals).1.output = cell.output.enqueueAll results ∧
      (cell.joinArrivals header condition arrivals).2 =
        .ok (if results.isEmpty then .noOutput else .emitted results.length) := by
  rw [joinArrivals, memory_eq]
  simp only [computed, no_markers, List.nil_append]
  cases results <;> exact ⟨rfl, rfl⟩

/-- A join that receives data sends what its sides yield. -/
theorem World.evaluateJoin_sends {state : WindowJoin}
    (memory_eq : world.memory? header.id = some (.join state)) (joins : header.Joins left right)
    (data : ∀ side, ∀ tuple ∈ (world.delivery left right).on side, tuple.isEndOfStream = false)
    {results : List Tuple}
    (computed : (WindowJoin.Turn.ofArrivals state (world.delivery left right).left?
      (world.delivery left right).right?).results logic.condition header.schema = .ok results) :
    world.JoinSends header logic left right results := by
  have no_markers := WindowJoin.Turn.markers_of_data state (world.delivery left right) data
  by_cases waits : (world.output left).queue ≠ [] ∨ (world.output right).queue ≠ []
  · obtain ⟨cell, found, cell_memory⟩ := Option.map_eq_some_iff.mp memory_eq
    obtain ⟨rest, ⟨moves, ⟨current, current_found, current_memory⟩, _, _⟩, evaluated⟩ :=
      World.evaluateJoin_takes found logic joins.left_ne joins.right_ne joins.apart waits
    have output_eq : (rest.output header.id) = world.output header.id := moves.sends
    rw [output_of_getElem? current_found] at output_eq
    obtain ⟨sends, reports⟩ := Cell.joinArrivals_sends (current_memory.trans cell_memory) header
      logic.condition _ no_markers computed
    rw [output_eq] at sends
    have some_waits : ((world.output left).queue.isEmpty &&
        (world.output right).queue.isEmpty) = false := by
      rw [Bool.and_eq_false_iff, List.isEmpty_eq_false_iff, List.isEmpty_eq_false_iff]
      exact waits
    constructor
    · rw [evaluated, act_of_getElem? current_found, output_modifyCell_self current_found]
      exact sends
    · rw [evaluated, act_of_getElem? current_found, some_waits]
      exact reports
  · obtain ⟨left_empty, right_empty⟩ := by simpa using waits
    have nothing : results = [] := by
      rw [delivery_of_nil left_empty right_empty] at computed
      cases computed
      rfl
    subst nothing
    exact ⟨by rw [evaluateJoin_of_nil left_empty right_empty]; rfl,
      by rw [evaluateJoin_of_nil left_empty right_empty, left_empty, right_empty]; rfl⟩

/-- Whenever a side completes a window, and both sides have completed one, all pairs of what the
sides show are joined. -/
theorem JoinRun.joinsWindows (run : JoinRun header logic left right deliveries world)
    (joins : header.Joins left right)
    (data : ∀ side, ∀ tuple ∈ (world.delivery left right).on side, tuple.isEndOfStream = false) :
    world.JoinsWindows header logic left right
      ((∃ side, (logic.window side).completions (received deliveries side) <
          (logic.window side).completions
            (received (deliveries ++ [world.delivery left right]) side)) ∧
        ∀ side, 0 < (logic.window side).completions
            (received (deliveries ++ [world.delivery left right]) side) ∧
          (logic.window side).shown
            (received (deliveries ++ [world.delivery left right]) side) ≠ [])
      fun side => (logic.window side).shown
        (received (deliveries ++ [world.delivery left right]) side) := by
  obtain ⟨state, memory_eq, remembers⟩ := run.remembers joins
  obtain ⟨after, completed_iff⟩ := remembers.ofArrivals (world.delivery left right)
  have sends {results : List Tuple}
      (computed : (WindowJoin.Turn.ofArrivals state (world.delivery left right).left?
        (world.delivery left right).right?).results logic.condition header.schema = .ok results) :
      world.JoinSends header logic left right results :=
    World.evaluateJoin_sends memory_eq joins data computed
  generalize WindowJoin.Turn.ofArrivals state (world.delivery left right).left?
    (world.delivery left right).right? = turn at after completed_iff sends
  have shown_eq (side : Side) : (logic.window side).shown
      (received (deliveries ++ [world.delivery left right]) side) =
        (turn.join.side side).synopsis.tuples := by
    rw [(after side).synopsis_eq]
    rfl
  constructor
  · intro waits
    apply sends
    rw [WindowJoin.Turn.results]
    split
    · rename_i completed
      -- If both sides are ready, one of them shows nothing.
      by_cases ready : turn.join.left.isReady = true ∧ turn.join.right.isReady = true
      · refine WindowJoin.results_of_nil ?_
        by_contra! filled
        refine waits ⟨completed_iff.mp completed, ?_⟩
        rintro (_ | _)
        · exact ⟨(after .left).isReady_iff.mp ready.1, shown_eq .left ▸ filled.1⟩
        · exact ⟨(after .right).isReady_iff.mp ready.2, shown_eq .right ▸ filled.2⟩
      · exact WindowJoin.results_of_not_ready ready
    · rfl
  · rintro ⟨completes, ready⟩ compares
    rw [shown_eq .left, shown_eq .right] at compares
    obtain ⟨lowest, least, results_eq⟩ := WindowJoin.results_of_ready
      ((after .left).isReady_iff.mpr (ready .left).1)
      ((after .right).isReady_iff.mpr (ready .right).1) (shown_eq .left ▸ (ready .left).2) compares
    rw [shown_eq .left, shown_eq .right]
    refine ⟨lowest, least, sends ?_⟩
    rw [WindowJoin.Turn.results, if_pos (completed_iff.mpr completes)]
    exact results_eq

/-! ## Deployed joins -/

namespace Deployment

variable {deployment : Deployment} {header : OperatorHeader} {logic : JoinLogic}
  {left right : QueryTree}

theorem joins_of_mem_postOrder
    (member : .join header logic left right ∈ deployment.tree.postOrder) :
    header.Joins left.id right.id where
  left_ne := deployment.input_id_ne member left (by simp [QueryTree.inputs])
  right_ne := deployment.input_id_ne member right (by simp [QueryTree.inputs])
  apart := deployment.forest.left_id_ne_right_id
    (deployment.forest.mem_of_mem_postOrder deployment.tree_mem member).1

/-- A join has run, whatever was delivered to it. -/
def HasRun (header : OperatorHeader) (logic : JoinLogic) (left right : QueryTree) (world : World) :
    Prop :=
  ∃ deliveries, JoinRun header logic left.id right.id deliveries world

theorem HasRun.elsewhere {world after : World} (has_run : HasRun header logic left right world)
    (memory_eq : after.memory? header.id = world.memory? header.id) :
    HasRun header logic left right after := by
  obtain ⟨deliveries, run⟩ := has_run
  exact ⟨deliveries, run.elsewhere memory_eq⟩

/-- Evaluations of the join deliver to it, and others leave it alone. -/
theorem HasRun.evaluate {world : World} (has_run : HasRun header logic left right world)
    (member : .join header logic left right ∈ deployment.tree.postOrder) {operator : QueryTree}
    (in_tree : operator ∈ deployment.tree.postOrder) (role : CommitRole) :
    HasRun header logic left right (world.evaluate role operator).1 := by
  by_cases same : operator.id = header.id
  · obtain rfl := deployment.eq_of_id_eq in_tree member same
    obtain ⟨deliveries, run⟩ := has_run
    exact ⟨_, run.evaluate⟩
  · exact has_run.elsewhere (World.memory?_evaluate_of_ne (Ne.symm same) _)

/-- The join may start over in a response of the scheduler. -/
theorem HasRun.react {execution : Execution}
    (has_run : HasRun header logic left right execution.world) (schedule : Schedule) (step : Step) :
    HasRun header logic left right (schedule.react execution step).world := by
  refine Schedule.react_preserves (HasRun header logic left right)
    (fun world change _ has_run => has_run.elsewhere (World.memory?_modifyOutputs _ _ _ _))
    (fun world => ?_) (fun world has_run => has_run.elsewhere rfl) step has_run
  rintro ⟨deliveries, run⟩
  by_cases starts_over : header.id ∈ schedule.redo.operators
  · exact ⟨_, run.restart (by rw [World.memory?_restart, if_pos starts_over])⟩
  · exact ⟨_, run.elsewhere (by rw [World.memory?_restart, if_neg starts_over])⟩

/-- Actions from outside leave joins alone. -/
theorem HasRun.perform {execution : Execution}
    (has_run : HasRun header logic left right execution.world)
    (joins : header.Joins left.id right.id) (schedule : Schedule) {action : Action}
    (external : ¬action.IsTurn) :
    HasRun header logic left right (schedule.perform execution action).world := by
  cases action with
  | arrive source tuple =>
      obtain ⟨deliveries, run⟩ := has_run
      obtain ⟨state, memory_eq, _⟩ := run.remembers joins
      rcases execution.world.memory?_modifyArrivals source (·.enqueue tuple) header.id with
        ⟨unchanged, _⟩ | ⟨_, arrivals, is_source, _⟩
      · exact ⟨_, run.elsewhere unchanged⟩
      · cases memory_eq.symm.trans is_source
  | load place row => exact has_run.elsewhere rfl
  | update place change => exact has_run.elsewhere rfl
  | collect operator => exact has_run.elsewhere (World.memory?_modifyOutput _ _ _ _)
  | setBatchCount count => exact has_run.elsewhere rfl
  | wakeUp => exact absurd trivial external

/-- Whatever happens to a deployed query, each of its joins runs. -/
theorem exists_joinRun (deployment : Deployment)
    (member : .join header logic left right ∈ deployment.tree.postOrder) (actions : List Action) :
    ∃ deliveries, JoinRun header logic left.id right.id deliveries
      (deployment.run actions).world := by
  have preserves : deployment.schedule.Preserves (fun _ => True)
      (fun _ world => HasRun header logic left right world) := by
    refine ⟨fun _ world operator after error in_order has_run evaluated => ?_,
      fun _ world operator after step execution in_order has_run evaluated world_eq => ?_,
      fun _ execution action _ external has_run =>
        has_run.perform (joins_of_mem_postOrder member) _ external⟩
    · have fired := has_run.evaluate member (deployment.order_eq ▸ in_order)
        (deployment.schedule.role operator.id)
      rwa [evaluated] at fired
    · have fired := has_run.evaluate member (deployment.order_eq ▸ in_order)
        (deployment.schedule.role operator.id)
      rw [evaluated, ← world_eq] at fired
      exact fired.react deployment.schedule step
  have is_new := congrArg (Option.map Cell.memory) (deployment.getElem?_start member)
  have starts : HasRun header logic left right deployment.start.world := ⟨[], .start is_new⟩
  exact @Schedule.Preserves.run _ _ _ preserves actions (fun _ _ => trivial) [] _ starts

end Deployment

end StreamQuery
