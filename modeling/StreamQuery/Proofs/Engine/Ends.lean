import StreamQuery.Proofs.Engine.Deployment
import StreamQuery.Proofs.Engine.Moves

/-!
# Ends of streams

An operator that sends an end-of-stream marker has taken all that was sent to it, and the operators
behind it are in the same position. Nothing will happen at any of them any more, unless tuples are
delivered again.
-/

namespace StreamQuery

/-- A marker is among the tuples. -/
def HasEnd (tuples : List Tuple) : Prop :=
  ∃ tuple ∈ tuples, tuple.isEndOfStream = true

/-- Nothing follows an end-of-stream marker. -/
def EndsOnce (tuples : List Tuple) : Prop :=
  tuples.Pairwise fun earlier _ => earlier.isEndOfStream = false

instance (tuples : List Tuple) : Decidable (HasEnd tuples) :=
  inferInstanceAs (Decidable (∃ tuple ∈ tuples, tuple.isEndOfStream = true))

instance (tuples : List Tuple) : Decidable (EndsOnce tuples) :=
  inferInstanceAs (Decidable (tuples.Pairwise fun earlier _ => earlier.isEndOfStream = false))

section

variable {tuples first second : List Tuple} {tuple : Tuple}

theorem not_hasEnd_nil : ¬HasEnd [] := by simp [HasEnd]

theorem HasEnd.mono (ends : HasEnd first) (subset : first ⊆ second) : HasEnd second := by
  obtain ⟨tuple, member, marks⟩ := ends
  exact ⟨tuple, subset member, marks⟩

theorem hasEnd_append : HasEnd (first ++ second) ↔ HasEnd first ∨ HasEnd second := by
  simp only [HasEnd, List.mem_append, or_and_right, exists_or]

theorem not_hasEnd_of_data (data : ∀ tuple ∈ tuples, tuple.isEndOfStream = false) :
    ¬HasEnd tuples := by
  rintro ⟨tuple, member, marks⟩
  rw [data tuple member] at marks
  cases marks

theorem endsOnce_of_not_hasEnd (opens : ¬HasEnd tuples) : EndsOnce tuples := by
  refine List.pairwise_iff_forall_sublist.mpr fun {earlier later} sublist => ?_
  have member : earlier ∈ tuples := sublist.subset List.mem_cons_self
  exact Bool.eq_false_iff.mpr fun marks => opens ⟨earlier, member, marks⟩

theorem endsOnce_singleton (tuple : Tuple) : EndsOnce [tuple] :=
  List.pairwise_singleton _ _

theorem EndsOnce.sublist (ends : EndsOnce second) (sublist : first.Sublist second) :
    EndsOnce first :=
  List.Pairwise.sublist sublist ends

theorem EndsOnce.append (later : EndsOnce second) (opens : ¬HasEnd first) :
    EndsOnce (first ++ second) := by
  refine List.pairwise_append.mpr ⟨endsOnce_of_not_hasEnd opens, later, fun tuple member _ _ => ?_⟩
  exact Bool.eq_false_iff.mpr fun marks => opens ⟨tuple, member, marks⟩

theorem EndsOnce.eq_nil (ends : EndsOnce (tuple :: tuples)) (marks : tuple.isEndOfStream = true) :
    tuples = [] := by
  refine List.eq_nil_iff_forall_not_mem.mpr fun later member => ?_
  have data := (List.pairwise_cons.mp ends).1 later member
  rw [data] at marks
  cases marks

end

namespace World

/-- An operator has nothing to take, and nothing more will arrive at it from outside. -/
structure IsStarved (world : World) (fed : Nat → List Tuple) (operator : QueryTree) : Prop where
  /-- All that was sent to it was taken. -/
  inputs : ∀ input ∈ operator.inputs, (world.output input.id).queue = []
  /-- All that arrived at a source was passed on, up to the end. -/
  arrivals : ∀ header, operator = .source header → HasEnd (fed header.id) ∧
    ∀ arrivals, world.memory? header.id = some (.source arrivals) → arrivals.queue = []

/-- No operator of a tree has anything more to take. -/
def IsSpent (world : World) (fed : Nat → List Tuple) (tree : QueryTree) : Prop :=
  ∀ operator ∈ tree.postOrder, world.IsStarved fed operator

variable {world before after : World} {fed : Nat → List Tuple} {operator tree : QueryTree}

theorem IsStarved.mono (starved : before.IsStarved fed operator)
    (queues : ∀ input ∈ operator.inputs, (before.output input.id).queue = [] →
      (after.output input.id).queue = [])
    (memory_eq : after.memory? operator.id = before.memory? operator.id) :
    after.IsStarved fed operator where
  inputs input is_input := queues input is_input (starved.inputs input is_input)
  arrivals := by
    rintro header rfl
    obtain ⟨ends, passed⟩ := starved.arrivals header rfl
    exact ⟨ends, fun arrivals remembered => passed arrivals (memory_eq ▸ remembered)⟩

theorem IsSpent.of_inputs (starved : world.IsStarved fed operator)
    (spent : ∀ input ∈ operator.inputs, world.IsSpent fed input) : world.IsSpent fed operator := by
  intro other member
  obtain rfl | ⟨input, is_input, inside⟩ := QueryTree.mem_postOrder_iff.mp member
  · exact starved
  · exact spent input is_input other inside

theorem hasPendingCommit_eq (world : World) (id : Nat) : world.hasPendingCommit id =
    (world.memory? id).any fun memory => memory.aggregation?.any Aggregation.pendingCommit := by
  rw [hasPendingCommit, memory?]
  cases world.cells[id]? <;> rfl

/-- What a join has noted about the ends of its inputs is true. -/
def NotesEnds (world : World) (ended : QueryTree → Prop) (left right : QueryTree)
    (state : WindowJoin) : Prop :=
  (state.left.hasEnded = true → ended left ∧ (world.output left.id).queue = []) ∧
    (state.right.hasEnded = true → ended right ∧ (world.output right.id).queue = [])

theorem NotesEnds.mono {ended other : QueryTree → Prop} {left right : QueryTree}
    {state : WindowJoin} (notes : before.NotesEnds ended left right state)
    (left_mono : ended left → (before.output left.id).queue = [] →
      other left ∧ (after.output left.id).queue = [])
    (right_mono : ended right → (before.output right.id).queue = [] →
      other right ∧ (after.output right.id).queue = []) :
    after.NotesEnds other left right state :=
  ⟨fun ends => left_mono (notes.1 ends).1 (notes.1 ends).2,
    fun ends => right_mono (notes.2 ends).1 (notes.2 ends).2⟩

/-! ## Starved operators -/

/-- A starved operator does nothing. -/
theorem evaluate_of_isStarved {cell : Cell} (found : world.cells[operator.id]? = some cell)
    (starved : world.IsStarved fed operator) (role : CommitRole) :
    (world.evaluate role operator).1 = world ∧
      ∀ step, (world.evaluate role operator).2 = .ok step → step = .idle := by
  cases operator with
  | source header =>
      rcases evaluate_source_cases found role with
        ⟨same, idle, _⟩ | ⟨arrivals, tuple, queue, memory_eq, queue_eq, _⟩
      · exact ⟨same, idle⟩
      · have remembered : world.memory? header.id = some (.source arrivals) := by
          rw [memory?, show world.cells[header.id]? = some cell from found, ← memory_eq]
          rfl
        rw [(starved.arrivals header rfl).2 arrivals remembered] at queue_eq
        cases queue_eq
  | single header logic input =>
      rw [evaluate, evaluateSingle_of_nil (starved.inputs input (by simp [QueryTree.inputs]))]
      exact ⟨rfl, by rintro step ⟨⟩; rfl⟩
  | join header logic left right =>
      rw [evaluate, evaluateJoin_of_nil (starved.inputs left (by simp [QueryTree.inputs]))
        (starved.inputs right (by simp [QueryTree.inputs]))]
      exact ⟨rfl, by rintro step ⟨⟩; rfl⟩

/-! ## Evaluations -/

/-- What one evaluation does where ends are in order. -/
structure Advances (fed : Nat → List Tuple) (role : CommitRole) (operator : QueryTree)
    (results : List Tuple) (before : World) (outcome : World × Except OperatorError Step) :
    Prop where
  /-- The results are sent. -/
  moves : Moves operator.id results before outcome.1
  /-- A marker is the last of them. -/
  endsOnce : EndsOnce results
  /-- With a marker the last tuple was taken, and the inputs are spent. -/
  starves : HasEnd results → outcome.1.IsStarved fed operator ∧
    ∀ input ∈ operator.inputs, before.IsSpent fed input
  /-- A source takes the oldest arrival. -/
  arrivals : ∀ header, operator = .source header → ∀ arrivals,
    outcome.1.memory? header.id = some (.source arrivals) → arrivals.queue <:+ fed header.id
  /-- A join notes ends. -/
  sides : ∀ header logic left right, operator = .join header logic left right → ∀ state,
    outcome.1.memory? header.id = some (.join state) →
      outcome.1.NotesEnds (before.IsSpent fed) left right state
  /-- A commit stays open, or is opened. -/
  pending : outcome.1.hasPendingCommit operator.id = true →
    before.hasPendingCommit operator.id = true ∨ role.defersClose = true
  /-- Windows are given up only if they are checked. -/
  gives_up : ∀ committed?, outcome.2 = .ok (.lostConsistency committed?) →
    role.checksConsistency = true ∧ ¬HasEnd results
  /-- Tuples wait only for the end of a commit. -/
  settles : ∀ waiting, outcome.2 = .ok (.pendingAbort waiting) →
    before.hasPendingCommit operator.id = true ∧ ¬HasEnd results

section

variable {role : CommitRole} {header : OperatorHeader} {cell : Cell}

theorem advances_source (found : world.cells[header.id]? = some cell)
    (suffix_fed : ∀ arrivals, world.memory? header.id = some (.source arrivals) →
      arrivals.queue <:+ fed header.id)
    (fed_once : EndsOnce (fed header.id)) :
    ∃ results, Advances fed role (.source header) results world
      (world.evaluate role (.source header)) := by
  rcases evaluate_source_cases found role with
    ⟨same, idle, _⟩ | ⟨arrivals, tuple, queue, memory_eq, queue_eq, moves, remembered, step_eq⟩
  · refine ⟨[], by rw [same]; exact .refl _ _, endsOnce_of_not_hasEnd not_hasEnd_nil,
      fun ends => absurd ends not_hasEnd_nil, ?_, by simp, by rw [same]; exact .inl, ?_, ?_⟩
    · rintro other ⟨⟩
      rw [same]
      exact suffix_fed
    · exact fun committed? signals => by cases idle _ signals
    · exact fun waiting signals => by cases idle _ signals
  · have given : tuple :: queue <:+ fed header.id := by
      rw [← queue_eq]
      exact suffix_fed arrivals (memory_eq ▸ memory?_of_getElem? found)
    refine ⟨[tuple], moves, endsOnce_singleton tuple, fun ends => ⟨⟨by simp [QueryTree.inputs], ?_⟩,
      by simp [QueryTree.inputs]⟩, ?_, by simp, ?_, by simp [step_eq], by simp [step_eq]⟩
    · rintro other ⟨⟩
      obtain ⟨marker, member, marks⟩ := ends
      obtain rfl := List.mem_singleton.mp member
      refine ⟨⟨marker, given.subset List.mem_cons_self, marks⟩, fun waiting waits => ?_⟩
      rw [remembered] at waits
      cases waits
      exact (fed_once.sublist given.sublist).eq_nil marks
    · rintro other ⟨⟩ waiting waits
      rw [remembered] at waits
      cases waits
      exact (List.suffix_cons tuple queue).trans given
    · intro opened
      rw [hasPendingCommit_eq, show (QueryTree.source header).id = header.id from rfl,
        remembered] at opened
      cases opened

theorem advances_single {logic : SingleLogic} {input : QueryTree}
    (found : world.cells[header.id]? = some cell) (different : input.id ≠ header.id)
    (once : EndsOnce (world.output input.id).queue)
    (spent : HasEnd (world.output input.id).queue → world.IsSpent fed input) :
    ∃ results, Advances fed role (.single header logic input) results world
      (world.evaluate role (.single header logic input)) := by
  have stays (outcome : World × Except OperatorError Step)
      (moves : Moves header.id [] world outcome.1)
      (pending : outcome.1.hasPendingCommit header.id = true →
        world.hasPendingCommit header.id = true)
      (quiet : ∀ committed?, outcome.2 ≠ .ok (.lostConsistency committed?))
      (settles : ∀ waiting, outcome.2 = .ok (.pendingAbort waiting) →
        world.hasPendingCommit header.id = true) :
      Advances fed role (.single header logic input) [] world outcome :=
    ⟨moves, endsOnce_of_not_hasEnd not_hasEnd_nil, fun ends => absurd ends not_hasEnd_nil, by simp,
      by simp, fun opened => .inl (pending opened), fun _ lost => absurd lost (quiet _),
      fun _ waits => ⟨settles _ waits, not_hasEnd_nil⟩⟩
  rw [evaluate]
  cases waits : (world.output input.id).queue with
  | nil =>
      refine ⟨[], ?_⟩
      rw [evaluateSingle_of_nil waits]
      exact stays _ (.refl _ _) id (by simp) (by simp)
  | cons tuple queue =>
      rw [waits] at once spent
      by_cases is_open : world.hasPendingCommit header.id = true
      · refine ⟨[], ?_⟩
        rw [evaluateSingle_of_open waits is_open]
        refine stays _ (.modifyCell found ?_) (fun _ => is_open) (by simp) fun _ _ => is_open
        rw [Cell.closeCommit]
        split <;> rfl
      · have settled : world.hasPendingCommit header.id = false := by simpa using is_open
        by_cases ends : tuple.isEndOfStream = true
        · obtain ⟨after, evaluated, moves, queue_eq, remembered⟩ :=
            evaluateSingle_of_marker found role logic different waits settled ends
          rw [evaluated]
          refine ⟨[tuple], moves, endsOnce_singleton tuple, fun _ => ⟨⟨?_, by simp⟩, ?_⟩, by simp,
            by simp, fun opened => .inl ?_, by simp, by simp⟩
          · simpa [QueryTree.inputs, queue_eq] using once.eq_nil ends
          · simpa [QueryTree.inputs] using spent ⟨tuple, List.mem_cons_self, ends⟩
          · rw [hasPendingCommit_eq] at opened ⊢
            rw [show (QueryTree.single header logic input).id = header.id from rfl] at opened ⊢
            rwa [memory?_of_getElem? found, ← remembered]
        · obtain ⟨results, processes, _⟩ := evaluateSingle_of_data found role logic
            different waits settled (by simpa using ends)
          have opens := not_hasEnd_of_data processes.data
          exact ⟨results, processes.moves, endsOnce_of_not_hasEnd opens,
            fun ends => absurd ends opens, by simp, by simp, processes.pending,
            fun _ lost => ⟨processes.gives_up _ lost, opens⟩,
            fun _ waits => absurd waits (processes.settles _)⟩

end

end World

/-! ## Evaluations of joins -/

namespace WindowJoin.Turn

variable {turn : Turn} {tuple : Tuple}

theorem receive_of_end (side : Side) (marks : tuple.isEndOfStream = true) :
    turn.receive (side, tuple) =
      { turn with
        join := turn.join.endSide side
        markers :=
          if (turn.join.endSide side).hasEnded then turn.markers ++ [tuple]
          else turn.markers } := by
  simp [receive, marks]

theorem receive_of_data (side : Side) (data : tuple.isEndOfStream = false) :
    turn.receive (side, tuple) =
      { turn with
        join := (turn.join.accept side tuple).1
        completed := turn.completed || (turn.join.accept side tuple).2 } := by
  simp [receive, data]

@[simp] theorem hasEnded_accept (join : WindowJoin) (side : Side) (tuple : Tuple) :
    (join.accept side tuple).1.left.hasEnded = join.left.hasEnded ∧
      (join.accept side tuple).1.right.hasEnded = join.right.hasEnded := by
  cases side <;> exact ⟨rfl, rfl⟩

@[simp] theorem hasEnded_endSide_left (join : WindowJoin) :
    (join.endSide .left).left.hasEnded = true ∧
      (join.endSide .left).right.hasEnded = join.right.hasEnded :=
  ⟨rfl, rfl⟩

@[simp] theorem hasEnded_endSide_right (join : WindowJoin) :
    (join.endSide .right).left.hasEnded = join.left.hasEnded ∧
      (join.endSide .right).right.hasEnded = true :=
  ⟨rfl, rfl⟩

variable {state : WindowJoin} {leftTuple? rightTuple? : Option Tuple}

/-- An end was noted before, or has just arrived. -/
theorem hasEnded_ofArrivals :
    ((ofArrivals state leftTuple? rightTuple?).join.left.hasEnded = true →
      state.left.hasEnded = true ∨ ∃ tuple, leftTuple? = some tuple ∧ tuple.isEndOfStream = true) ∧
      ((ofArrivals state leftTuple? rightTuple?).join.right.hasEnded = true →
        state.right.hasEnded = true ∨
          ∃ tuple, rightTuple? = some tuple ∧ tuple.isEndOfStream = true) := by
  rcases leftTuple? with _ | left <;> rcases rightTuple? with _ | right
  · simp [ofArrivals]
  · cases right_end : right.isEndOfStream <;>
      simp [ofArrivals, receive_of_end, receive_of_data, right_end]
  · cases left_end : left.isEndOfStream <;>
      simp [ofArrivals, receive_of_end, receive_of_data, left_end]
  · cases left_end : left.isEndOfStream <;> cases right_end : right.isEndOfStream <;>
      simp [ofArrivals, receive_of_end, receive_of_data, left_end, right_end]

/-- A marker is sent when both inputs have ended, and nothing else is sent then. -/
theorem markers_ofArrivals {state : WindowJoin} {leftTuple? rightTuple? : Option Tuple}
    (left_ended : state.left.hasEnded = true → leftTuple? = none)
    (right_ended : state.right.hasEnded = true → rightTuple? = none) :
    (ofArrivals state leftTuple? rightTuple?).markers = [] ∨
      (ofArrivals state leftTuple? rightTuple?).completed = false ∧
        (ofArrivals state leftTuple? rightTuple?).join.left.hasEnded = true ∧
        (ofArrivals state leftTuple? rightTuple?).join.right.hasEnded = true ∧
        ∃ marker, (ofArrivals state leftTuple? rightTuple?).markers = [marker] := by
  rcases leftTuple? with _ | left <;> rcases rightTuple? with _ | right
  · exact .inl rfl
  · cases right_end : right.isEndOfStream with
    | false => exact .inl (by simp [ofArrivals, receive_of_data, right_end])
    | true =>
        cases other_end : state.left.hasEnded <;>
          simp [ofArrivals, receive_of_end, right_end, hasEnded, other_end]
  · cases left_end : left.isEndOfStream with
    | false => exact .inl (by simp [ofArrivals, receive_of_data, left_end])
    | true =>
        cases other_end : state.right.hasEnded <;>
          simp [ofArrivals, receive_of_end, left_end, hasEnded, other_end]
  · -- Where a tuple arrives, the end was not noted.
    have left_open : state.left.hasEnded = false :=
      Bool.eq_false_iff.mpr fun ends => by cases left_ended ends
    have right_open : state.right.hasEnded = false :=
      Bool.eq_false_iff.mpr fun ends => by cases right_ended ends
    cases left_end : left.isEndOfStream <;> cases right_end : right.isEndOfStream <;>
      simp [ofArrivals, receive_of_end, receive_of_data, left_end, right_end, hasEnded, left_open,
        right_open]

end WindowJoin.Turn

namespace World

variable {world : World} {fed : Nat → List Tuple} {role : CommitRole} {header : OperatorHeader}
  {logic : JoinLogic} {left right : QueryTree} {cell : Cell}

/-- A marker that is at the head of a queue is the last of its tuples. -/
theorem tail_eq_nil_of_head {tuple : Tuple} {queue : List Tuple} (once : EndsOnce queue)
    (at_head : queue.head? = some tuple) (marks : tuple.isEndOfStream = true) :
    queue.tail = [] ∧ HasEnd queue := by
  obtain ⟨rest, rfl⟩ := List.head?_eq_some_iff.mp at_head
  exact ⟨once.eq_nil marks, tuple, List.mem_cons_self, marks⟩

/-- Ends that a join notes are those of spent inputs. -/
theorem notesEnds_ofArrivals {after : World} {state : WindowJoin}
    (notes : world.NotesEnds (world.IsSpent fed) left right state)
    (left_once : EndsOnce (world.output left.id).queue)
    (right_once : EndsOnce (world.output right.id).queue)
    (left_spent : HasEnd (world.output left.id).queue → world.IsSpent fed left)
    (right_spent : HasEnd (world.output right.id).queue → world.IsSpent fed right)
    (left_queue : (after.output left.id).queue = (world.output left.id).queue.tail)
    (right_queue : (after.output right.id).queue = (world.output right.id).queue.tail) :
    after.NotesEnds (world.IsSpent fed) left right
      (WindowJoin.Turn.ofArrivals state (world.output left.id).queue.head?
        (world.output right.id).queue.head?).join := by
  constructor
  · intro ends
    rw [left_queue]
    rcases WindowJoin.Turn.hasEnded_ofArrivals.1 ends with earlier | ⟨marker, at_head, marks⟩
    · exact ⟨(notes.1 earlier).1, by rw [(notes.1 earlier).2, List.tail_nil]⟩
    · obtain ⟨last, has_end⟩ := tail_eq_nil_of_head left_once at_head marks
      exact ⟨left_spent has_end, last⟩
  · intro ends
    rw [right_queue]
    rcases WindowJoin.Turn.hasEnded_ofArrivals.2 ends with earlier | ⟨marker, at_head, marks⟩
    · exact ⟨(notes.2 earlier).1, by rw [(notes.2 earlier).2, List.tail_nil]⟩
    · obtain ⟨last, has_end⟩ := tail_eq_nil_of_head right_once at_head marks
      exact ⟨right_spent has_end, last⟩

/-- A join that took tuples advances if its ends are in order. -/
theorem Joins.advances {results : List Tuple} {outcome : World × Except OperatorError Step}
    (joins : Joins header.id left.id right.id cell results world outcome.1)
    (quiet : ∀ step, outcome.2 = .ok step → step.isSignal = false) (endsOnce : EndsOnce results)
    (starves : HasEnd results →
      (world.IsSpent fed left ∧ (outcome.1.output left.id).queue = []) ∧
        world.IsSpent fed right ∧ (outcome.1.output right.id).queue = [])
    (sides : ∀ state, outcome.1.memory? header.id = some (.join state) →
      outcome.1.NotesEnds (world.IsSpent fed) left right state)
    (pending : outcome.1.hasPendingCommit header.id = true →
      world.hasPendingCommit header.id = true) :
    Advances fed role (.join header logic left right) results world outcome := by
  refine ⟨joins.moves, endsOnce, fun ends => ⟨⟨?_, by simp⟩, ?_⟩, by simp, ?_,
    fun opened => .inl (pending opened), fun _ lost => (by cases quiet _ lost),
    fun _ waiting => (by cases quiet _ waiting)⟩
  · simpa [QueryTree.inputs] using ⟨(starves ends).1.2, (starves ends).2.2⟩
  · simpa [QueryTree.inputs] using ⟨(starves ends).1.1, (starves ends).2.1⟩
  · rintro _ _ _ _ ⟨⟩
    exact sides

/-- A join sends at most one marker, once both inputs are spent, and then no tuples. -/
theorem ends_of_markers {after : World} {state : WindowJoin} {joined : List Tuple}
    (noted : world.NotesEnds (world.IsSpent fed) left right state)
    (notes_after : after.NotesEnds (world.IsSpent fed) left right
      (WindowJoin.Turn.ofArrivals state (world.output left.id).queue.head?
        (world.output right.id).queue.head?).join)
    (data : ∀ result ∈ joined, result.isEndOfStream = false)
    (incomplete : (WindowJoin.Turn.ofArrivals state (world.output left.id).queue.head?
      (world.output right.id).queue.head?).completed = false → joined = []) :
    EndsOnce ((WindowJoin.Turn.ofArrivals state (world.output left.id).queue.head?
        (world.output right.id).queue.head?).markers ++ joined) ∧
      (HasEnd ((WindowJoin.Turn.ofArrivals state (world.output left.id).queue.head?
          (world.output right.id).queue.head?).markers ++ joined) →
        (world.IsSpent fed left ∧ (after.output left.id).queue = []) ∧
          world.IsSpent fed right ∧ (after.output right.id).queue = []) := by
  have data_only := not_hasEnd_of_data data
  have left_drained (ends : state.left.hasEnded = true) :
      (world.output left.id).queue.head? = none := by rw [(noted.1 ends).2, List.head?_nil]
  have right_drained (ends : state.right.hasEnded = true) :
      (world.output right.id).queue.head? = none := by rw [(noted.2 ends).2, List.head?_nil]
  rcases WindowJoin.Turn.markers_ofArrivals left_drained right_drained with
    unmarked | ⟨unfinished, left_ended, right_ended, marker, markers_eq⟩
  · rw [unmarked]
    exact ⟨endsOnce_of_not_hasEnd data_only, fun ends => absurd ends data_only⟩
  · refine ⟨?_, fun _ => ⟨notes_after.1 left_ended, notes_after.2 right_ended⟩⟩
    rw [markers_eq, incomplete unfinished]
    exact endsOnce_singleton marker

theorem advances_join (found : world.cells[header.id]? = some cell)
    (left_ne : left.id ≠ header.id) (right_ne : right.id ≠ header.id) (apart : left.id ≠ right.id)
    (left_once : EndsOnce (world.output left.id).queue)
    (right_once : EndsOnce (world.output right.id).queue)
    (left_spent : HasEnd (world.output left.id).queue → world.IsSpent fed left)
    (right_spent : HasEnd (world.output right.id).queue → world.IsSpent fed right)
    (notes : ∀ state, world.memory? header.id = some (.join state) →
      world.NotesEnds (world.IsSpent fed) left right state) :
    ∃ results, Advances fed role (.join header logic left right) results world
      (world.evaluate role (.join header logic left right)) := by
  rw [evaluate]
  by_cases waits : (world.output left.id).queue ≠ [] ∨ (world.output right.id).queue ≠ []
  · obtain ⟨⟨results, joins⟩, quiet⟩ :=
      evaluateJoin_joins found logic left_ne right_ne apart waits
    generalize world.evaluateJoin header logic left.id right.id = outcome at joins quiet
    refine ⟨results, ?_⟩
    rcases joins.received with
      ⟨state, joined, memory_eq, data, results_eq, incomplete, remembered⟩ |
        ⟨rfl, not_join, remembered⟩
    · have noted : world.NotesEnds (world.IsSpent fed) left right state :=
        notes state (memory_eq ▸ memory?_of_getElem? found)
      have notes_after := notesEnds_ofArrivals noted left_once right_once left_spent right_spent
        joins.left_queue joins.right_queue
      obtain ⟨endsOnce, starves⟩ := ends_of_markers noted notes_after data incomplete
      rw [← results_eq] at endsOnce starves
      refine joins.advances quiet endsOnce starves (fun other is_other => ?_) fun opened => ?_
      · obtain rfl : _ = other := by simpa [remembered] using is_other
        exact notes_after
      · rw [hasPendingCommit_eq, remembered] at opened
        cases opened
    · have same : outcome.1.memory? header.id = world.memory? header.id :=
        remembered.trans (memory?_of_getElem? found).symm
      refine joins.advances quiet (endsOnce_of_not_hasEnd not_hasEnd_nil)
        (fun ends => absurd ends not_hasEnd_nil) (fun state is_join => ?_) fun opened => ?_
      · rw [remembered] at is_join
        exact absurd (Option.some.inj is_join) (not_join state)
      · rwa [hasPendingCommit_eq, same, ← hasPendingCommit_eq] at opened
  · simp only [not_or, not_not] at waits
    rw [evaluateJoin_of_nil waits.1 waits.2]
    refine ⟨[], .refl _ _, endsOnce_of_not_hasEnd not_hasEnd_nil,
      fun ends => absurd ends not_hasEnd_nil, by simp, ?_, .inl, by simp, by simp⟩
    rintro _ _ _ _ ⟨⟩
    exact notes

end World

end StreamQuery
