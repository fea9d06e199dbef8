import StreamQuery.Engine.World
import StreamQuery.Proofs.Channel
import StreamQuery.Proofs.Outcome
import StreamQuery.Proofs.Window.Held

/-!
# Results of operators

What an operator sends is computed from tuples that it was given or remembers, in one of the ways
that `Yields` lists.
-/

namespace StreamQuery

/-- The ways in which an operator, evaluated between two states of the catalog, computes a tuple
from tuples that hold for its inputs. -/
inductive Yields (before after : Catalog) (role : CommitRole) (holds : QueryTree → Tuple → Prop) :
    QueryTree → Tuple → Prop where
  /-- A source passes on what arrived. -/
  | arrived {header : OperatorHeader} {tuple : Tuple} :
      holds (.source header) tuple → Yields before after role holds (.source header) tuple
  /-- A marker, or a tuple that was selected. -/
  | passed {header : OperatorHeader} {logic : SingleLogic} {input : QueryTree} {tuple : Tuple} :
      holds input tuple → tuple.isEndOfStream = true ∨ (∃ condition, logic = .select condition) →
      Yields before after role holds (.single header logic input) tuple
  | projected {header : OperatorHeader} {indices : List Nat} {input : QueryTree}
      {tuple result : Tuple} :
      holds input tuple → projectTuple indices header.schema tuple = .ok result →
      Yields before after role holds (.single header (.project indices) input) result
  /-- A tuple that met a row of a relation which was read in this evaluation. -/
  | matched {header : OperatorHeader} {reference : RelationReference} {condition : Condition}
      {input : QueryTree} {tuple row : Tuple} {relation : Relation} {snapshot : Snapshot}
      {position : Nat} :
      holds input tuple → before.relations[reference.place]? = some relation →
      before.readRelation reference.place relation = (snapshot, after) →
      Yields before after role holds (.single header (.combine reference condition) input)
        (matchTuple header.schema relation.id snapshot.version tuple row position)
  /-- The result of a window with tuples, which is consistent if that is checked. -/
  | aggregated {header : OperatorHeader} {window : Window} {function : AggregateFunction}
      {input : QueryTree} {contents : Contents} {result : Tuple} :
      (∀ tuple ∈ contents.tuples, holds input tuple) →
      (role.checksConsistency = true → contents.isConsistent = true) →
      function.apply header.schema contents = .ok result → contents.tuples ≠ [] →
      Yields before after role holds (.single header (.aggregate window function) input) result
  /-- A pair of tuples, neither of which has a smaller low-water mark. -/
  | paired {header : OperatorHeader} {logic : JoinLogic} {left right : QueryTree} {lowWater : Int}
      {leftTuple rightTuple : Tuple} :
      holds left leftTuple → holds right rightTuple →
      lowWater ≤ leftTuple.lowWater → lowWater ≤ rightTuple.lowWater →
      Yields before after role holds (.join header logic left right)
        (WindowJoin.pair header.schema lowWater leftTuple rightTuple)
  /-- The marker that ended the second side of a join. -/
  | ended {header : OperatorHeader} {logic : JoinLogic} {left right input : QueryTree}
      {tuple : Tuple} :
      input ∈ [left, right] → holds input tuple → tuple.isEndOfStream = true →
      Yields before after role holds (.join header logic left right) tuple

/-- What an operator remembers consists of tuples that hold for its inputs. -/
def Memory.Carries (holds : QueryTree → Tuple → Prop) : QueryTree → Memory → Prop
  | .source header, .source arrivals => ∀ tuple ∈ arrivals.queue, holds (.source header) tuple
  | .single _ (.aggregate _ _) input, .aggregate aggregation =>
    ∀ tuple ∈ aggregation.synopsis.held, holds input tuple
  | .join _ _ left right, .join state =>
    (∀ tuple ∈ state.left.synopsis.held, holds left tuple) ∧
      ∀ tuple ∈ state.right.synopsis.held, holds right tuple
  | _, _ => True

namespace Memory

variable {holds holds' : QueryTree → Tuple → Prop}

theorem carries_initial (operator : QueryTree) : (initial operator).Carries holds operator := by
  rcases operator with header | ⟨header, logic, input⟩ | ⟨header, logic, left, right⟩
  · simp [initial, Carries]
  · cases logic <;> simp [initial, Carries, Synopsis.held_ofWindow]
  · simp [initial, Carries, Synopsis.held_ofWindow]

theorem Carries.mono {operator : QueryTree} {memory : Memory}
    (carries : memory.Carries holds operator)
    (weaker : ∀ source ∈ operator :: operator.inputs, ∀ tuple, holds source tuple →
      holds' source tuple) : memory.Carries holds' operator := by
  simp only [Carries] at carries ⊢
  split
  · exact fun tuple member => weaker _ (by simp) tuple (carries tuple member)
  · exact fun tuple member => weaker _ (by simp [QueryTree.inputs]) tuple (carries tuple member)
  · obtain ⟨left_carries, right_carries⟩ := carries
    exact ⟨fun tuple member => weaker _ (by simp [QueryTree.inputs]) tuple
        (left_carries tuple member),
      fun tuple member => weaker _ (by simp [QueryTree.inputs]) tuple (right_carries tuple member)⟩
  · trivial

/-- Only arrivals survive a restart. -/
theorem carries_reset {operator : QueryTree} {memory : Memory}
    (source_carries : ∀ arrivals header, memory = .source arrivals → operator = .source header →
      ∀ tuple ∈ arrivals.queue, holds operator tuple) :
    memory.reset.Carries holds operator := by
  simp only [Carries]
  split
  · rename_i header arrivals reset_eq
    have memory_eq : memory = .source arrivals := by
      cases memory <;> simp_all [reset]
    exact source_carries arrivals header memory_eq rfl
  · rename_i aggregation reset_eq
    cases memory <;> simp [reset] at reset_eq
    subst reset_eq
    simp [Aggregation.reset, Synopsis.held_reset]
  · rename_i state reset_eq
    cases memory <;> simp [reset] at reset_eq
    subst reset_eq
    simp [WindowJoin.reset, JoinSide.reset, Synopsis.held_reset]
  · trivial

end Memory

namespace Cell

/-- An operator has sent results and remembers its input. -/
def Sends (yields : Tuple → Prop) (remembers : Memory → Prop) (before after : Cell) : Prop :=
  ∃ results, after.output = before.output.enqueueAll results ∧ (∀ result ∈ results, yields result) ∧
    remembers after.memory

variable {yields : Tuple → Prop} {remembers : Memory → Prop} {cell : Cell}

theorem sends_nothing {after : Cell} (output_eq : after.output = cell.output)
    (remembered : remembers after.memory) : Sends yields remembers cell after :=
  ⟨[], by simpa [Channel.enqueueAll] using output_eq, by simp, remembered⟩

theorem sends_deliver {outcome : Except OperatorError (List Tuple)}
    (remembered : remembers cell.memory)
    (yielded : ∀ results, outcome = .ok results → ∀ result ∈ results, yields result) :
    Sends yields remembers cell (cell.deliver outcome).1 := by
  cases outcome with
  | error error => exact sends_nothing rfl remembered
  | ok results =>
      cases results with
      | nil => exact sends_nothing rfl remembered
      | cons result results => exact ⟨result :: results, rfl, yielded _ rfl, remembered⟩

end Cell

/-! ## Operators with one input -/

/-- Whatever is found was a row of the relation. -/
theorem mem_matchRows {condition : Condition} {schema : Schema} {relation : RelationId}
    {version : Nat} {tuple : Tuple} {rows : List (Tuple × Nat)} {results : List Tuple}
    (found : matchRows condition schema relation version tuple rows = .ok results) {result : Tuple}
    (member : result ∈ results) :
    ∃ entry ∈ rows, result = matchTuple schema relation version tuple entry.1 entry.2 := by
  induction rows generalizing results with
  | nil =>
      cases found
      simp at member
  | cons entry rows induction =>
      obtain ⟨row, position⟩ := entry
      obtain ⟨matched, _, found⟩ := bind_eq_ok.mp found
      obtain ⟨later, later_found, found⟩ := bind_eq_ok.mp found
      obtain rfl := pure_eq_ok.mp found
      have among_later (is_later : result ∈ later) :
          ∃ entry ∈ (row, position) :: rows,
            result = matchTuple schema relation version tuple entry.1 entry.2 := by
        obtain ⟨entry, entry_mem, result_eq⟩ := induction later_found is_later
        exact ⟨entry, List.mem_cons_of_mem _ entry_mem, result_eq⟩
      cases matched with
      | false => exact among_later member
      | true =>
          rcases List.mem_cons.mp member with rfl | is_later
          · exact ⟨(row, position), List.mem_cons_self, rfl⟩
          · exact among_later is_later

/-- A result comes from a window that was completed, and that is consistent if this is checked. -/
theorem Evaluation.mem_results {compute : Contents → Except OperatorError Tuple}
    {checksConsistency : Bool} {windows : List Contents} {result : Tuple}
    (member : result ∈ (ofWindows compute checksConsistency windows).results) :
    ∃ window ∈ windows, compute window = .ok result ∧
      (checksConsistency = true → window.isConsistent = true) := by
  induction windows with
  | nil => simp [ofWindows] at member
  | cons window windows induction =>
      simp only [ofWindows] at member
      split at member
      · simp at member
      · rename_i unobjected
        split at member
        · simp at member
        · rename_i first computed
          rcases List.mem_cons.mp member with rfl | is_later
          · exact ⟨window, List.mem_cons_self, computed, by simpa using unobjected⟩
          · obtain ⟨found, found_mem, found_computed⟩ := induction is_later
            exact ⟨found, List.mem_cons_of_mem _ found_mem, found_computed⟩

section

variable {before after : Catalog} {role : CommitRole} {holds : QueryTree → Tuple → Prop}
  {header : OperatorHeader} {input : QueryTree} {tuple : Tuple} {cell : Cell}

theorem Cell.sends_passOn (remembered : cell.memory.Carries holds (.source header)) :
    cell.Sends (Yields before after role holds (.source header))
      (Memory.Carries holds (.source header)) (cell.passOn header.name).1 := by
  rw [passOn]
  split
  · rename_i arrivals memory_eq
    rw [memory_eq] at remembered
    split
    · exact sends_nothing rfl (memory_eq ▸ remembered)
    · rename_i oldest rest dequeued
      obtain ⟨queue_eq, _⟩ := Channel.dequeue?_eq_some dequeued
      refine ⟨[oldest], rfl, ?_, fun later member => ?_⟩
      · simpa using Yields.arrived (remembered oldest (by simp [queue_eq]))
      · exact remembered later (queue_eq ▸ List.mem_cons_of_mem _ member)
  · exact sends_nothing rfl remembered

theorem Cell.sends_select {condition : Condition} (given : holds input tuple) :
    cell.Sends (Yields before after role holds (.single header (.select condition) input))
      (Memory.Carries holds (.single header (.select condition) input))
      (cell.select header.name condition tuple).1 := by
  rw [select]
  split
  · refine sends_deliver (by simp [Memory.Carries]) fun results selected result member => ?_
    obtain ⟨passes, _, rfl⟩ := map_eq_ok.mp selected
    cases passes with
    | false => simp at member
    | true =>
        obtain rfl := List.mem_singleton.mp member
        exact .passed given (.inr ⟨condition, rfl⟩)
  · exact sends_nothing rfl (by simp [Memory.Carries])

theorem Cell.sends_aggregate {window : Window} {function : AggregateFunction}
    (given : holds input tuple)
    (remembered : cell.memory.Carries holds (.single header (.aggregate window function) input)) :
    cell.Sends
      (Yields before after role holds (.single header (.aggregate window function) input))
      (Memory.Carries holds (.single header (.aggregate window function) input))
      (cell.aggregate header function role tuple).1 := by
  rw [aggregate]
  split
  · rename_i aggregation memory_eq
    rw [memory_eq] at remembered
    have given_of {other : Tuple} (member : other ∈ aggregation.synopsis.held ∨ other = tuple) :
        holds input other := by
      rcases member with old | rfl
      · exact remembered other old
      · exact given
    have results_eq : (aggregation.accept function header.schema role tuple).2.1 =
        (Evaluation.ofWindows (function.apply header.schema) role.checksConsistency
          (aggregation.synopsis.enqueue tuple).2).results := rfl
    have yielded : ∀ result ∈ (aggregation.accept function header.schema role tuple).2.1,
        Yields before after role holds (.single header (.aggregate window function) input)
          result := by
      intro result member
      rw [results_eq] at member
      obtain ⟨contents, reported, computed, consistent⟩ := Evaluation.mem_results member
      exact .aggregated (fun other inside => given_of (Synopsis.mem_enqueue_window reported inside))
        consistent computed (Synopsis.tuples_ne_nil_of_mem_enqueue reported)
    have kept : Memory.Carries holds (.single header (.aggregate window function) input)
        (.aggregate (aggregation.accept function header.schema role tuple).1) :=
      fun other member => given_of (Synopsis.mem_enqueue_held member)
    simp only
    split
    · exact ⟨_, rfl, yielded, kept⟩
    · exact ⟨_, rfl, yielded, kept⟩
  · exact sends_nothing rfl remembered

end

/-! ## Window joins -/

namespace WindowJoin

/-- A selection of pairs keeps their order. -/
theorem select_sublist {condition : Condition} {schema : Schema} {lowWater : Int}
    {pairs : List (Tuple × Tuple)} {results : List Tuple}
    (selected : select condition schema lowWater pairs = .ok results) :
    results.Sublist (pairs.map fun (left, right) => pair schema lowWater left right) := by
  induction pairs generalizing results with
  | nil =>
      cases selected
      exact .slnil
  | cons candidate pairs induction =>
      obtain ⟨left, right⟩ := candidate
      obtain ⟨matched, _, selected⟩ := bind_eq_ok.mp selected
      obtain ⟨later, later_selected, selected⟩ := bind_eq_ok.mp selected
      obtain rfl := pure_eq_ok.mp selected
      cases matched with
      | true => exact (induction later_selected).cons_cons _
      | false => exact (induction later_selected).cons _

/-- Joined tuples are pairs of candidates. -/
theorem mem_select {condition : Condition} {schema : Schema} {lowWater : Int}
    {pairs : List (Tuple × Tuple)} {results : List Tuple}
    (selected : select condition schema lowWater pairs = .ok results) {result : Tuple}
    (member : result ∈ results) :
    ∃ left right, (left, right) ∈ pairs ∧ result = pair schema lowWater left right := by
  obtain ⟨⟨left, right⟩, candidate, rfl⟩ :=
    List.mem_map.mp ((select_sublist selected).subset member)
  exact ⟨left, right, candidate, rfl⟩

theorem lowWater?_le {join : WindowJoin} {lowWater : Int} (found : join.lowWater? = some lowWater)
    {tuple : Tuple} (member : tuple ∈ join.left.synopsis.tuples ++ join.right.synopsis.tuples) :
    lowWater ≤ tuple.lowWater :=
  (List.min?_eq_some_iff.mp found).2 _ (List.mem_map_of_mem member)

theorem mem_results {join : WindowJoin} {condition : Condition} {schema : Schema}
    {results : List Tuple} (computed : join.results condition schema = .ok results)
    {result : Tuple} (member : result ∈ results) :
    ∃ left ∈ join.left.synopsis.held, ∃ right ∈ join.right.synopsis.held, ∃ lowWater,
      result = pair schema lowWater left right ∧ lowWater ≤ left.lowWater ∧
        lowWater ≤ right.lowWater := by
  rw [WindowJoin.results] at computed
  split at computed
  · split at computed
    · rename_i lowWater found
      obtain ⟨left, right, candidate, rfl⟩ := mem_select computed member
      simp only [candidates, List.mem_flatMap, List.mem_map, Prod.mk.injEq] at candidate
      obtain ⟨_, left_mem, _, right_mem, rfl, rfl⟩ := candidate
      exact ⟨_, Synopsis.tuples_subset_held left_mem, _, Synopsis.tuples_subset_held right_mem,
        lowWater, rfl, lowWater?_le found (List.mem_append_left _ left_mem),
        lowWater?_le found (List.mem_append_right _ right_mem)⟩
    · cases computed
      simp at member
  · cases computed
    simp at member

@[simp] theorem side_setSide_self (join : WindowJoin) (side : Side) (state : JoinSide) :
    (join.setSide side state).side side = state := by
  cases side <;> rfl

theorem side_setSide_of_ne (join : WindowJoin) {side other : Side} (state : JoinSide)
    (different : other ≠ side) : (join.setSide side state).side other = join.side other := by
  cases side <;> cases other <;> first | rfl | exact absurd rfl different

/-- What a side buffers after a tuple was received was buffered before, or is the tuple. -/
theorem Turn.mem_held_receive {turn : Turn} {side other : Side} {tuple held : Tuple}
    (member : held ∈ ((turn.receive (side, tuple)).join.side other).synopsis.held) :
    held ∈ (turn.join.side other).synopsis.held ∨
      tuple.isEndOfStream = false ∧ other = side ∧ held = tuple := by
  simp only [Turn.receive] at member
  by_cases same : other = side
  · subst same
    split at member
    · exact .inl (by simpa [endSide] using member)
    · rename_i data
      have member : held ∈ ((turn.join.side other).synopsis.enqueue tuple).1.held := by
        simpa [accept, JoinSide.accept] using member
      exact (Synopsis.mem_enqueue_held member).imp_right fun newest =>
        ⟨by simpa using data, rfl, newest⟩
  · split at member
    · exact .inl (by simpa [endSide, side_setSide_of_ne _ _ same] using member)
    · exact .inl (by simpa [accept, side_setSide_of_ne _ _ same] using member)

/-- Only markers are to be sent on as they are. -/
theorem Turn.mem_markers_receive {turn : Turn} {side : Side} {tuple marker : Tuple}
    (member : marker ∈ (turn.receive (side, tuple)).markers) :
    marker ∈ turn.markers ∨ tuple.isEndOfStream = true ∧ marker = tuple := by
  simp only [Turn.receive] at member
  split at member
  · rename_i ends
    simp only at member
    split at member
    · exact (List.mem_append.mp member).imp_right fun newest => ⟨ends, List.mem_singleton.mp newest⟩
    · exact .inl member
  · exact .inl member

/-- What holds of the tuples on both sides of a join, and of the markers it has to send on. -/
structure Turn.Carries (holds : Side → Tuple → Prop) (turn : Turn) : Prop where
  /-- The buffered tuples. -/
  held : ∀ side, ∀ tuple ∈ (turn.join.side side).synopsis.held, holds side tuple
  /-- The markers came from one of the sides. -/
  markers : ∀ tuple ∈ turn.markers, tuple.isEndOfStream = true ∧ ∃ side, holds side tuple

theorem Turn.Carries.receive {holds : Side → Tuple → Prop} {turn : Turn}
    (carries : turn.Carries holds) {arrival : Side × Tuple} (given : holds arrival.1 arrival.2) :
    (turn.receive arrival).Carries holds := by
  obtain ⟨side, tuple⟩ := arrival
  refine ⟨fun other held member => ?_, fun marker member => ?_⟩
  · rcases Turn.mem_held_receive member with old | ⟨_, rfl, rfl⟩
    · exact carries.held other held old
    · exact given
  · rcases Turn.mem_markers_receive member with old | ⟨ends, rfl⟩
    · exact carries.markers marker old
    · exact ⟨ends, side, given⟩

theorem Turn.Carries.foldl_receive {holds : Side → Tuple → Prop} {arrivals : List (Side × Tuple)}
    {turn : Turn} (carries : turn.Carries holds)
    (given : ∀ arrival ∈ arrivals, holds arrival.1 arrival.2) :
    (arrivals.foldl Turn.receive turn).Carries holds := by
  induction arrivals generalizing turn with
  | nil => exact carries
  | cons arrival arrivals induction =>
      exact induction (carries.receive (given arrival List.mem_cons_self)) fun later member =>
        given later (List.mem_cons_of_mem _ member)

end WindowJoin

/-- What holds of the inputs of a join, by side. -/
def QueryTree.holdsOn (holds : QueryTree → Tuple → Prop) (left right : QueryTree) :
    Side → Tuple → Prop
  | .left => holds left
  | .right => holds right

theorem Cell.sends_joinArrivals {before after : Catalog} {role : CommitRole}
    {holds : QueryTree → Tuple → Prop} {header : OperatorHeader} {logic : JoinLogic}
    {left right : QueryTree} {cell : Cell} {arrivals : List (Side × Tuple)}
    (given : ∀ arrival ∈ arrivals, QueryTree.holdsOn holds left right arrival.1 arrival.2)
    (remembered : cell.memory.Carries holds (.join header logic left right)) :
    cell.Sends (Yields before after role holds (.join header logic left right))
      (Memory.Carries holds (.join header logic left right))
      (cell.joinArrivals header logic.condition arrivals).1 := by
  rw [joinArrivals]
  split
  · rename_i state memory_eq
    rw [memory_eq] at remembered
    have start : ({ join := state } : WindowJoin.Turn).Carries
        (QueryTree.holdsOn holds left right) := by
      refine ⟨fun side => ?_, by simp⟩
      cases side with
      | left => exact remembered.1
      | right => exact remembered.2
    have carries := start.foldl_receive given
    have kept : Memory.Carries holds (.join header logic left right)
        (.join (arrivals.foldl WindowJoin.Turn.receive { join := state }).join) :=
      ⟨carries.held .left, carries.held .right⟩
    have marked : ∀ marker ∈ (arrivals.foldl WindowJoin.Turn.receive { join := state }).markers,
        Yields before after role holds (.join header logic left right) marker := by
      intro marker member
      obtain ⟨ends, side, holds_marker⟩ := carries.markers marker member
      cases side with
      | left => exact .ended (by simp) holds_marker ends
      | right => exact .ended (by simp) holds_marker ends
    simp only
    split
    · rename_i results computed
      refine sends_deliver kept fun sent sent_eq result member => ?_
      cases sent_eq
      rcases List.mem_append.mp member with marker | joined
      · exact marked result marker
      · rw [WindowJoin.Turn.results] at computed
        split at computed
        · obtain ⟨first, first_mem, second, second_mem, lowWater, rfl, first_le, second_le⟩ :=
            WindowJoin.mem_results computed joined
          exact .paired (carries.held .left first first_mem)
            (carries.held .right second second_mem) first_le second_le
        · cases computed
          simp at joined
    · exact ⟨_, rfl, marked, kept⟩
  · exact sends_nothing rfl remembered

end StreamQuery
