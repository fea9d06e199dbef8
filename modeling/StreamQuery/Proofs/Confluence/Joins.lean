import Mathlib.Data.List.ProdSigma
import StreamQuery.Proofs.Confluence.Lanes
import StreamQuery.Proofs.Engine.Ends

/-!
# Joins of lanes

What a join with tumbling windows remembers of its lanes, and which pairs it sends on. A window that
is completed holds tuples that were in no window before, so that its pairs are new.
-/

namespace StreamQuery

/-- A tuple that tells which two tuples it was joined from, and is not newer than either. -/
structure Tuple.Joins (result left right : Tuple) : Prop where
  told : result.lineage.arrivals = [left.lowWater, right.lowWater]
  left_le : result.lowWater ≤ left.lowWater
  right_le : result.lowWater ≤ right.lowWater

namespace JoinSide

/-- What a join remembers of a lane. -/
def Follows (window : Window) (lane : Lane) (side : JoinSide) : Prop :=
  ∃ buffer, side.synopsis = .rows buffer ∧ buffer.Gathers window lane.fresh ∧
    (side.isReady = true →
      window.width ≤ buffer.tuples.length ∧ buffer.tuples.Sublist lane.closed)

variable {window : Window} {lane : Lane} {side : JoinSide}

theorem Follows.tuples_sublist (follows : side.Follows window lane) (ready : side.isReady = true) :
    side.synopsis.tuples.Sublist lane.closed := by
  obtain ⟨buffer, synopsis_eq, _, visible⟩ := follows
  rw [synopsis_eq]
  exact (visible ready).2

/-- A join that starts over remembers nothing. -/
theorem Follows.reset (follows : side.Follows window lane) {after : Lane}
    (fresh_eq : after.fresh = []) :
    side.reset.Follows window after := by
  obtain ⟨buffer, synopsis_eq, gathers, _⟩ := follows
  refine ⟨buffer.reset, congrArg Synopsis.reset synopsis_eq, ?_, nofun⟩
  rw [fresh_eq]
  exact gathers.reset

/-- What a lane and a join become when the join takes a tuple. -/
structure Receives (window : Window) (lane : Lane) (rest : List Tuple) (before : JoinSide)
    (outcome : JoinSide × Bool) (after : Lane) : Prop where
  leads : lane.Leads after
  follows : outcome.1.Follows window after
  waiting_eq : after.waiting = rest
  arriving_eq : after.arriving = lane.arriving
  passed_eq : after.passed = lane.passed
  backup_eq : after.backup = lane.backup
  /-- The tuples of a window that is completed are later than those of the windows before. -/
  later : outcome.2 = true → ∀ tuple ∈ outcome.1.synopsis.tuples, ∀ old ∈ lane.closed,
    old.lowWater < tuple.lowWater

theorem Follows.accept (follows : side.Follows window lane) (ordered : lane.IsOrdered)
    {tuple : Tuple} {rest : List Tuple} (waiting_eq : lane.waiting = tuple :: rest) :
    ∃ after, Receives window lane rest side (side.accept tuple) after := by
  obtain ⟨buffer, synopsis_eq, gathers, visible⟩ := follows
  rcases gathers.enqueue tuple with
    ⟨none_reported, remembers⟩ | ⟨reported, tuples_eq, full, remembers⟩
  · have accept_eq : side.accept tuple =
        ({ side with synopsis := .rows (buffer.enqueue tuple).1 }, false) := by
      simp [JoinSide.accept, synopsis_eq, Synopsis.enqueue, none_reported]
    rw [accept_eq]
    refine ⟨_, ordered.gather waiting_eq, ⟨_, rfl, remembers, fun ready => ?_⟩, rfl, rfl, rfl, rfl,
      by simp⟩
    obtain ⟨full, inside⟩ := visible ready
    rw [RowBuffer.enqueue_tuples_of_full (gathers.width_eq ▸ full) none_reported]
    exact ⟨full, inside⟩
  · have accept_eq : side.accept tuple =
        ({ side with synopsis := .rows (buffer.enqueue tuple).1, isReady := true }, true) := by
      simp [JoinSide.accept, synopsis_eq, Synopsis.enqueue, reported]
    have leads := ordered.close waiting_eq
    rw [accept_eq]
    refine ⟨_, leads, ⟨_, rfl, remembers, fun _ => ?_⟩, rfl, rfl, rfl, rfl,
      fun _ newer newer_mem old old_mem => ?_⟩
    · rw [tuples_eq]
      exact ⟨Nat.le_of_eq full.symm, List.sublist_append_right _ _⟩
    · have increasing := leads.ordered.line_increasing
      simp only [Lane.line, List.append_nil, List.map_append] at increasing
      have newer_fresh : newer ∈ lane.fresh ++ [tuple] := tuples_eq ▸ newer_mem
      exact (List.pairwise_append.mp (List.pairwise_append.mp increasing).1).2.2 _
        (List.mem_map_of_mem old_mem) _ (List.map_append ▸ List.mem_map_of_mem newer_fresh)

theorem Follows.receive (follows : side.Follows window lane) (ordered : lane.IsOrdered)
    {tuple? : Option Tuple} {rest : List Tuple}
    (waiting_eq : lane.waiting = tuple?.toList ++ rest) :
    ∃ after, Receives window lane rest side (side.receive tuple?) after := by
  cases tuple? with
  | none =>
      exact ⟨lane, .refl ordered, follows, waiting_eq, rfl, rfl, rfl,
        fun completed => absurd completed Bool.false_ne_true⟩
  | some tuple =>
      rw [JoinSide.receive]
      split
      · exact ⟨_, ordered.skip waiting_eq, follows, rfl, rfl, rfl, rfl,
          fun completed => absurd completed Bool.false_ne_true⟩
      · exact follows.accept ordered waiting_eq

end JoinSide

namespace WindowJoin

/-- Only markers are sent on as they are. -/
theorem Turn.dataOf_markers (state : WindowJoin) (left? right? : Option Tuple) :
    dataOf (ofArrivals state left? right?).markers = [] := by
  have receive {turn : Turn} (none_yet : dataOf turn.markers = []) (arrival : Side × Tuple) :
      dataOf (turn.receive arrival).markers = [] := by
    obtain ⟨side, tuple⟩ := arrival
    rw [Turn.receive]
    split
    next is_marker =>
      simp only
      split
      · rw [dataOf_append_of_marker _ is_marker, none_yet]
      · exact none_yet
    next => exact none_yet
  exact List.foldlRecOn (motive := fun turn : Turn => dataOf turn.markers = []) _ _ rfl
    fun turn none_yet arrival _ => receive none_yet arrival

/-- What is sent on, if anything, was computed because a window was completed. -/
theorem Turn.sent_cases (turn : Turn) (condition : Condition) (schema : Schema) :
    (turn.results condition schema).toOption.getD [] = [] ∨
      turn.completed = true ∧ turn.join.results condition schema =
        .ok ((turn.results condition schema).toOption.getD []) := by
  cases computed : turn.results condition schema with
  | error error => exact .inl rfl
  | ok results =>
      rw [Turn.results] at computed
      split at computed
      · rename_i completed
        exact .inr ⟨completed, computed⟩
      · cases computed
        exact .inl rfl

/-- What is sent on is selected from the pairs of two full windows. -/
theorem results_spec {join : WindowJoin} {condition : Condition} {schema : Schema}
    {results : List Tuple} (computed : join.results condition schema = .ok results) :
    results = [] ∨ (join.left.isReady = true ∧ join.right.isReady = true) ∧
      ∃ lowWater, join.lowWater? = some lowWater ∧
        results.Sublist (join.candidates.map fun (left, right) =>
          pair schema lowWater left right) := by
  rw [WindowJoin.results] at computed
  split at computed
  · rename_i ready
    split at computed
    · rename_i lowWater found
      exact .inr ⟨Bool.and_eq_true_iff.mp ready, lowWater, found, select_sublist computed⟩
    · cases computed
      exact .inl rfl
  · cases computed
    exact .inl rfl

/-- The pairs of two full windows are different pairs. -/
theorem nodup_candidates {join : WindowJoin}
    (left : (join.left.synopsis.tuples.map Tuple.lowWater).Nodup)
    (right : (join.right.synopsis.tuples.map Tuple.lowWater).Nodup) :
    (join.candidates.map fun (left, right) => [left.lowWater, right.lowWater]).Nodup := by
  have product : join.candidates.Nodup :=
    (List.Nodup.of_map _ left).product (List.Nodup.of_map _ right)
  refine product.map_on fun ⟨first, second⟩ first_mem ⟨other, another⟩ other_mem same => ?_
  have first_sides := List.mem_product.mp first_mem
  have other_sides := List.mem_product.mp other_mem
  obtain ⟨left_eq, right_eq⟩ : first.lowWater = other.lowWater ∧
      second.lowWater = another.lowWater := by simpa using same
  rw [List.inj_on_of_nodup_map left first_sides.1 other_sides.1 left_eq,
    List.inj_on_of_nodup_map right first_sides.2 other_sides.2 right_eq]

/-- A join sends on different pairs of tuples from full windows. -/
theorem results_join {join : WindowJoin} {condition : Condition} {schema : Schema}
    {results : List Tuple} (computed : join.results condition schema = .ok results)
    {leftWindow rightWindow : Window} {left right : Lane}
    (left_follows : join.left.Follows leftWindow left)
    (right_follows : join.right.Follows rightWindow right) (left_ordered : left.IsOrdered)
    (right_ordered : right.IsOrdered) :
    (results.map (·.lineage.arrivals)).Nodup ∧
      ∀ result ∈ results, result.isEndOfStream = false ∧
        ∃ first ∈ join.left.synopsis.tuples, ∃ second ∈ join.right.synopsis.tuples,
          first ∈ left.closed ∧ second ∈ right.closed ∧ result.Joins first second := by
  rcases results_spec computed with rfl | ⟨⟨left_ready, right_ready⟩, lowWater, found, selected⟩
  · exact ⟨List.nodup_nil, nofun⟩
  have left_part := left_follows.tuples_sublist left_ready
  have right_part := right_follows.tuples_sublist right_ready
  have distinct {lane : Lane} (ordered : lane.IsOrdered) {tuples : List Tuple}
      (part : tuples.Sublist lane.closed) : (tuples.map Tuple.lowWater).Nodup := by
    have inside : tuples.Sublist lane.line := part.trans
      ((List.sublist_append_left _ _).trans (List.sublist_append_left _ _))
    exact (ordered.line_increasing.sublist (inside.map _)).imp Int.ne_of_lt
  have told {lane : Lane} (ordered : lane.IsOrdered) {tuple : Tuple}
      (member : tuple ∈ lane.closed) :
      tuple.lineage.arrivals = [tuple.lowWater] :=
    ordered.told tuple (List.mem_append_left _ (List.mem_append_left _ member))
  have joins {first second : Tuple} (candidate : (first, second) ∈ join.candidates) :
      first ∈ join.left.synopsis.tuples ∧ second ∈ join.right.synopsis.tuples ∧
        (pair schema lowWater first second).Joins first second := by
    obtain ⟨first_mem, second_mem⟩ := List.mem_product.mp candidate
    refine ⟨first_mem, second_mem, ?_, lowWater?_le found (List.mem_append_left _ first_mem),
      lowWater?_le found (List.mem_append_right _ second_mem)⟩
    simp [pair, Lineage.arrivals, told left_ordered (left_part.subset first_mem),
      told right_ordered (right_part.subset second_mem)]
  constructor
  · refine List.Nodup.sublist (selected.map _) ?_
    have times_eq : (join.candidates.map fun (left, right) => pair schema lowWater left right).map
        (·.lineage.arrivals) =
          join.candidates.map fun (left, right) => [left.lowWater, right.lowWater] := by
      rw [List.map_map]
      exact List.map_congr_left fun ⟨_, _⟩ candidate => (joins candidate).2.2.told
    rw [times_eq]
    exact nodup_candidates (distinct left_ordered left_part) (distinct right_ordered right_part)
  · intro result member
    obtain ⟨⟨first, second⟩, candidate, rfl⟩ := List.mem_map.mp (selected.subset member)
    obtain ⟨first_mem, second_mem, is_joined⟩ := joins candidate
    exact ⟨rfl, first, first_mem, second, second_mem, left_part.subset first_mem,
      right_part.subset second_mem, is_joined⟩

end WindowJoin

end StreamQuery
