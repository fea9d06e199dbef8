import StreamQuery.Proofs.Engine.History
import StreamQuery.Proofs.Engine.Shapes
import StreamQuery.Proofs.TwoPhaseLocking

/-!
# Water marks

A tuple arrives with the newest of the arrivals that it was computed from, and its low-water mark is
no later than the oldest of them. This holds of all tuples that wait, that are backed up or that are
buffered in windows, and it is what evictions and the ends of transactions rely on.
-/

namespace StreamQuery

namespace Tuple

/-- A tuple from outside, whose low-water mark is the time of its arrival. -/
structure IsOriginal (tuple : Tuple) : Prop where
  /-- It was not computed. -/
  lineage_eq : tuple.lineage = .arrival tuple.arrival
  /-- Nothing older is needed for it. -/
  lowWater_eq : tuple.lowWater = tuple.arrival

theorem isOriginal_iff (tuple : Tuple) : tuple.IsOriginal ↔
    (match tuple.lineage with | .arrival time => decide (time = tuple.arrival) | _ => false) =
      true ∧ tuple.lowWater = tuple.arrival := by
  refine ⟨fun original => ⟨?_, original.lowWater_eq⟩, fun ⟨from_outside, lowWater_eq⟩ =>
    ⟨?_, lowWater_eq⟩⟩
  · rw [original.lineage_eq]
    exact decide_eq_true rfl
  · split at from_outside
    · rename_i time lineage_eq
      rw [lineage_eq, of_decide_eq_true from_outside]
    · cases from_outside

instance : DecidablePred IsOriginal := fun tuple => decidable_of_iff' _ tuple.isOriginal_iff

/-- The times of a tuple are those of the arrivals that it was computed from. -/
structure SpansArrivals (tuple : Tuple) : Prop where
  /-- It arrives with one of them. -/
  arrival_mem : tuple.arrival ∈ tuple.lineage.arrivals
  /-- None of them is newer. -/
  le_arrival : ∀ time ∈ tuple.lineage.arrivals, time ≤ tuple.arrival
  /-- None of them is older than the low-water mark. -/
  lowWater_le : ∀ time ∈ tuple.lineage.arrivals, tuple.lowWater ≤ time

theorem IsOriginal.spansArrivals {tuple : Tuple} (original : tuple.IsOriginal) :
    tuple.SpansArrivals := by
  have arrivals_eq : tuple.lineage.arrivals = [tuple.arrival] := by
    rw [original.lineage_eq]
    rfl
  have lowWater_eq := original.lowWater_eq
  constructor <;> simp [arrivals_eq, lowWater_eq]

namespace SpansArrivals

variable {tuple other result : Tuple}

theorem of_times_eq (spans : tuple.SpansArrivals)
    (arrivals_eq : result.lineage.arrivals = tuple.lineage.arrivals)
    (arrival_eq : result.arrival = tuple.arrival) (lowWater_eq : result.lowWater = tuple.lowWater) :
    result.SpansArrivals := by
  refine ⟨?_, ?_, ?_⟩
  · rw [arrivals_eq, arrival_eq]
    exact spans.arrival_mem
  · rw [arrivals_eq, arrival_eq]
    exact spans.le_arrival
  · rw [arrivals_eq, lowWater_eq]
    exact spans.lowWater_le

/-- A pair whose low-water mark is small enough spans the arrivals of both tuples. -/
theorem pair (left_spans : tuple.SpansArrivals) (right_spans : other.SpansArrivals)
    {lowWater : Int} (left_le : lowWater ≤ tuple.lowWater) (right_le : lowWater ≤ other.lowWater)
    (schema : Schema) : (WindowJoin.pair schema lowWater tuple other).SpansArrivals := by
  refine ⟨?_, fun time member => ?_, fun time member => ?_⟩
  · simp only [WindowJoin.pair, Lineage.arrivals, List.mem_append]
    rcases Int.le_total tuple.arrival other.arrival with older | newer
    · rw [Int.max_eq_right older]
      exact .inr right_spans.arrival_mem
    · rw [Int.max_eq_left newer]
      exact .inl left_spans.arrival_mem
  · rcases List.mem_append.mp member with in_left | in_right
    · exact Int.le_trans (left_spans.le_arrival time in_left) (Int.le_max_left _ _)
    · exact Int.le_trans (right_spans.le_arrival time in_right) (Int.le_max_right _ _)
  · rcases List.mem_append.mp member with in_left | in_right
    · exact Int.le_trans left_le (left_spans.lowWater_le time in_left)
    · exact Int.le_trans right_le (right_spans.lowWater_le time in_right)

end SpansArrivals

end Tuple

/-! ## Windows -/

theorem Lineage.mem_arrivals_window {members : List Lineage} {time : Int} :
    time ∈ (window members).arrivals ↔ ∃ member ∈ members, time ∈ member.arrivals := by
  rw [arrivals, arrivalsOfAll_eq_flatMap, List.mem_flatMap]

namespace AggregateFunction

variable {function : AggregateFunction} {schema : Schema} {contents : Contents} {result : Tuple}

/-- The result of a window has its newest arrival and its smallest low-water mark. -/
theorem apply_times (computed : function.apply schema contents = .ok result)
    (filled : contents.tuples ≠ []) :
    contents.highWater? = some result.arrival ∧ contents.lowWater? = some result.lowWater := by
  obtain ⟨values, _, computed⟩ := bind_eq_ok.mp computed
  obtain rfl := pure_eq_ok.mp computed
  obtain ⟨newest, newest_eq⟩ : ∃ newest, contents.highWater? = some newest :=
    Option.ne_none_iff_exists'.mp fun missing =>
      filled (by simpa [Contents.highWater?] using missing)
  obtain ⟨oldest, oldest_eq⟩ : ∃ oldest, contents.lowWater? = some oldest :=
    Option.ne_none_iff_exists'.mp fun missing =>
      filled (by simpa [Contents.lowWater?] using missing)
  simp [newest_eq, oldest_eq]

/-- The result of a window spans the arrivals of all its tuples. -/
theorem spansArrivals_apply (computed : function.apply schema contents = .ok result)
    (filled : contents.tuples ≠ []) (spans : ∀ tuple ∈ contents.tuples, tuple.SpansArrivals) :
    result.SpansArrivals := by
  obtain ⟨newest_eq, oldest_eq⟩ := apply_times computed filled
  obtain ⟨_, _, lineage_eq⟩ := apply_eq_ok computed
  have mem_iff (time : Int) : time ∈ result.lineage.arrivals ↔
      ∃ tuple ∈ contents.tuples, time ∈ tuple.lineage.arrivals := by
    simp [lineage_eq, Lineage.mem_arrivals_window]
  obtain ⟨newest_mem, le_newest⟩ := List.max?_eq_some_iff.mp newest_eq
  have oldest_le := (List.min?_eq_some_iff.mp oldest_eq).2
  refine ⟨?_, fun time member => ?_, fun time member => ?_⟩
  · obtain ⟨newest, newest_tuple, same⟩ := List.mem_map.mp newest_mem
    exact (mem_iff _).mpr ⟨newest, newest_tuple, same ▸ (spans newest newest_tuple).arrival_mem⟩
  · obtain ⟨tuple, tuple_mem, within⟩ := (mem_iff time).mp member
    exact Int.le_trans ((spans tuple tuple_mem).le_arrival time within)
      (le_newest _ (List.mem_map_of_mem tuple_mem))
  · obtain ⟨tuple, tuple_mem, within⟩ := (mem_iff time).mp member
    exact Int.le_trans (oldest_le _ (List.mem_map_of_mem tuple_mem))
      ((spans tuple tuple_mem).lowWater_le time within)

end AggregateFunction

/-! ## Operators -/

/-- That tuples span the arrivals that they were computed from. -/
def spanningFlow : FlowInvariant where
  holds _ tuple := tuple.SpansArrivals
  keeps _ := True

/-- Operators compute tuples that span arrivals from such tuples. -/
theorem Yields.spansArrivals {before after : Catalog} {role : CommitRole} {operator : QueryTree}
    {result : Tuple} (yields : Yields before after role spanningFlow.holds operator result) :
    result.SpansArrivals := by
  cases yields with
  | arrived spans => exact spans
  | passed spans _ => exact spans
  | projected spans projected =>
      obtain ⟨values, _, projected⟩ := bind_eq_ok.mp projected
      obtain rfl := pure_eq_ok.mp projected
      exact spans.of_times_eq rfl rfl rfl
  | matched spans _ _ => exact spans.of_times_eq rfl rfl rfl
  | aggregated spans _ computed filled =>
      exact AggregateFunction.spansArrivals_apply computed filled spans
  | paired left_spans right_spans left_le right_le =>
      exact left_spans.pair right_spans left_le right_le _
  | ended _ spans _ => exact spans

theorem spanningFlow_isClosed : spanningFlow.IsClosed Tuple.IsOriginal where
  fresh _ _ original := original.spansArrivals
  yields _ _ _ _ _ _ yields := yields.spansArrivals
  keeps _ := trivial

/-! ## Runs -/

/-- The tuples that are remembered: arrivals that wait, or the buffered windows. -/
def Memory.tuples : Memory → List Tuple
  | .source arrivals => arrivals.queue ++ arrivals.backup
  | .aggregate aggregation => aggregation.synopsis.held
  | .join state => state.left.synopsis.held ++ state.right.synopsis.held
  | _ => []

/-- All tuples of an operator: the results that wait or are backed up, and what is remembered. -/
def Cell.tuples (cell : Cell) : List Tuple :=
  cell.output.queue ++ cell.output.backup ++ cell.memory.tuples

/-- In its proper shape a memory holds no tuples but those that an invariant speaks of. -/
theorem Memory.Carries.holds_of_mem_tuples {property : Tuple → Prop} {operator : QueryTree}
    {memory : Memory} (carries : memory.Carries (fun _ tuple => property tuple) operator)
    (shape : memory.shape = (initial operator).shape) :
    ∀ tuple ∈ memory.tuples, property tuple := by
  intro tuple member
  cases memory with
  | source arrivals =>
      rw [tuples, (bare_of_shape shape).2, List.append_nil] at member
      rcases operator with header | ⟨header, _ | _ | _ | _, input⟩ | ⟨header, logic, left, right⟩
      · exact carries tuple member
      all_goals cases shape
  | select seen passed => cases member
  | stateless => cases member
  | aggregate aggregation =>
      rcases operator with header | ⟨header, _ | _ | _ | _, input⟩ | ⟨header, logic, left, right⟩
      case single.aggregate => exact carries tuple member
      all_goals cases shape
  | join state =>
      rcases operator with header | ⟨header, _ | _ | _ | _, input⟩ | ⟨header, logic, left, right⟩
      case join => exact (List.mem_append.mp member).elim (carries.1 tuple) (carries.2 tuple)
      all_goals cases shape

/-- The water marks of all tuples are sound after some actions. -/
structure Deployment.HasSoundMarks (deployment : Deployment) (actions : List Action) : Prop where
  /-- All tuples that wait, are backed up or are buffered span the arrivals that they were computed
  from. -/
  stored : ∀ operator ∈ deployment.tree.postOrder, ∃ cell,
    (deployment.run actions).world.cells[operator.id]? = some cell ∧
      ∀ tuple ∈ cell.tuples, tuple.SpansArrivals
  /-- All tuples that were ever sent do. -/
  sent : ∀ firing ∈ deployment.trace actions, ∀ result ∈ firing.sent, result.SpansArrivals

/-- If the low-water mark of each tuple from outside is the time of its arrival, then each tuple
arrives with the newest of the arrivals that it was computed from, and its low-water mark is no
later than any of them. -/
theorem water_marks_sound (deployment : Deployment) {actions : List Action}
    (original : ∀ action ∈ actions, action.Brings Tuple.IsOriginal) :
    deployment.HasSoundMarks actions := by
  have history := FlowHistory.of_run deployment spanningFlow_isClosed original
  refine ⟨fun operator member => ?_, fun firing member result sent => ?_⟩
  · obtain ⟨cell, found, shape⟩ := deployment.isShaped_run actions operator member
    have carries := history.carries operator member cell found
    refine ⟨cell, found, fun tuple stored => ?_⟩
    rcases List.mem_append.mp stored with (output | remembered)
    · exact (List.mem_append.mp output).elim (carries.queue tuple) (carries.backup tuple)
    · exact carries.memory.holds_of_mem_tuples shape tuple remembered
  · obtain ⟨_, yielded⟩ := history.sent firing member
    obtain ⟨before, after, yields⟩ := yielded result sent
    exact yields.spansArrivals

/-- Means over joined sales. -/
theorem limitedLocked_marks_sound :
    ((∀ action ∈ limitedActions, action.Brings Tuple.IsOriginal) ∧
      (limitedLocked.sentBy limitedLocked.tree.id limitedActions).map (fun result =>
        (result.lowWater, result.arrival, result.lineage.arrivals)) =
          [(0, 2, [1, 0, 2, 0]), (0, 4, [3, 0, 4, 0])]) ∧
      limitedLocked.HasSoundMarks limitedActions :=
  have original : ∀ action ∈ limitedActions, action.Brings Tuple.IsOriginal := by decide
  ⟨⟨original, by decide +kernel⟩, water_marks_sound limitedLocked original⟩

end StreamQuery
