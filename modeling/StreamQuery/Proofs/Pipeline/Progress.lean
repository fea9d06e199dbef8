import Mathlib.Data.List.Forall2
import StreamQuery.Proofs.Pipeline
import StreamQuery.Proofs.Tuple.Data
import StreamQuery.Proofs.Window.Sliding

/-!
# Progress of pipelines

After `count` results, the inputs from number `count * stride` on are in the backup or have not been
passed on. What the mean remembers, what waits for it and what waits for the match are the inputs
from the beginning of the current window on, so that nothing is lost or repeated when the backup is
evaluated again.
-/

namespace StreamQuery

/-- A mark that separates the first tuples from the others takes the first ones out. -/
theorem filter_of_mark {mark : Int} {first others : List Tuple}
    (below : ∀ tuple ∈ first, tuple.lowWater < mark)
    (kept : ∀ tuple ∈ others, mark ≤ tuple.lowWater) :
    ((first ++ others).filter fun tuple => mark ≤ tuple.lowWater) = others := by
  rw [List.filter_append,
    List.filter_eq_nil_iff.mpr fun tuple member => by simpa using below tuple member,
    List.filter_eq_self.mpr fun tuple member => decide_eq_true (kept tuple member),
    List.nil_append]

theorem dataOf_evictBefore {channel : Channel} {mark : Int} {first others : List Tuple}
    (backup_eq : dataOf channel.backup = first ++ others)
    (below : ∀ tuple ∈ first, tuple.lowWater < mark)
    (kept : ∀ tuple ∈ others, mark ≤ tuple.lowWater) :
    dataOf (channel.evictBefore mark).backup = others := by
  rw [Channel.evictBefore, dataOf_filter, backup_eq, filter_of_mark below kept]

/-- A mark that separates the first times of a backup from the others takes the first tuples out. -/
theorem dataOf_evictBefore_eq_drop {channel : Channel} {times waiting : List Int} {stride : Nat}
    {mark : Int} (backup_times : (dataOf channel.backup).map Tuple.lowWater = times ++ waiting)
    (stride_le : stride ≤ times.length)
    (below : ∀ time ∈ times.take stride, time < mark)
    (kept : ∀ time ∈ times.drop stride ++ waiting, mark ≤ time) :
    dataOf (channel.evictBefore mark).backup = (dataOf channel.backup).drop stride := by
  refine dataOf_evictBefore (List.take_append_drop stride _).symm (fun tuple front => ?_)
    fun tuple back => ?_
  · have time_mem := List.mem_map_of_mem front (f := Tuple.lowWater)
    rw [List.map_take, backup_times, List.take_append_of_le_length stride_le] at time_mem
    exact below _ time_mem
  · have time_mem := List.mem_map_of_mem back (f := Tuple.lowWater)
    rw [List.map_drop, backup_times, List.drop_append_of_le_length stride_le] at time_mem
    exact kept _ time_mem

namespace Pipeline

namespace Line

/-- All inputs belong to windows that were committed, and there is no later time at which another
one could arrive. -/
def IsExhausted (window : Window) (inputs : List Tuple) (count : Nat) : Prop :=
  inputs.length = count * window.stride ∧ Time.latest ∈ inputs.map Tuple.lowWater

/-- A line that has received some inputs and has sent `count` results. Inputs are related to their
matches. -/
structure Progress (window : Window) (related : Tuple → Tuple → Prop) (inputs : List Tuple)
    (count : Nat) (line : Line) : Prop where
  /-- The stream is backed up. -/
  isProtected : line.passed.isProtected = true
  /-- The windows that were committed moved over inputs only. -/
  covered : count * window.stride ≤ inputs.length
  /-- From the first tuple of the current window on, the inputs have been matched, or wait for the
  match, or wait for the stream. -/
  flow : ∃ first seen, line.buffer.Stands window first count ∧
    seen ++ dataOf line.passed.queue ++ dataOf line.arrivals = inputs.drop first ∧
    List.Forall₂ related seen (line.buffer.held ++ dataOf line.matched)
  /-- The backup begins with the next window to be committed. -/
  backup : dataOf line.passed.backup ++ dataOf line.arrivals =
      inputs.drop (count * window.stride) ∨ IsExhausted window inputs count

variable {window : Window} {related : Tuple → Tuple → Prop} {inputs : List Tuple} {count : Nat}
  {line : Line}

namespace Progress

theorem start (window : Window) (related : Tuple → Tuple → Prop) :
    Progress window related [] 0
      { arrivals := []
        passed := { isProtected := true }
        matched := []
        buffer := .ofWindow window
        results := [] } :=
  ⟨rfl, by simp, ⟨0, [], RowBuffer.stands_ofWindow window, rfl, .nil⟩, .inl (by simp)⟩

theorem collect (progress : line.Progress window related inputs count) (results : List Tuple) :
    Progress window related inputs count { line with results } :=
  ⟨progress.isProtected, progress.covered, progress.flow, progress.backup⟩

/-! ### Arrivals -/

theorem arrive_marker (progress : line.Progress window related inputs count) {tuple : Tuple}
    (is_marker : tuple.isEndOfStream = true) :
    Progress window related inputs count { line with arrivals := line.arrivals ++ [tuple] } := by
  have unchanged := dataOf_append_of_marker line.arrivals is_marker
  refine ⟨progress.isProtected, progress.covered, ?_, ?_⟩
  · simpa only [unchanged] using progress.flow
  · simpa only [unchanged] using progress.backup

theorem first_le (progress : line.Progress window related inputs count) {first : Nat}
    (stands : line.buffer.Stands window first count) : first ≤ inputs.length := by
  have covered := progress.covered
  cases stands with
  | filling => exact covered
  | full =>
      rw [Nat.add_one_mul] at covered
      omega

theorem arrive_data (progress : line.Progress window related inputs count) {tuple : Tuple}
    (is_data : tuple.isEndOfStream = false)
    (increasing : ((inputs ++ [tuple]).map Tuple.lowWater).Pairwise (· < ·))
    (bounded : tuple.lowWater ≤ Time.latest) :
    Progress window related (inputs ++ [tuple]) count
      { line with arrivals := line.arrivals ++ [tuple] } := by
  have extended : dataOf (line.arrivals ++ [tuple]) = dataOf line.arrivals ++ [tuple] := by
    rw [dataOf_append, dataOf_cons_of_data is_data, dataOf_nil]
  have covered := progress.covered
  refine ⟨progress.isProtected, ?_, ?_, ?_⟩
  · rw [List.length_append]
    omega
  · obtain ⟨first, seen, stands, inputs_eq, matched⟩ := progress.flow
    refine ⟨first, seen, stands, ?_, matched⟩
    rw [extended, List.drop_append_of_le_length (progress.first_le stands), ← inputs_eq]
    simp only [List.append_assoc]
  · rcases progress.backup with backed_up | ⟨_, last⟩
    · left
      rw [extended, List.drop_append_of_le_length covered, ← backed_up, List.append_assoc]
    · rw [List.map_append, List.pairwise_append] at increasing
      have := increasing.2.2 Time.latest last tuple.lowWater (by simp)
      omega

/-! ### The stream and the match -/

theorem pass (progress : line.Progress window related inputs count) {tuple : Tuple}
    {rest : List Tuple} (arrivals_eq : line.arrivals = tuple :: rest) :
    Progress window related inputs count
      { line with arrivals := rest, passed := line.passed.enqueue tuple } := by
  have moves (channel : List Tuple) :
      dataOf (channel ++ [tuple]) ++ dataOf rest = dataOf channel ++ dataOf line.arrivals := by
    rw [arrivals_eq, ← dataOf_append, ← dataOf_append, List.append_assoc, List.singleton_append]
  refine ⟨progress.isProtected, progress.covered, ?_, ?_⟩
  · obtain ⟨first, seen, stands, inputs_eq, matched⟩ := progress.flow
    refine ⟨first, seen, stands, ?_, matched⟩
    rw [← inputs_eq, List.append_assoc, List.append_assoc]
    exact congrArg (seen ++ ·) (moves line.passed.queue)
  · simp only [Channel.enqueue, progress.isProtected, if_true, moves]
    exact progress.backup

theorem match_marker (progress : line.Progress window related inputs count) {tuple : Tuple}
    {rest : List Tuple} (queue_eq : line.passed.queue = tuple :: rest)
    (is_marker : tuple.isEndOfStream = true) :
    Progress window related inputs count
      { line with
        passed := { line.passed with queue := rest }
        matched := line.matched ++ [tuple] } := by
  refine ⟨progress.isProtected, progress.covered, ?_, progress.backup⟩
  obtain ⟨first, seen, stands, inputs_eq, matched⟩ := progress.flow
  rw [queue_eq, dataOf_cons_of_marker is_marker] at inputs_eq
  refine ⟨first, seen, stands, inputs_eq, ?_⟩
  rwa [dataOf_append_of_marker _ is_marker]

theorem match_data (progress : line.Progress window related inputs count) {tuple result : Tuple}
    {rest : List Tuple} (queue_eq : line.passed.queue = tuple :: rest)
    (is_data : tuple.isEndOfStream = false) (result_is_data : result.isEndOfStream = false)
    (matched_now : related tuple result) :
    Progress window related inputs count
      { line with
        passed := { line.passed with queue := rest }
        matched := line.matched ++ [result] } := by
  refine ⟨progress.isProtected, progress.covered, ?_, progress.backup⟩
  obtain ⟨first, seen, stands, inputs_eq, matched⟩ := progress.flow
  rw [queue_eq, dataOf_cons_of_data is_data] at inputs_eq
  refine ⟨first, seen ++ [tuple], stands, ?_, ?_⟩
  · rw [← inputs_eq]
    simp only [List.append_assoc, List.cons_append, List.nil_append]
  · rw [dataOf_append, dataOf_cons_of_data result_is_data, dataOf_nil, ← List.append_assoc]
    exact List.rel_append matched (.cons matched_now .nil)

/-- What waits for the match are inputs. -/
theorem mem_inputs (progress : line.Progress window related inputs count) {tuple : Tuple}
    (waits : tuple ∈ line.passed.queue) (is_data : tuple.isEndOfStream = false) :
    tuple ∈ inputs := by
  obtain ⟨first, seen, _, inputs_eq, _⟩ := progress.flow
  apply List.mem_of_mem_drop (i := first)
  rw [← inputs_eq]
  have member : tuple ∈ dataOf line.passed.queue :=
    List.mem_filter.mpr ⟨waits, by simp [is_data]⟩
  exact List.mem_append_left _ (List.mem_append_right _ member)

end Progress

/-! ## Windows -/

/-- A line whose mean has completed the window number `count`. -/
structure Fills (window : Window) (related : Tuple → Tuple → Prop) (inputs : List Tuple)
    (count : Nat) (line : Line) (rest : List Tuple) (buffer : RowBuffer) : Prop where
  /-- The window is visible. -/
  stands : buffer.Stands window (count * window.stride) (count + 1)
  /-- It is full. -/
  filled : buffer.tuples.length = window.width
  /-- No newcomer waits. -/
  pending_eq : buffer.pending = []
  /-- The inputs of the window and those after it. -/
  flow : ∃ seen,
    seen ++ dataOf line.passed.queue ++ dataOf line.arrivals =
      inputs.drop (count * window.stride) ∧
    List.Forall₂ related seen (buffer.tuples ++ dataOf rest)

namespace Progress

theorem skip_marker (progress : line.Progress window related inputs count) {tuple : Tuple}
    {rest : List Tuple} (matched_eq : line.matched = tuple :: rest)
    (is_marker : tuple.isEndOfStream = true) (results : List Tuple) :
    Progress window related inputs count { line with matched := rest, results } := by
  refine ⟨progress.isProtected, progress.covered, ?_, progress.backup⟩
  have flow := progress.flow
  rwa [matched_eq, dataOf_cons_of_marker is_marker] at flow

/-- A tuple that the mean accepts is remembered, or it completes the next window. -/
theorem accept (progress : line.Progress window related inputs count)
    (stride_le : window.stride ≤ window.width) {tuple : Tuple} {rest : List Tuple}
    (matched_eq : line.matched = tuple :: rest) (is_data : tuple.isEndOfStream = false) :
    ((line.buffer.enqueue tuple).2 = [] ∧
        Progress window related inputs count
          { line with matched := rest, buffer := (line.buffer.enqueue tuple).1 }) ∨
      ((line.buffer.enqueue tuple).2 = [(line.buffer.enqueue tuple).1.contents] ∧
        line.Fills window related inputs count rest (line.buffer.enqueue tuple).1) := by
  obtain ⟨first, seen, stands, inputs_eq, matched⟩ := progress.flow
  rw [matched_eq, dataOf_cons_of_data is_data, ← List.singleton_append, ← List.append_assoc]
    at matched
  rcases stands.enqueue stride_le tuple with
    ⟨none_reported, held_eq, stands⟩ | ⟨reported, completes⟩
  · left
    rw [← held_eq] at matched
    exact ⟨none_reported, progress.isProtected, progress.covered,
      ⟨first, seen, stands, inputs_eq, matched⟩, progress.backup⟩
  · right
    refine ⟨reported, completes.stands, completes.filled, completes.pending_eq, ?_⟩
    -- The window begins `gap` tuples after the first one that was remembered.
    have tuples_eq := completes.tuples_eq
    obtain ⟨gap, gap_eq⟩ : ∃ gap, count * window.stride - first = gap := ⟨_, rfl⟩
    rw [gap_eq] at tuples_eq
    have first_le : first ≤ count * window.stride := by
      cases stands with
      | filling => exact le_rfl
      | full => rw [Nat.add_one_mul]; omega
    have tuples_pos : 0 < (line.buffer.enqueue tuple).1.tuples.length :=
      completes.filled ▸ window.width_pos
    have gap_le : gap ≤ (line.buffer.held ++ [tuple]).length := by
      rw [tuples_eq, List.length_drop] at tuples_pos
      omega
    have gap_le_seen : gap ≤ seen.length := by
      rw [matched.length_eq, List.length_append]
      omega
    refine ⟨seen.drop gap, ?_, ?_⟩
    · have later : count * window.stride = first + gap := by omega
      rw [later, ← List.drop_drop, ← inputs_eq]
      simp only [List.append_assoc]
      rw [List.drop_append_of_le_length gap_le_seen]
    · have dropped := List.forall₂_drop gap matched
      rw [List.drop_append_of_le_length gap_le] at dropped
      rwa [tuples_eq]

theorem remember (progress : line.Progress window related inputs count)
    (stride_le : window.stride ≤ window.width) {tuple : Tuple} {rest : List Tuple}
    (matched_eq : line.matched = tuple :: rest) (is_data : tuple.isEndOfStream = false)
    (none_reported : (line.buffer.enqueue tuple).2 = []) :
    Progress window related inputs count
      { line with matched := rest, buffer := (line.buffer.enqueue tuple).1 } := by
  rcases progress.accept stride_le matched_eq is_data with ⟨_, remembered⟩ | ⟨reported, _⟩
  · exact remembered
  · cases none_reported.symm.trans reported

theorem fills (progress : line.Progress window related inputs count)
    (stride_le : window.stride ≤ window.width) {tuple : Tuple} {rest : List Tuple}
    (matched_eq : line.matched = tuple :: rest) (is_data : tuple.isEndOfStream = false)
    (reported : (line.buffer.enqueue tuple).2 = [(line.buffer.enqueue tuple).1.contents]) :
    line.Fills window related inputs count rest (line.buffer.enqueue tuple).1 := by
  rcases progress.accept stride_le matched_eq is_data with ⟨none_reported, _⟩ | ⟨_, fills⟩
  · cases reported.symm.trans none_reported
  · exact fills

end Progress

namespace Fills

variable {rest : List Tuple} {buffer : RowBuffer}

/-- The members of the window are matches of its inputs. -/
theorem members (fills : line.Fills window related inputs count rest buffer) :
    List.Forall₂ related ((inputs.drop (count * window.stride)).take window.width)
      buffer.tuples := by
  obtain ⟨seen, inputs_eq, matched⟩ := fills.flow
  have taken := List.forall₂_take window.width matched
  have width_le : window.width ≤ seen.length := by
    rw [matched.length_eq, List.length_append, fills.filled]
    exact Nat.le_add_right _ _
  rw [← fills.filled, List.take_left, fills.filled] at taken
  rw [← inputs_eq, List.append_assoc, List.take_append_of_le_length width_le]
  exact taken

/-- The window lies within the inputs. -/
theorem within (fills : line.Fills window related inputs count rest buffer) :
    count * window.stride + window.width ≤ inputs.length := by
  have length_eq := fills.members.length_eq
  rw [fills.filled, List.length_take, List.length_drop] at length_eq
  have width_pos := window.width_pos
  omega

theorem backup_eq (fills : line.Fills window related inputs count rest buffer)
    (progress : line.Progress window related inputs count) :
    dataOf line.passed.backup ++ dataOf line.arrivals = inputs.drop (count * window.stride) := by
  rcases progress.backup with backed_up | ⟨exhausted, _⟩
  · exact backed_up
  · have within := fills.within
    have width_pos := window.width_pos
    omega

/-- After a window with mixed versions, everything from its beginning on is evaluated again. -/
theorem redo (fills : line.Fills window related inputs count rest buffer)
    (progress : line.Progress window related inputs count) :
    Progress window related inputs count
      { line with
        passed := line.passed.recover
        matched := []
        buffer := buffer.reset } := by
  have backup_eq := fills.backup_eq progress
  exact ⟨progress.isProtected, progress.covered,
    ⟨count * window.stride, [], fills.stands.reset count, backup_eq, .nil⟩, .inl backup_eq⟩

/-- The times of the backup and of the inputs begin with those of the window. -/
theorem exists_times (fills : line.Fills window related inputs count rest buffer)
    (progress : line.Progress window related inputs count)
    (keeps_time : ∀ input result, related input result → input.lowWater = result.lowWater) :
    ∃ waiting arriving : List Int,
      (dataOf line.passed.backup).map Tuple.lowWater =
        buffer.tuples.map Tuple.lowWater ++ waiting ∧
      (inputs.drop (count * window.stride)).map Tuple.lowWater =
        buffer.tuples.map Tuple.lowWater ++ (waiting ++ arriving) := by
  have backup_eq := fills.backup_eq progress
  obtain ⟨seen, inputs_eq, matched⟩ := fills.flow
  have backed_up : dataOf line.passed.backup = seen ++ dataOf line.passed.queue :=
    List.append_cancel_right (backup_eq.trans inputs_eq.symm)
  have seen_times : seen.map Tuple.lowWater =
      buffer.tuples.map Tuple.lowWater ++ (dataOf rest).map Tuple.lowWater := by
    rw [← List.map_append, ← List.forall₂_eq_eq_eq, List.forall₂_map_left_iff,
      List.forall₂_map_right_iff]
    exact matched.imp keeps_time
  refine ⟨(dataOf rest).map Tuple.lowWater ++ (dataOf line.passed.queue).map Tuple.lowWater,
    (dataOf line.arrivals).map Tuple.lowWater, ?_, ?_⟩
  · rw [backed_up, List.map_append, seen_times, List.append_assoc]
  · rw [← inputs_eq, List.map_append, List.map_append, seen_times]
    simp only [List.append_assoc]

/-- After a commit, the backup begins with the next window. -/
theorem backup_evicted (fills : line.Fills window related inputs count rest buffer)
    (progress : line.Progress window related inputs count)
    (keeps_time : ∀ input result, related input result → input.lowWater = result.lowWater)
    (increasing : (inputs.map Tuple.lowWater).Pairwise (· < ·))
    (bounded : ∀ input ∈ inputs, input.lowWater ≤ Time.latest)
    (stride_le : window.stride ≤ window.width) :
    dataOf (line.passed.evictBefore buffer.mark).backup ++ dataOf line.arrivals =
        inputs.drop ((count + 1) * window.stride) ∨
      IsExhausted window inputs (count + 1) := by
  have backup_eq := fills.backup_eq progress
  have within := fills.within
  have filled := fills.filled
  have width_pos := window.width_pos
  obtain ⟨waiting, arriving, backup_times, all_times⟩ := fills.exists_times progress keeps_time
  have times_length : (buffer.tuples.map Tuple.lowWater).length = window.width := by
    rw [List.length_map, filled]
  have later_increasing :
      (buffer.tuples.map Tuple.lowWater ++ (waiting ++ arriving)).Pairwise (· < ·) := by
    rw [← all_times, List.map_drop]
    exact increasing.sublist (List.drop_sublist _ _)
  have later_bounded :
      ∀ time ∈ buffer.tuples.map Tuple.lowWater ++ (waiting ++ arriving), time ≤ Time.latest := by
    rw [← all_times]
    intro time member
    obtain ⟨input, input_mem, rfl⟩ := List.mem_map.mp member
    exact bounded input (List.mem_of_mem_drop input_mem)
  obtain ⟨kept, evicted⟩ :=
    RowBuffer.mark_spec (by omega) later_increasing later_bounded
  rw [fills.stands.stride_eq] at kept evicted
  rcases evicted with below | ⟨whole, none_later, last⟩
  · left
    have evicted_eq : dataOf (line.passed.evictBefore buffer.mark).backup =
        (dataOf line.passed.backup).drop window.stride := by
      refine dataOf_evictBefore_eq_drop backup_times (by omega) below
        fun time member => kept time ?_
      rw [← List.append_assoc]
      exact List.mem_append_left _ member
    have backup_length : window.width ≤ (dataOf line.passed.backup).length := by
      have length_eq := congrArg List.length backup_times
      rw [List.length_map, List.length_append] at length_eq
      omega
    rw [evicted_eq, ← List.drop_append_of_le_length (by omega), backup_eq, List.drop_drop,
      Nat.add_one_mul]
  · right
    rw [none_later, List.append_nil] at all_times
    have all_length := congrArg List.length all_times
    rw [List.length_map, List.length_drop] at all_length
    constructor
    · rw [Nat.add_one_mul]
      omega
    · rw [← all_times, List.map_drop] at last
      exact List.mem_of_mem_drop last

/-- After a window was committed, the next one is awaited. -/
theorem commit (fills : line.Fills window related inputs count rest buffer)
    (progress : line.Progress window related inputs count)
    (keeps_time : ∀ input result, related input result → input.lowWater = result.lowWater)
    (increasing : (inputs.map Tuple.lowWater).Pairwise (· < ·))
    (bounded : ∀ input ∈ inputs, input.lowWater ≤ Time.latest)
    (stride_le : window.stride ≤ window.width) (results : List Tuple) :
    Progress window related inputs (count + 1)
      { line with
        passed := line.passed.evictBefore buffer.mark
        matched := rest
        buffer
        results } := by
  have within := fills.within
  refine ⟨progress.isProtected, ?_, ?_,
    fills.backup_evicted progress keeps_time increasing bounded stride_le⟩
  · rw [Nat.add_one_mul]
    omega
  · obtain ⟨seen, inputs_eq, matched⟩ := fills.flow
    refine ⟨count * window.stride, seen, fills.stands, inputs_eq, ?_⟩
    rwa [RowBuffer.held, fills.pending_eq, List.append_nil]

end Fills

end Line

end Pipeline

end StreamQuery
