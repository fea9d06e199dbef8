import StreamQuery.Proofs.Pipeline.Meetings
import StreamQuery.Proofs.Window.Tumbling

/-!
# Blocks of meetings

Under optimistic control, a window that moves by its width takes one block of meetings after the
other. A backup holds whole inputs: when it is evaluated again after a commit, the meetings of the
input in which the last window ended are over, and the next window begins with the next input.
-/

namespace StreamQuery

namespace RowBuffer

/-- The mark of a window that moves by its width lies just above the newest tuple. -/
theorem mark_eq_of_newest {buffer : RowBuffer} (whole : buffer.tuples.length ≤ buffer.stride)
    {newest : Tuple} (member : newest ∈ buffer.tuples)
    (le_newest : ∀ tuple ∈ buffer.tuples, tuple.lowWater ≤ newest.lowWater) :
    buffer.mark = Time.after newest.lowWater 1 := by
  obtain ⟨time, time_mem, mark_eq, le_time⟩ :=
    mark_of_length_le_stride (List.length_pos_of_mem member) whole
  obtain ⟨tuple, tuple_mem, rfl⟩ := List.mem_map.mp time_mem
  rw [mark_eq, Int.le_antisymm (le_newest tuple tuple_mem)
    (le_time _ (List.mem_map_of_mem member))]

end RowBuffer

namespace Pipeline

variable {pipeline : Pipeline} {shown : Snapshot → Prop} {rows inputs results : List Tuple}
  {meeting : Meeting} {position : Nat}

/-! ## Results -/

/-- Results over blocks of meetings, the last of which ends at a position. At any time the pipeline
may go on to where the next input begins. -/
inductive Blocks (pipeline : Pipeline) (shown : Snapshot → Prop) (rows inputs : List Tuple) :
    List Tuple → Nat → Prop
  /-- At first there is no result. -/
  | none : Blocks pipeline shown rows inputs [] 0
  /-- A block is committed. -/
  | block {results : List Tuple} {position : Nat} {snapshot : Snapshot} {result : Tuple}
      (earlier : Blocks pipeline shown rows inputs results position) (is_shown : shown snapshot)
      (is_mean : pipeline.IsMeanFrom rows inputs snapshot.version position result) :
      Blocks pipeline shown rows inputs (results ++ [result]) (position + pipeline.window.width)
  /-- The rest of the meetings of an input is left out. -/
  | skip {results : List Tuple} {position : Nat}
      (earlier : Blocks pipeline shown rows inputs results position) :
      Blocks pipeline shown rows inputs results
        (nextBoundary (pipeline.meetingCounts rows inputs) position)

theorem IsMeanFrom.end_le {version : Nat} {result : Tuple}
    (is_mean : pipeline.IsMeanFrom rows inputs version position result) :
    position + pipeline.window.width ≤ (pipeline.meetings rows inputs).length := by
  have full := is_mean.full
  have width_pos := pipeline.window.width_pos
  rw [meetingBlock, List.length_take, List.length_drop] at full
  omega

/-- A result stays what it is when more inputs arrive. -/
theorem IsMeanFrom.append {version : Nat} {result : Tuple}
    (is_mean : pipeline.IsMeanFrom rows inputs version position result) (later : List Tuple) :
    pipeline.IsMeanFrom rows (inputs ++ later) version position result := by
  have inside := is_mean.end_le
  have same : pipeline.meetingBlock rows (inputs ++ later) position =
      pipeline.meetingBlock rows inputs position := by
    rw [meetingBlock, meetings_append, List.drop_append_of_le_length (by omega),
      List.take_append_of_le_length (by rw [List.length_drop]; omega), meetingBlock]
  exact ⟨same ▸ is_mean.full, same ▸ is_mean.computed⟩

namespace Blocks

theorem position_le (blocks : pipeline.Blocks shown rows inputs results position) :
    position ≤ (pipeline.meetingCounts rows inputs).sum := by
  cases blocks with
  | none => exact Nat.zero_le _
  | block _ _ is_mean =>
      rw [← meetings_length]
      exact is_mean.end_le
  | skip => exact nextBoundary_le _ _

theorem append (blocks : pipeline.Blocks shown rows inputs results position)
    (later : List Tuple) : pipeline.Blocks shown rows (inputs ++ later) results position := by
  induction blocks with
  | none => exact .none
  | block _ is_shown is_mean induction => exact .block induction is_shown (is_mean.append later)
  | skip earlier induction =>
      have skipped := induction.skip
      rwa [meetingCounts_append, nextBoundary_append earlier.position_le] at skipped

/-- Each block begins where the one before ends, or where the next input begins. -/
theorem exists_starts (blocks : pipeline.Blocks shown rows inputs results position) :
    ∃ starts : Nat → Nat, starts 0 = 0 ∧ starts results.length = position ∧
      (∀ number < results.length,
        starts (number + 1) = starts number + pipeline.window.width ∨
          starts (number + 1) = nextBoundary (pipeline.meetingCounts rows inputs)
            (starts number + pipeline.window.width)) ∧
      ∀ number result, results[number]? = some result →
        ∃ snapshot, shown snapshot ∧
          pipeline.IsMeanFrom rows inputs snapshot.version (starts number) result := by
  induction blocks with
  | none => exact ⟨fun _ => 0, rfl, rfl, nofun, nofun⟩
  | @block results position snapshot result _ is_shown is_mean induction =>
      obtain ⟨starts, starts_zero, rfl, next_start, means⟩ := induction
      refine ⟨Function.update starts (results.length + 1)
        (starts results.length + pipeline.window.width), ?_, ?_, fun number before => ?_, ?_⟩
      · rw [Function.update_of_ne (Nat.succ_ne_zero _).symm, starts_zero]
      · rw [List.length_append, List.length_singleton, Function.update_self]
      · rw [List.length_append, List.length_singleton] at before
        rw [Function.update_of_ne (Nat.ne_of_lt before)]
        by_cases last : number = results.length
        · rw [last, Function.update_self]
          exact .inl rfl
        · rw [Function.update_of_ne (by omega)]
          exact next_start number (by omega)
      · refine forall_getElem?_append_singleton (fun number other found => ?_) ?_
        · have before := (List.getElem?_eq_some_iff.mp found).1
          rw [Function.update_of_ne (by omega)]
          exact means number other found
        · rw [Function.update_of_ne (by omega)]
          exact ⟨snapshot, is_shown, is_mean⟩
  | @skip results position _ induction =>
      obtain ⟨starts, starts_zero, rfl, next_start, means⟩ := induction
      refine ⟨Function.update starts results.length
        (nextBoundary (pipeline.meetingCounts rows inputs) (starts results.length)), ?_,
        Function.update_self .., fun number before => ?_, fun number result found => ?_⟩
      · by_cases no_results : results.length = 0
        · rw [no_results, Function.update_self, starts_zero, nextBoundary_zero]
        · rw [Function.update_of_ne (Ne.symm no_results), starts_zero]
      · rw [Function.update_of_ne (Nat.ne_of_lt before)]
        by_cases last : number + 1 = results.length
        · -- A boundary is not moved by going on to the next boundary.
          rw [last, Function.update_self, ← last]
          right
          rcases next_start number before with next_eq | next_eq
          · rw [next_eq]
          · rw [next_eq, nextBoundary_nextBoundary]
        · rw [Function.update_of_ne last]
          exact next_start number before
      · have before := (List.getElem?_eq_some_iff.mp found).1
        rw [Function.update_of_ne (Nat.ne_of_lt before)]
        exact means number result found

end Blocks

/-! ## Meetings and times -/

/-- What a meeting yields if an input is read at the version that belongs to its time. -/
def joinedAt (pipeline : Pipeline) (read : Int → Snapshot) (meeting : Meeting) : Tuple :=
  pipeline.joined (read meeting.input.lowWater).version meeting

theorem input_of_mem_meetingsOf {input : Tuple}
    (member : meeting ∈ pipeline.meetingsOf rows input) : meeting.input = input := by
  obtain ⟨⟨row, place⟩, _, met⟩ := List.mem_filterMap.mp member
  dsimp only at met
  split at met
  · obtain rfl := Option.some.inj met
    rfl
  · cases met

theorem input_mem_of_mem_meetings (member : meeting ∈ pipeline.meetings rows inputs) :
    meeting.input ∈ inputs := by
  obtain ⟨input, input_mem, met⟩ := List.mem_flatMap.mp member
  exact input_of_mem_meetingsOf met ▸ input_mem

theorem joined_stamps (feeds : pipeline.Feeds inputs)
    (member : meeting ∈ pipeline.meetings rows inputs) (version : Nat) :
    (pipeline.joined version meeting).stamps =
      { entries := [(pipeline.reference.place, version)] } := by
  rw [joined, matchTuple, (feeds.spec (input_mem_of_mem_meetings member)).2.2]
  rfl

/-- An input at a later time can be read at any version. -/
theorem map_joinedAt_update (rows : List Tuple) {tuple : Tuple}
    (feeds : pipeline.Feeds (inputs ++ [tuple])) (read : Int → Snapshot) (snapshot : Snapshot) :
    (pipeline.meetings rows inputs).map
        (pipeline.joinedAt (Function.update read tuple.lowWater snapshot)) =
      (pipeline.meetings rows inputs).map (pipeline.joinedAt read) := by
  refine List.map_congr_left fun meeting member => ?_
  have earlier := feeds.lowWater_lt (input_mem_of_mem_meetings member) List.mem_cons_self
  rw [joinedAt, joinedAt, Function.update_of_ne (Int.ne_of_lt earlier)]

/-- A relation that can be joined with some inputs and has some rows in each version. -/
structure Meets (pipeline : Pipeline) (shown : Snapshot → Prop) (rows inputs : List Tuple) :
    Prop where
  /-- The inputs are data for the stream. -/
  feeds : pipeline.Feeds inputs
  /-- They meet these rows. -/
  matched : ∀ snapshot, shown snapshot → ∀ input ∈ inputs,
    matchSnapshot pipeline.condition pipeline.combine.schema pipeline.reference.place snapshot
      input = .ok ((pipeline.meetingsOf rows input).map (pipeline.joined snapshot.version))
  /-- Means can be taken of what the meetings yield. -/
  numeric : ∀ snapshot, shown snapshot → ∀ meeting ∈ pipeline.meetings rows inputs,
    (pipeline.joined snapshot.version meeting).HasNumber pipeline.index

theorem Meets.of_prefix {first : List Tuple} (meets : pipeline.Meets shown rows inputs)
    (is_first : first <+: inputs) : pipeline.Meets shown rows first := by
  obtain ⟨later, rfl⟩ := is_first
  refine ⟨meets.feeds.of_append, fun snapshot is_shown input member => ?_,
    fun snapshot is_shown meeting member => ?_⟩
  · exact meets.matched snapshot is_shown input (List.mem_append_left _ member)
  · refine meets.numeric snapshot is_shown meeting ?_
    rw [meetings_append]
    exact List.mem_append_left _ member

end Pipeline

end StreamQuery
