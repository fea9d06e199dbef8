import StreamQuery.Proofs.Pipeline.Blocks

/-!
# Histories of blocks

What the mean has not used yet, what waits for it and what waits for the match are the meetings from
the beginning of the current block on. The backup begins with the first input all of whose meetings
are among them.
-/

namespace StreamQuery

namespace Pipeline

/-- Some inputs are at hand again that follow others: a position lies within the meetings of the
last input before them, or at their end. -/
structure IsBackedUp (pipeline : Pipeline) (rows inputs : List Tuple) (position : Nat)
    (before again : List Tuple) : Prop where
  /-- The inputs before and those that are at hand again. -/
  inputs_eq : before ++ again = inputs
  /-- The position is not behind the meetings of the inputs before. -/
  reached : position ≤ (pipeline.meetings rows before).length
  /-- It is behind the meetings of fewer inputs. -/
  nearest : ∀ front last, before = front ++ [last] →
    (pipeline.meetings rows front).length < position

/-- No input waits, all that is left are meetings of the last input, and there is no later time at
which another one could arrive. -/
structure IsSpent (pipeline : Pipeline) (rows inputs : List Tuple) (position : Nat)
    (waiting : List Tuple) : Prop where
  /-- All inputs have been matched. -/
  waiting_eq : waiting = []
  /-- The last moment has come. -/
  last : Time.latest ∈ inputs.map Tuple.lowWater
  /-- The meetings that are left were all joined at that moment. -/
  left : ∀ meeting ∈ (pipeline.meetings rows inputs).drop position,
    meeting.input.lowWater = Time.latest

namespace Line

/-- A line in which a block that begins at a position is awaited. Each input was read at the version
that belongs to its time. -/
structure Awaits (pipeline : Pipeline) (rows inputs : List Tuple) (read : Int → Snapshot)
    (position : Nat) (line : Line) : Prop where
  /-- The stream is backed up. -/
  isProtected : line.passed.isProtected = true
  /-- The meetings from the position on have been joined, or their inputs wait. -/
  flow : ∃ seen fresh, seen ++ (dataOf line.passed.queue ++ dataOf line.arrivals) = inputs ∧
    position ≤ (pipeline.meetings rows seen).length ∧
    ((pipeline.meetings rows seen).drop position).map (pipeline.joinedAt read) =
      fresh ++ dataOf line.matched ∧
    line.buffer.Gathers pipeline.window fresh
  /-- The backup begins with the next input, unless no block can become mixed any more. -/
  backup : (∃ before, pipeline.IsBackedUp rows inputs position before
      (dataOf line.passed.backup ++ dataOf line.arrivals)) ∨
    pipeline.IsSpent rows inputs position (dataOf line.passed.queue ++ dataOf line.arrivals)

/-- A line whose mean has completed the block at a position. -/
structure Fulfils (pipeline : Pipeline) (rows inputs : List Tuple) (read : Int → Snapshot)
    (position : Nat) (line : Line) (rest : List Tuple) (buffer : RowBuffer)
    (seen : List Tuple) (block others : List Meeting) : Prop where
  /-- These inputs have been matched. -/
  inputs_eq : seen ++ (dataOf line.passed.queue ++ dataOf line.arrivals) = inputs
  /-- Their meetings from the position on are the block and others. -/
  meetings_eq : (pipeline.meetings rows seen).drop position = block ++ others
  /-- The block is in the window. -/
  tuples_eq : buffer.tuples = block.map (pipeline.joinedAt read)
  /-- The window is full. -/
  full : block.length = pipeline.window.width
  /-- The other meetings wait. -/
  rest_eq : dataOf rest = others.map (pipeline.joinedAt read)
  /-- The next block is awaited. -/
  gathers : buffer.Gathers pipeline.window []

/-- A line whose mean has completed a block that ends among the meetings of an input. -/
structure EndsWith (pipeline : Pipeline) (rows inputs : List Tuple) (read : Int → Snapshot)
    (position : Nat) (line : Line) (rest : List Tuple) (buffer : RowBuffer)
    (block others : List Meeting) (front : List Tuple) (last : Tuple) (after : List Tuple) : Prop
    extends Fulfils pipeline rows inputs read position line rest buffer (front ++ [last] ++ after)
      block others where
  /-- The end is behind the meetings of the inputs before this one. -/
  behind : (pipeline.meetings rows front).length < position + pipeline.window.width
  /-- It is not behind the meetings of this input. -/
  reached : position + pipeline.window.width ≤ (pipeline.meetings rows (front ++ [last])).length
  /-- The input is in the block. -/
  met : ∃ meeting ∈ block, meeting.input = last
  /-- No input after it is in the block. -/
  inside : ∀ meeting ∈ block, meeting.input ∈ front ++ [last]
  /-- The other meetings are those of the input and of later ones. -/
  left : ∀ meeting ∈ others, meeting.input ∈ last :: after

end Line

variable {pipeline : Pipeline} {rows inputs rest : List Tuple} {read : Int → Snapshot}
  {position : Nat} {line : Line} {tuple : Tuple}

/-! ## Backups -/

namespace IsBackedUp

variable {before again : List Tuple}

theorem nextBoundary_eq (backed_up : pipeline.IsBackedUp rows inputs position before again) :
    nextBoundary (pipeline.meetingCounts rows inputs) position =
      (pipeline.meetings rows before).length := by
  have reached := backed_up.reached
  rcases List.eq_nil_or_concat before with rfl | ⟨front, last, rfl⟩
  · obtain rfl : position = 0 := Nat.le_zero.mp reached
    exact nextBoundary_zero _
  · rw [List.concat_eq_append] at backed_up reached ⊢
    have nearest := backed_up.nearest front last rfl
    rw [meetings_length] at nearest
    rw [meetings_length, meetingCounts_append, List.sum_append] at reached ⊢
    rw [← backed_up.inputs_eq, List.append_assoc, meetingCounts_append]
    exact StreamQuery.nextBoundary_eq nearest reached _

/-- What begins with the next input is backed up as well. -/
theorem skip (backed_up : pipeline.IsBackedUp rows inputs position before again) :
    pipeline.IsBackedUp rows inputs (pipeline.meetings rows before).length before again where
  inputs_eq := backed_up.inputs_eq
  reached := Nat.le_refl _
  nearest front last before_eq :=
    (backed_up.nearest front last before_eq).trans_le backed_up.reached

theorem append (backed_up : pipeline.IsBackedUp rows inputs position before again)
    (later : List Tuple) :
    pipeline.IsBackedUp rows (inputs ++ later) position before (again ++ later) where
  inputs_eq := by rw [← List.append_assoc, backed_up.inputs_eq]
  reached := backed_up.reached
  nearest := backed_up.nearest

/-- Inputs with meetings behind the position are not all missing. -/
theorem isPrefix (backed_up : pipeline.IsBackedUp rows inputs position before again)
    {first : List Tuple} (is_first : first <+: inputs)
    (behind : position ≤ (pipeline.meetings rows first).length) : before <+: first := by
  have before_first : before <+: inputs := ⟨again, backed_up.inputs_eq⟩
  rcases List.prefix_or_prefix_of_prefix before_first is_first with shorter | ⟨more, rfl⟩
  · exact shorter
  · rcases List.eq_nil_or_concat more with rfl | ⟨front, last, rfl⟩
    · rw [List.append_nil]
    · rw [List.concat_eq_append] at backed_up
      have nearest := backed_up.nearest (first ++ front) last (List.append_assoc ..).symm
      rw [meetings_append, List.length_append] at nearest
      omega

end IsBackedUp

namespace Line

namespace Awaits

theorem start (tumbling : pipeline.window.stride = pipeline.window.width) (rows : List Tuple)
    (read : Int → Snapshot) :
    Awaits pipeline rows [] read 0
      { arrivals := []
        passed := { isProtected := true }
        matched := []
        buffer := .ofWindow pipeline.window
        results := [] } where
  isProtected := rfl
  flow := ⟨[], [], rfl, Nat.le_refl _, rfl, RowBuffer.gathers_ofWindow tumbling⟩
  backup := .inl ⟨[], rfl, Nat.le_refl _, fun front last impossible => by simp at impossible⟩

theorem collect (awaits : line.Awaits pipeline rows inputs read position) (results : List Tuple) :
    Awaits pipeline rows inputs read position { line with results } :=
  ⟨awaits.isProtected, awaits.flow, awaits.backup⟩

/-! ### Arrivals -/

theorem arrive_marker (awaits : line.Awaits pipeline rows inputs read position)
    (is_marker : tuple.isEndOfStream = true) :
    Awaits pipeline rows inputs read position
      { line with arrivals := line.arrivals ++ [tuple] } := by
  have unchanged := dataOf_append_of_marker line.arrivals is_marker
  exact ⟨awaits.isProtected, by simpa only [unchanged] using awaits.flow,
    by simpa only [unchanged] using awaits.backup⟩

theorem arrive_data (awaits : line.Awaits pipeline rows inputs read position)
    (is_data : tuple.isEndOfStream = false) (feeds : pipeline.Feeds (inputs ++ [tuple])) :
    Awaits pipeline rows (inputs ++ [tuple]) read position
      { line with arrivals := line.arrivals ++ [tuple] } := by
  have extended (channel : List Tuple) : dataOf channel ++ dataOf (line.arrivals ++ [tuple]) =
      dataOf channel ++ dataOf line.arrivals ++ [tuple] := by
    rw [dataOf_append, dataOf_cons_of_data is_data, dataOf_nil, List.append_assoc]
  refine ⟨awaits.isProtected, ?_, ?_⟩
  · obtain ⟨seen, fresh, inputs_eq, reached, joined_eq, gathers⟩ := awaits.flow
    refine ⟨seen, fresh, ?_, reached, joined_eq, gathers⟩
    rw [extended, ← List.append_assoc, inputs_eq]
  · rcases awaits.backup with ⟨before, backed_up⟩ | spent
    · exact .inl ⟨before, (extended _).symm ▸ backed_up.append [tuple]⟩
    · obtain ⟨last, last_mem, last_eq⟩ := List.mem_map.mp spent.last
      have too_late := feeds.lowWater_lt last_mem List.mem_cons_self
      have representable := feeds.lowWater_le (List.mem_append_right inputs List.mem_cons_self)
      omega

/-! ### The stream and the match -/

theorem pass (awaits : line.Awaits pipeline rows inputs read position)
    (arrivals_eq : line.arrivals = tuple :: rest) :
    Awaits pipeline rows inputs read position
      { line with arrivals := rest, passed := line.passed.enqueue tuple } := by
  have moves (channel : List Tuple) :
      dataOf (channel ++ [tuple]) ++ dataOf rest = dataOf channel ++ dataOf line.arrivals := by
    rw [arrivals_eq, ← dataOf_append, ← dataOf_append, List.append_assoc, List.singleton_append]
  refine ⟨awaits.isProtected, ?_, ?_⟩
  · simpa only [Channel.enqueue, moves] using awaits.flow
  · simpa only [Channel.enqueue, awaits.isProtected, if_true, moves] using awaits.backup

theorem match_marker (awaits : line.Awaits pipeline rows inputs read position)
    (queue_eq : line.passed.queue = tuple :: rest) (is_marker : tuple.isEndOfStream = true) :
    Awaits pipeline rows inputs read position
      { line with
        passed := { line.passed with queue := rest }
        matched := line.matched ++ [tuple] } := by
  have unchanged : dataOf line.passed.queue = dataOf rest := by
    rw [queue_eq, dataOf_cons_of_marker is_marker]
  exact ⟨awaits.isProtected,
    by simpa only [unchanged, dataOf_append_of_marker _ is_marker] using awaits.flow,
    by simpa only [unchanged] using awaits.backup⟩

/-- An input that waits for the match is the next one. -/
theorem exists_split (awaits : line.Awaits pipeline rows inputs read position)
    (queue_eq : line.passed.queue = tuple :: rest) (is_data : tuple.isEndOfStream = false) :
    ∃ seen fresh,
      seen ++ [tuple] ++ (dataOf rest ++ dataOf line.arrivals) = inputs ∧
        position ≤ (pipeline.meetings rows seen).length ∧
        ((pipeline.meetings rows seen).drop position).map (pipeline.joinedAt read) =
          fresh ++ dataOf line.matched ∧
        line.buffer.Gathers pipeline.window fresh := by
  obtain ⟨seen, fresh, inputs_eq, reached, joined_eq, gathers⟩ := awaits.flow
  rw [queue_eq, dataOf_cons_of_data is_data, List.cons_append, List.append_cons] at inputs_eq
  exact ⟨seen, fresh, inputs_eq, reached, joined_eq, gathers⟩

theorem mem_inputs (awaits : line.Awaits pipeline rows inputs read position)
    (queue_eq : line.passed.queue = tuple :: rest) (is_data : tuple.isEndOfStream = false) :
    tuple ∈ inputs := by
  obtain ⟨seen, _, rfl, _⟩ := awaits.exists_split queue_eq is_data
  simp

theorem match_data (awaits : line.Awaits pipeline rows inputs read position)
    (feeds : pipeline.Feeds inputs) (queue_eq : line.passed.queue = tuple :: rest)
    (is_data : tuple.isEndOfStream = false) (snapshot : Snapshot) :
    Awaits pipeline rows inputs (Function.update read tuple.lowWater snapshot) position
      { line with
        passed := { line.passed with queue := rest }
        matched := line.matched ++
          (pipeline.meetingsOf rows tuple).map (pipeline.joined snapshot.version) } := by
  obtain ⟨seen, fresh, inputs_eq, reached, joined_eq, gathers⟩ :=
    awaits.exists_split queue_eq is_data
  rw [← inputs_eq] at feeds
  -- No other input has this time, so what was joined before stays as it was.
  have joined_before := map_joinedAt_update rows feeds.of_append read snapshot
  have joined_now : (pipeline.meetingsOf rows tuple).map
      (pipeline.joinedAt (Function.update read tuple.lowWater snapshot)) =
        (pipeline.meetingsOf rows tuple).map (pipeline.joined snapshot.version) := by
    refine List.map_congr_left fun meeting member => ?_
    rw [joinedAt, input_of_mem_meetingsOf member, Function.update_self]
  have all_data : dataOf ((pipeline.meetingsOf rows tuple).map (pipeline.joined snapshot.version)) =
      (pipeline.meetingsOf rows tuple).map (pipeline.joined snapshot.version) :=
    List.filter_eq_self.mpr (List.forall_mem_map.mpr fun _ _ => rfl)
  refine ⟨awaits.isProtected, ⟨seen ++ [tuple], fresh, inputs_eq, ?_, ?_, gathers⟩, ?_⟩
  · rw [meetings_append, List.length_append]
    omega
  · rw [meetings_append, List.drop_append_of_le_length reached, List.map_append, List.map_drop,
      joined_before, ← List.map_drop, joined_eq, dataOf_append, all_data, meetings,
      List.flatMap_singleton, joined_now, List.append_assoc]
  · refine awaits.backup.imp_right fun spent => ?_
    have nothing_waits := spent.waiting_eq
    rw [queue_eq, dataOf_cons_of_data is_data] at nothing_waits
    cases nothing_waits

/-! ### The mean -/

theorem skip_marker (awaits : line.Awaits pipeline rows inputs read position)
    (matched_eq : line.matched = tuple :: rest) (is_marker : tuple.isEndOfStream = true) :
    Awaits pipeline rows inputs read position { line with matched := rest } := by
  have flow := awaits.flow
  rw [matched_eq, dataOf_cons_of_marker is_marker] at flow
  exact ⟨awaits.isProtected, flow, awaits.backup⟩

/-- A tuple that the mean accepts is remembered, or it completes the block. -/
theorem accept (awaits : line.Awaits pipeline rows inputs read position)
    (matched_eq : line.matched = tuple :: rest) (is_data : tuple.isEndOfStream = false) :
    ((line.buffer.enqueue tuple).2 = [] ∧
        Awaits pipeline rows inputs read position
          { line with matched := rest, buffer := (line.buffer.enqueue tuple).1 }) ∨
      ((line.buffer.enqueue tuple).2 = [(line.buffer.enqueue tuple).1.contents] ∧
        ∃ seen block others, line.Fulfils pipeline rows inputs read position rest
          (line.buffer.enqueue tuple).1 seen block others) := by
  obtain ⟨seen, fresh, inputs_eq, reached, joined_eq, gathers⟩ := awaits.flow
  rw [matched_eq, dataOf_cons_of_data is_data, List.append_cons] at joined_eq
  rcases gathers.enqueue tuple with ⟨none_reported, gathers⟩ | ⟨reported, tuples_eq, full, gathers⟩
  · left
    exact ⟨none_reported, awaits.isProtected, ⟨seen, _, inputs_eq, reached, joined_eq, gathers⟩,
      awaits.backup⟩
  · right
    obtain ⟨block, others, meetings_eq, block_eq, others_eq⟩ := List.map_eq_append_iff.mp joined_eq
    refine ⟨reported, seen, block, others, inputs_eq, meetings_eq, ?_, ?_, others_eq.symm, gathers⟩
    · rw [tuples_eq, block_eq]
    · rw [← full, ← block_eq, List.length_map]

theorem remember (awaits : line.Awaits pipeline rows inputs read position)
    (matched_eq : line.matched = tuple :: rest) (is_data : tuple.isEndOfStream = false)
    (none_reported : (line.buffer.enqueue tuple).2 = []) :
    Awaits pipeline rows inputs read position
      { line with matched := rest, buffer := (line.buffer.enqueue tuple).1 } := by
  rcases awaits.accept matched_eq is_data with ⟨_, remembered⟩ | ⟨reported, _⟩
  · exact remembered
  · cases none_reported.symm.trans reported

theorem exists_fulfils (awaits : line.Awaits pipeline rows inputs read position)
    (matched_eq : line.matched = tuple :: rest) (is_data : tuple.isEndOfStream = false)
    (reported : (line.buffer.enqueue tuple).2 = [(line.buffer.enqueue tuple).1.contents]) :
    ∃ seen block others, line.Fulfils pipeline rows inputs read position rest
      (line.buffer.enqueue tuple).1 seen block others := by
  rcases awaits.accept matched_eq is_data with ⟨none_reported, _⟩ | ⟨_, fulfils⟩
  · cases reported.symm.trans none_reported
  · exact fulfils

end Awaits

/-! ### Blocks -/

variable {shown : Snapshot → Prop} {buffer : RowBuffer} {seen : List Tuple}
  {block others : List Meeting}

namespace Fulfils

theorem length_meetings (fulfils : line.Fulfils pipeline rows inputs read position rest buffer
      seen block others) :
    (pipeline.meetings rows seen).length = position + pipeline.window.width + others.length := by
  have length_eq := congrArg List.length fulfils.meetings_eq
  have width_pos := pipeline.window.width_pos
  rw [List.length_drop, List.length_append, fulfils.full] at length_eq
  omega

theorem drop_meetings (fulfils : line.Fulfils pipeline rows inputs read position rest buffer
      seen block others) :
    (pipeline.meetings rows inputs).drop position = block ++ (others ++
      pipeline.meetings rows (dataOf line.passed.queue ++ dataOf line.arrivals)) := by
  have length_eq := fulfils.length_meetings
  rw [← fulfils.inputs_eq, meetings_append, List.drop_append_of_le_length (by omega),
    fulfils.meetings_eq, List.append_assoc]

theorem mem_meetings (fulfils : line.Fulfils pipeline rows inputs read position rest buffer
      seen block others) {meeting : Meeting} (member : meeting ∈ block) :
    meeting ∈ pipeline.meetings rows inputs := by
  apply List.mem_of_mem_drop (i := position)
  rw [fulfils.drop_meetings]
  exact List.mem_append_left _ member

/-- A block of meetings that were joined at one version is consistent. -/
theorem isConsistent (fulfils : line.Fulfils pipeline rows inputs read position rest buffer
      seen block others) (feeds : pipeline.Feeds inputs) {version : Nat}
    (same : ∀ meeting ∈ block, (read meeting.input.lowWater).version = version) :
    buffer.contents.isConsistent = true := by
  refine Contents.isConsistent_of_versions (fun _ => some version) fun entry member => ?_
  obtain ⟨tuple, tuple_mem, stamped⟩ := List.mem_flatMap.mp member
  rw [RowBuffer.contents, fulfils.tuples_eq] at tuple_mem
  obtain ⟨meeting, meeting_mem, rfl⟩ := List.mem_map.mp tuple_mem
  rw [joinedAt, joined_stamps feeds (fulfils.mem_meetings meeting_mem), same meeting meeting_mem]
    at stamped
  rw [List.mem_singleton.mp stamped]

/-- A consistent block was joined at one version, and its mean is the next result. -/
theorem exists_isMeanFrom (fulfils : line.Fulfils pipeline rows inputs read position rest buffer
      seen block others) (meets : pipeline.Meets shown rows inputs)
    (is_shown : ∀ time, shown (read time)) (consistent : buffer.contents.isConsistent = true) :
    ∃ result, (AggregateFunction.mean pipeline.index).apply pipeline.mean.schema buffer.contents =
        .ok result ∧
      ∃ snapshot, shown snapshot ∧
        pipeline.IsMeanFrom rows inputs snapshot.version position result := by
  have tuples_eq := fulfils.tuples_eq
  obtain ⟨first, first_mem⟩ : ∃ first, first ∈ block :=
    List.exists_mem_of_length_pos (fulfils.full ▸ pipeline.window.width_pos)
  have stamped {meeting : Meeting} (member : meeting ∈ block) :
      (pipeline.reference.place, (read meeting.input.lowWater).version) ∈
        buffer.contents.stampEntries := by
    refine List.mem_flatMap.mpr ⟨pipeline.joinedAt read meeting, ?_, ?_⟩
    · rw [RowBuffer.contents, tuples_eq]
      exact List.mem_map_of_mem member
    · rw [joinedAt, joined_stamps meets.feeds (fulfils.mem_meetings member)]
      exact List.mem_singleton.mpr rfl
  obtain ⟨result, computed⟩ :
      ∃ result, (AggregateFunction.mean pipeline.index).apply pipeline.mean.schema
        buffer.contents = .ok result := by
    refine AggregateFunction.exists_mean (fun tuple inside => ?_) pipeline.mean.schema
    rw [RowBuffer.contents, tuples_eq] at inside
    obtain ⟨meeting, member, rfl⟩ := List.mem_map.mp inside
    exact meets.numeric _ (is_shown _) meeting (fulfils.mem_meetings member)
  have block_eq : pipeline.meetingBlock rows inputs position = block := by
    rw [meetingBlock, fulfils.drop_meetings, ← fulfils.full, List.take_left]
  have one_version : block.map (pipeline.joined (read first.input.lowWater).version) =
      buffer.tuples := by
    rw [tuples_eq]
    refine List.map_congr_left fun meeting member => ?_
    rw [joinedAt, Contents.version_eq_of_isConsistent consistent (stamped first_mem)
      (stamped member)]
  refine ⟨result, computed, _, is_shown first.input.lowWater, ?_, ?_⟩
  · rw [block_eq, fulfils.full]
  · rw [block_eq, one_version]
    exact computed

/-- A block with mixed versions can be evaluated again, from the next input on. -/
theorem redo (fulfils : line.Fulfils pipeline rows inputs read position rest buffer
      seen block others) (awaits : line.Awaits pipeline rows inputs read position)
    (feeds : pipeline.Feeds inputs) (mixed : buffer.contents.isConsistent = false) :
    Awaits pipeline rows inputs read
      (nextBoundary (pipeline.meetingCounts rows inputs) position)
      { line with
        passed := line.passed.recover
        matched := []
        buffer := buffer.reset } := by
  rcases awaits.backup with ⟨before, backed_up⟩ | spent
  · rw [backed_up.nextBoundary_eq]
    refine ⟨awaits.isProtected, ⟨before, [], backed_up.inputs_eq, Nat.le_refl _, ?_,
      fulfils.gathers.reset⟩, .inl ⟨before, backed_up.skip⟩⟩
    rw [List.drop_length]
    rfl
  · -- Once nothing but the last input is left, no block can be mixed.
    have consistent := fulfils.isConsistent feeds fun meeting member => by
      have last := spent.left meeting
        (fulfils.drop_meetings ▸ List.mem_append_left _ member)
      rw [last]
    rw [mixed] at consistent
    cases consistent

/-- The block ends among the meetings of an input. -/
theorem exists_last (fulfils : line.Fulfils pipeline rows inputs read position rest buffer
      seen block others) :
    ∃ front last after, line.EndsWith pipeline rows inputs read position rest buffer block others
      front last after := by
  have length_eq := fulfils.length_meetings
  obtain ⟨earlier, newest, rfl⟩ : ∃ earlier newest, block = earlier ++ [newest] := by
    rcases List.eq_nil_or_concat block with rfl | ⟨earlier, newest, block_eq⟩
    · exact absurd fulfils.full (Nat.ne_of_lt pipeline.window.width_pos)
    · exact ⟨earlier, newest, block_eq.trans (List.concat_eq_append ..)⟩
  have full := fulfils.full
  rw [List.length_append, List.length_singleton] at full
  have split := List.take_append_drop position (pipeline.meetings rows seen)
  rw [fulfils.meetings_eq, List.append_assoc, List.singleton_append, ← List.append_assoc]
    at split
  obtain ⟨front, last, after, part, left, rfl, front_eq, last_eq, others_eq⟩ :=
    exists_split_of_flatMap_eq split.symm
  -- The newest meeting of the block is one of `last`, behind `part` of its meetings.
  have front_length := congrArg List.length front_eq
  rw [List.length_append, List.length_append, List.length_take, ← meetings] at front_length
  have last_length : (pipeline.meetings rows (front ++ [last])).length =
      (pipeline.meetings rows front).length + (part.length + (left.length + 1)) := by
    rw [meetings_append, List.length_append]
    simp [meetings, last_eq]
  have is_last {meeting : Meeting} (member : meeting ∈ part ++ newest :: left) :
      meeting.input = last := input_of_mem_meetingsOf (last_eq ▸ member)
  refine ⟨front, last, after, by simpa using fulfils, by omega, by omega,
    ⟨newest, by simp, is_last (by simp)⟩, fun meeting member => ?_, fun meeting member => ?_⟩
  · rcases List.mem_append.mp member with is_earlier | is_newest
    · have before : meeting ∈ front.flatMap (pipeline.meetingsOf rows) ++ part :=
        front_eq ▸ List.mem_append_right _ is_earlier
      rcases List.mem_append.mp before with in_front | in_part
      · exact List.mem_append_left _ (input_mem_of_mem_meetings in_front)
      · exact List.mem_append_right _
          (List.mem_singleton.mpr (is_last (List.mem_append_left _ in_part)))
    · exact List.mem_append_right _
        (List.mem_singleton.mpr (is_last (by simp [List.mem_singleton.mp is_newest])))
  · rw [others_eq] at member
    rcases List.mem_append.mp member with is_left | later
    · exact List.mem_cons.mpr (.inl (is_last (by simp [is_left])))
    · exact List.mem_cons_of_mem _ (input_mem_of_mem_meetings later)

end Fulfils

namespace EndsWith

variable {front after : List Tuple} {last : Tuple}

/-- The inputs before and after the last one of a block. -/
theorem inputs_split (ends : line.EndsWith pipeline rows inputs read position rest buffer
      block others front last after) :
    inputs = front ++ [last] ++
      (after ++ (dataOf line.passed.queue ++ dataOf line.arrivals)) := by
  rw [← ends.inputs_eq, List.append_assoc _ after]

theorem le_of_mem_earlier (ends : line.EndsWith pipeline rows inputs read position rest buffer
      block others front last after) (feeds : pipeline.Feeds inputs)
    (earlier : tuple ∈ front ++ [last]) : tuple.lowWater ≤ last.lowWater := by
  rw [ends.inputs_split, List.append_assoc] at feeds
  rcases List.mem_append.mp earlier with before | same
  · exact Int.le_of_lt (feeds.lowWater_lt before List.mem_cons_self)
  · exact Int.le_of_eq (congrArg Tuple.lowWater (List.mem_singleton.mp same))

/-- The mark of a block lies just above its last input. -/
theorem mark_eq (ends : line.EndsWith pipeline rows inputs read position rest buffer
      block others front last after) (feeds : pipeline.Feeds inputs) :
    buffer.mark = Time.after last.lowWater 1 := by
  obtain ⟨newest, newest_mem, newest_eq⟩ := ends.met
  have whole : buffer.tuples.length ≤ buffer.stride := by
    rw [ends.tuples_eq, List.length_map, ends.full, ends.gathers.stride_eq]
  have newest_inside : pipeline.joinedAt read newest ∈ buffer.tuples :=
    ends.tuples_eq ▸ List.mem_map_of_mem newest_mem
  have le_newest (tuple : Tuple) (member : tuple ∈ buffer.tuples) :
      tuple.lowWater ≤ (pipeline.joinedAt read newest).lowWater := by
    rw [ends.tuples_eq] at member
    obtain ⟨meeting, meeting_mem, rfl⟩ := List.mem_map.mp member
    change meeting.input.lowWater ≤ newest.input.lowWater
    rw [newest_eq]
    exact ends.le_of_mem_earlier feeds (ends.inside meeting meeting_mem)
  rw [RowBuffer.mark_eq_of_newest whole newest_inside le_newest, ← newest_eq]
  rfl

theorem lt_of_mem_later (ends : line.EndsWith pipeline rows inputs read position rest buffer
      block others front last after) (feeds : pipeline.Feeds inputs)
    (later : tuple ∈ after ++ (dataOf line.passed.queue ++ dataOf line.arrivals)) :
    last.lowWater < tuple.lowWater ∧ tuple.lowWater ≤ Time.latest := by
  rw [ends.inputs_split] at feeds
  exact ⟨feeds.lowWater_lt (by simp) later, feeds.lowWater_le (List.mem_append_right _ later)⟩

/-- If a block ends with an input at the last moment, only meetings of this input are left. -/
theorem isSpent (ends : line.EndsWith pipeline rows inputs read position rest buffer
      block others front last after) (feeds : pipeline.Feeds inputs)
    (is_latest : last.lowWater = Time.latest) :
    pipeline.IsSpent rows inputs (position + pipeline.window.width)
      (dataOf line.passed.queue ++ dataOf line.arrivals) := by
  have nothing_later : after ++ (dataOf line.passed.queue ++ dataOf line.arrivals) = [] := by
    refine List.eq_nil_iff_forall_not_mem.mpr fun tuple later => ?_
    have too_late := ends.lt_of_mem_later feeds later
    omega
  obtain ⟨rfl, nothing_waits⟩ := List.append_eq_nil_iff.mp nothing_later
  have last_mem : last ∈ inputs := by
    rw [ends.inputs_split]
    simp
  refine ⟨nothing_waits, is_latest ▸ List.mem_map_of_mem last_mem, fun meeting member => ?_⟩
  rw [← List.drop_drop, ends.drop_meetings, ← ends.full, List.drop_left, nothing_waits]
    at member
  have is_other : meeting ∈ others := by simpa [meetings] using member
  rw [List.mem_singleton.mp (ends.left meeting is_other), is_latest]

/-- Otherwise the commit evicts the inputs up to the last one from the backup, although meetings of
this one may be left. -/
theorem isBackedUp (ends : line.EndsWith pipeline rows inputs read position rest buffer
      block others front last after) (feeds : pipeline.Feeds inputs)
    (not_latest : last.lowWater ≠ Time.latest) {before : List Tuple}
    (backed_up : pipeline.IsBackedUp rows inputs position before
      (dataOf line.passed.backup ++ dataOf line.arrivals)) :
    pipeline.IsBackedUp rows inputs (position + pipeline.window.width) (front ++ [last])
      (dataOf (line.passed.evictBefore buffer.mark).backup ++ dataOf line.arrivals) := by
  have inputs_eq := ends.inputs_split
  have reached := ends.reached
  have mark_eq : buffer.mark = last.lowWater + 1 := by
    have last_le : last.lowWater ≤ Time.latest := by
      refine feeds.lowWater_le ?_
      rw [inputs_eq]
      simp
    rw [ends.mark_eq feeds, Time.after]
    omega
  obtain ⟨kept, kept_eq⟩ :=
    backed_up.isPrefix (inputs_eq ▸ List.prefix_append _ _) (by omega)
  have backup_eq : dataOf line.passed.backup = kept ++ (after ++ dataOf line.passed.queue) := by
    have same := backed_up.inputs_eq.trans inputs_eq
    simp only [← kept_eq, List.append_assoc, List.append_cancel_left_eq] at same
    simpa only [← List.append_assoc, List.append_cancel_right_eq] using same
  -- The mark lies just above `last`, so `kept` goes and all later inputs stay.
  have evicted : dataOf (line.passed.evictBefore buffer.mark).backup =
      after ++ dataOf line.passed.queue := by
    refine dataOf_evictBefore backup_eq (fun tuple member => ?_) fun tuple member => ?_
    · have earlier := ends.le_of_mem_earlier feeds
        (kept_eq ▸ List.mem_append_right before member)
      omega
    · have waits : tuple ∈ after ++ (dataOf line.passed.queue ++ dataOf line.arrivals) := by
        rw [← List.append_assoc]
        exact List.mem_append_left _ member
      have later := ends.lt_of_mem_later feeds waits
      omega
  refine ⟨?_, reached, fun others_front other same => ?_⟩
  · rw [evicted, inputs_eq]
    simp only [List.append_assoc]
  · obtain ⟨rfl, _⟩ := List.append_inj' same rfl
    exact ends.behind

end EndsWith

/-- After a block was committed, the next one is awaited. -/
theorem Fulfils.commit (fulfils : line.Fulfils pipeline rows inputs read position rest buffer
      seen block others) (awaits : line.Awaits pipeline rows inputs read position)
    (feeds : pipeline.Feeds inputs) :
    Awaits pipeline rows inputs read (position + pipeline.window.width)
      { line with
        passed := line.passed.evictBefore buffer.mark
        matched := rest
        buffer } := by
  have length_eq := fulfils.length_meetings
  refine ⟨awaits.isProtected, ⟨seen, [], fulfils.inputs_eq, by omega, ?_, fulfils.gathers⟩, ?_⟩
  · rw [← List.drop_drop, fulfils.meetings_eq, ← fulfils.full, List.drop_left, fulfils.rest_eq]
    rfl
  · obtain ⟨front, last, after, ends⟩ := fulfils.exists_last
    by_cases is_latest : last.lowWater = Time.latest
    · exact .inr (ends.isSpent feeds is_latest)
    · rcases awaits.backup with ⟨before, backed_up⟩ | spent
      · exact .inl ⟨_, ends.isBackedUp feeds is_latest backed_up⟩
      · refine .inr ⟨spent.waiting_eq, spent.last, fun meeting member => spent.left meeting ?_⟩
        rw [← List.drop_drop] at member
        exact List.mem_of_mem_drop member

end Line

end Pipeline

end StreamQuery
