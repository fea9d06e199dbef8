import StreamQuery.Proofs.Confluence.Joins

/-!
# Courses

The course of a confluence since the mean started over: the lanes of both streams, and the joined
tuples, which are different pairs of tuples from completed windows. A commit clears the backups of
what comes before its mark, so that nothing from before the mark is on the way after the mean has
started over.
-/

namespace StreamQuery

/-- What has become of the tuples of a confluence. -/
structure Course where
  left : Lane := {}
  right : Lane := {}
  /-- The joined tuples of the windows that the mean has completed since it started over. -/
  done : List Tuple := []
  /-- The beginning of the next window of the mean. -/
  begun : List Tuple := []
  /-- The joined tuples that wait for the mean. -/
  joined : List Tuple := []

namespace Course

/-- All tuples that were joined since the mean started over. -/
def emitted (course : Course) : List Tuple :=
  course.done ++ course.begun ++ course.joined

/-- The course after a commit, which drops what comes before a mark from both backups. -/
def evict (course : Course) (mark : Int) : Course :=
  { course with left := course.left.evict mark, right := course.right.evict mark }

/-- The course when the mean starts over, and both backups are delivered again. -/
def rewind (course : Course) : Course where
  left := course.left.rewind
  right := course.right.rewind

/-- The lanes are in order, and no pair was joined twice since the mean started over. -/
structure IsSound (course : Course) : Prop where
  left : course.left.IsOrdered
  right : course.right.IsOrdered
  distinct : (course.emitted.map (·.lineage.arrivals)).Nodup
  joins : ∀ result ∈ course.emitted, ∃ first ∈ course.left.closed,
    ∃ second ∈ course.right.closed, result.Joins first second

/-- Nothing from before a mark can be delivered again. -/
structure IsCleared (course : Course) (mark : Int) : Prop where
  left : course.left.IsCleared mark
  right : course.right.IsCleared mark

/-- Nothing from before a mark has been on the way since the mean started over. -/
structure IsPast (course : Course) (mark : Int) : Prop where
  left : course.left.IsPast mark
  right : course.right.IsPast mark

/-- What a course keeps when tuples move on. -/
structure Leads (before after : Course) : Prop where
  sound : after.IsSound
  left : before.left.Leads after.left
  right : before.right.Leads after.right
  done : before.done ⊆ after.done

variable {course before after : Course} {mark : Int} {tuple : Tuple} {rest : List Tuple}

theorem Leads.isCleared (leads : before.Leads after) (cleared : before.IsCleared mark) :
    after.IsCleared mark :=
  ⟨leads.left.cleared mark cleared.left, leads.right.cleared mark cleared.right⟩

theorem Leads.isPast (leads : before.Leads after) (cleared : before.IsCleared mark)
    (past : before.IsPast mark) : after.IsPast mark :=
  ⟨leads.left.past mark cleared.left past.left, leads.right.past mark cleared.right past.right⟩

theorem IsCleared.rewind (cleared : course.IsCleared mark) :
    course.rewind.IsCleared mark ∧ course.rewind.IsPast mark :=
  ⟨⟨cleared.left.rewind.1, cleared.right.rewind.1⟩, cleared.left.rewind.2, cleared.right.rewind.2⟩

/-- What was joined of tuples that are past a mark was joined of times from the mark on. -/
theorem IsPast.le_of_mem (past : course.IsPast mark) (sound : course.IsSound)
    (member : tuple ∈ course.emitted) : ∀ time ∈ tuple.lineage.arrivals, mark ≤ time := by
  obtain ⟨first, first_mem, second, second_mem, is_joined⟩ := sound.joins tuple member
  rw [is_joined.told]
  have first_past := past.left first (List.mem_append_left _ (List.mem_append_left _ first_mem))
  have second_past :=
    past.right second (List.mem_append_left _ (List.mem_append_left _ second_mem))
  simpa using ⟨first_past, second_past⟩

/-- At the start there are no tuples. -/
theorem isSound_start : Course.IsSound {} := by
  have ordered : Lane.IsOrdered {} := ⟨⟨.nil, nofun⟩, .refl _, .refl _, nofun⟩
  exact ⟨ordered, ordered, .nil, nofun⟩

namespace IsSound

theorem refl (sound : course.IsSound) : course.Leads course :=
  ⟨sound, .refl sound.left, .refl sound.right, List.Subset.refl _⟩

/-- Both lanes can move on, and new pairs can be joined. -/
theorem join (sound : course.IsSound) {left right : Lane} (left_leads : course.left.Leads left)
    (right_leads : course.right.Leads right) {results : List Tuple}
    (distinct : (results.map (·.lineage.arrivals)).Nodup)
    (joins : ∀ result ∈ results, ∃ first ∈ left.closed, ∃ second ∈ right.closed,
      result.Joins first second)
    (new : ∀ result ∈ results, ∀ old ∈ course.emitted,
      old.lineage.arrivals ≠ result.lineage.arrivals) :
    course.Leads { course with left, right, joined := course.joined ++ results } := by
  have emitted_eq : Course.emitted
      { course with left, right, joined := course.joined ++ results } =
        course.emitted ++ results := by
    simp [Course.emitted]
  refine ⟨⟨left_leads.ordered, right_leads.ordered, ?_, ?_⟩, left_leads, right_leads,
    List.Subset.refl _⟩
  · rw [emitted_eq, List.map_append, List.nodup_append]
    refine ⟨sound.distinct, distinct, ?_⟩
    rintro _ old_times _ result_times
    obtain ⟨old, old_mem, rfl⟩ := List.mem_map.mp old_times
    obtain ⟨result, result_mem, rfl⟩ := List.mem_map.mp result_times
    exact new result result_mem old old_mem
  · rw [emitted_eq, List.forall_mem_append]
    refine ⟨fun result member => ?_, joins⟩
    obtain ⟨first, first_mem, second, second_mem, is_joined⟩ := sound.joins result member
    exact ⟨first, left_leads.closed first_mem, second, right_leads.closed second_mem, is_joined⟩

/-- Both lanes can move on. -/
theorem lead (sound : course.IsSound) {left right : Lane} (left_leads : course.left.Leads left)
    (right_leads : course.right.Leads right) : course.Leads { course with left, right } where
  sound :=
    { left := left_leads.ordered
      right := right_leads.ordered
      distinct := sound.distinct
      joins := fun result member => by
        obtain ⟨first, first_mem, second, second_mem, is_joined⟩ := sound.joins result member
        exact ⟨first, left_leads.closed first_mem, second, right_leads.closed second_mem,
          is_joined⟩ }
  left := left_leads
  right := right_leads
  done := List.Subset.refl _

theorem evict (sound : course.IsSound) (mark : Int) : course.Leads (course.evict mark) :=
  sound.lead (sound.left.evict mark) (sound.right.evict mark)

/-- The mean can take a joined tuple, and complete a window with it. -/
theorem of_emitted_eq (sound : course.IsSound) {after : Course} (left_eq : after.left = course.left)
    (right_eq : after.right = course.right) (emitted_eq : after.emitted = course.emitted)
    (done : course.done ⊆ after.done) : course.Leads after where
  sound :=
    { left := left_eq ▸ sound.left
      right := right_eq ▸ sound.right
      distinct := emitted_eq ▸ sound.distinct
      joins := by
        rw [emitted_eq, left_eq, right_eq]
        exact sound.joins }
  left := by rw [left_eq]; exact .refl sound.left
  right := by rw [right_eq]; exact .refl sound.right
  done := done

theorem take (sound : course.IsSound) (joined_eq : course.joined = tuple :: rest) :
    course.Leads { course with begun := course.begun ++ [tuple], joined := rest } :=
  sound.of_emitted_eq rfl rfl (by simp [Course.emitted, joined_eq]) (List.Subset.refl _)

theorem complete (sound : course.IsSound) (joined_eq : course.joined = tuple :: rest) :
    course.Leads
      { course with
        done := course.done ++ (course.begun ++ [tuple])
        begun := []
        joined := rest } :=
  sound.of_emitted_eq rfl rfl (by simp [Course.emitted, joined_eq]) (List.subset_append_left _ _)

/-- After a commit both backups are cleared, if its mark is at most one moment after the low-water
mark of a joined tuple. -/
theorem isCleared_evict (sound : course.IsSound) (member : tuple ∈ course.emitted)
    (mark_le : mark ≤ tuple.lowWater + 1) :
    (course.evict mark).IsCleared mark := by
  obtain ⟨first, first_mem, second, second_mem, is_joined⟩ := sound.joins tuple member
  have first_le := is_joined.left_le
  have second_le := is_joined.right_le
  obtain ⟨input, input_mem, input_eq⟩ := sound.left.exists_passed
    (List.mem_append_left _ (List.mem_append_left _ first_mem))
  obtain ⟨other, other_mem, other_eq⟩ := sound.right.exists_passed
    (List.mem_append_left _ (List.mem_append_left _ second_mem))
  exact ⟨Lane.isCleared_evict ⟨input, input_mem, by omega⟩,
    Lane.isCleared_evict ⟨other, other_mem, by omega⟩⟩

theorem rewind (sound : course.IsSound) : course.rewind.IsSound where
  left := sound.left.rewind
  right := sound.right.rewind
  distinct := List.nodup_nil
  joins _ member := (nomatch member)

/-- A pair that is in a window that was completed is not in the windows after it. -/
theorem not_repeated (sound : course.IsSound) {earlier later : Tuple}
    (earlier_mem : earlier ∈ course.done) (later_mem : later ∈ course.begun ++ course.joined) :
    earlier.lineage.arrivals ≠ later.lineage.arrivals := by
  have distinct := sound.distinct
  rw [emitted, List.append_assoc, List.map_append, List.nodup_append] at distinct
  exact distinct.2.2 _ (List.mem_map_of_mem earlier_mem) _ (List.mem_map_of_mem later_mem)

/-- A pair of which one tuple is from a later window than those of all pairs so far is a new one. -/
theorem not_joined_before (sound : course.IsSound) {result old first second : Tuple}
    (is_joined : result.Joins first second)
    (later : (∀ other ∈ course.left.closed, other.lowWater < first.lowWater) ∨
      ∀ other ∈ course.right.closed, other.lowWater < second.lowWater)
    (old_mem : old ∈ course.emitted) : old.lineage.arrivals ≠ result.lineage.arrivals := by
  obtain ⟨old_first, first_mem, old_second, second_mem, was_joined⟩ := sound.joins old old_mem
  rw [was_joined.told, is_joined.told]
  intro same
  simp only [List.cons.injEq, and_true] at same
  rcases later with left_later | right_later
  · exact Int.ne_of_lt (left_later old_first first_mem) same.1
  · exact Int.ne_of_lt (right_later old_second second_mem) same.2

/-- What becomes of a course when the join takes tuples. -/
theorem receive (sound : course.IsSound) {state : WindowJoin} {leftWindow rightWindow : Window}
    (left_follows : state.left.Follows leftWindow course.left)
    (right_follows : state.right.Follows rightWindow course.right) {left? right? : Option Tuple}
    {left_rest right_rest : List Tuple}
    (left_waiting : course.left.waiting = left?.toList ++ left_rest)
    (right_waiting : course.right.waiting = right?.toList ++ right_rest) {turn : WindowJoin.Turn}
    (turn_eq : WindowJoin.Turn.ofArrivals state left? right? = turn) {condition : Condition}
    {schema : Schema} {sent : List Tuple}
    (sent_eq : (turn.results condition schema).toOption.getD [] = sent) :
    ∃ left right, course.Leads { course with left, right, joined := course.joined ++ sent } ∧
      dataOf sent = sent ∧
      JoinSide.Receives leftWindow course.left left_rest state.left
        (turn.join.left, (state.left.receive left?).2) left ∧
      JoinSide.Receives rightWindow course.right right_rest state.right
        (turn.join.right, (state.right.receive right?).2) right := by
  obtain ⟨left, left_receives⟩ := left_follows.receive sound.left left_waiting
  obtain ⟨right, right_receives⟩ := right_follows.receive sound.right right_waiting
  obtain ⟨join_eq, completed_eq⟩ := WindowJoin.Turn.ofArrivals_spec state left? right?
  rw [turn_eq] at join_eq completed_eq
  have left_eq : (turn.join.left, (state.left.receive left?).2) = state.left.receive left? := by
    rw [join_eq]
  have right_eq :
      (turn.join.right, (state.right.receive right?).2) = state.right.receive right? := by
    rw [join_eq]
  rw [← left_eq] at left_receives
  rw [← right_eq] at right_receives
  suffices moves : course.Leads { course with left, right, joined := course.joined ++ sent } ∧
      dataOf sent = sent from ⟨left, right, moves.1, moves.2, left_receives, right_receives⟩
  have cases := turn.sent_cases condition schema
  rw [sent_eq] at cases
  rcases cases with rfl | ⟨completed, computed⟩
  · rw [List.append_nil]
    exact ⟨sound.lead left_receives.leads right_receives.leads, rfl⟩
  obtain ⟨distinct, joins⟩ := WindowJoin.results_join computed left_receives.follows
    right_receives.follows left_receives.leads.ordered right_receives.leads.ordered
  refine ⟨sound.join left_receives.leads right_receives.leads distinct
    (fun result member => ?_) fun result member old old_mem => ?_, ?_⟩
  · obtain ⟨_, first, _, second, _, first_closed, second_closed, is_joined⟩ := joins result member
    exact ⟨first, first_closed, second, second_closed, is_joined⟩
  · -- The side that has completed a window has a tuple that was in no pair before.
    obtain ⟨_, first, first_mem, second, second_mem, _, _, is_joined⟩ := joins result member
    rw [completed_eq, Bool.or_eq_true] at completed
    refine sound.not_joined_before is_joined ?_ old_mem
    exact completed.imp (left_receives.later · first first_mem)
      (right_receives.later · second second_mem)
  · exact List.filter_eq_self.mpr fun result member => by simp [(joins result member).1]

end IsSound

end Course

end StreamQuery
