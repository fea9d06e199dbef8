import StreamQuery.Proofs.Confluence.Courses
import StreamQuery.Proofs.Engine.Responses
import StreamQuery.Proofs.Engine.Sends
import StreamQuery.Proofs.Operator.Accepts
import StreamQuery.Proofs.Operator.Totality

/-!
# States of confluences

In which states a confluence follows a course, and how each operator takes it further.
-/

namespace StreamQuery

/-- A world in which a stream is where a lane says. -/
structure Lane.IsFed (lane : Lane) (world : World) (id : Nat) : Prop where
  /-- The stream has what is arriving. -/
  source : ∃ arrivals, world.memory? id = some (.source arrivals) ∧ arrivals.queue = lane.arriving
  /-- What is passed on can be delivered again. -/
  isProtected : (world.output id).isProtected = true
  backup_eq : (world.output id).backup = lane.backup

namespace Lane.IsFed

variable {lane : Lane} {world after : World} {id : Nat}

/-- Nothing happens to the stream. -/
theorem frame (fed : lane.IsFed world id) (memory_eq : after.memory? id = world.memory? id)
    (isProtected : (after.output id).isProtected = (world.output id).isProtected)
    (backup_eq : (after.output id).backup = (world.output id).backup) : lane.IsFed after id where
  source := by
    rw [memory_eq]
    exact fed.source
  isProtected := isProtected.trans fed.isProtected
  backup_eq := backup_eq.trans fed.backup_eq

/-- What waits on the way to the join does not matter. -/
theorem of_eq (fed : lane.IsFed world id) {next : Lane}
    (arriving_eq : next.arriving = lane.arriving) (backup_eq : next.backup = lane.backup) :
    next.IsFed world id where
  source := by
    rw [arriving_eq]
    exact fed.source
  isProtected := fed.isProtected
  backup_eq := by rw [backup_eq, fed.backup_eq]

/-- The stream passes a tuple on, if there is one. -/
theorem evaluate {header : OperatorHeader} (fed : lane.IsFed world header.id) (role : CommitRole) :
    world.evaluate role (.source header) = (world, .ok .idle) ∨
      ∃ tuple rest memory, lane.arriving = tuple :: rest ∧
        World.Sends header.id [] [tuple] memory world (world.evaluate role (.source header)).1 ∧
        (world.evaluate role (.source header)).2 = .ok (.emitted 1) ∧
        Lane.IsFed
          { lane with
            arriving := rest
            passed := lane.passed ++ [tuple]
            backup := lane.backup ++ [tuple]
            waiting := lane.waiting ++ [tuple] }
          (world.evaluate role (.source header)).1 header.id := by
  obtain ⟨arrivals, remembered, arriving_eq⟩ := fed.source
  cases waits : arrivals.queue with
  | nil => exact .inl (World.evaluate_source_of_nil role remembered waits)
  | cons tuple rest =>
      obtain ⟨sends, evaluated⟩ := World.evaluate_source_of_cons role remembered waits
      refine .inr ⟨tuple, rest, _, arriving_eq.symm.trans waits, sends, evaluated,
        ⟨_, sends.memory, rfl⟩, ?_, ?_⟩
      · rw [sends.self, Channel.enqueueAll_isProtected, fed.isProtected]
      · rw [sends.self, Channel.enqueueAll_backup, if_pos fed.isProtected, fed.backup_eq]

end Lane.IsFed

namespace Confluence

/-- A world in which a confluence is where a course says. -/
structure Shows (plan : Confluence) (world : World) (course : Course) : Prop where
  left : course.left.IsFed world plan.left.id
  right : course.right.IsFed world plan.right.id
  /-- The match takes what the left stream has passed on. -/
  passed : ∀ tuple ∈ (world.output plan.left.id).queue, tuple ∈ course.left.passed
  /-- The match remembers nothing. -/
  stateless : world.memory? plan.combine.id = some .stateless
  left_waiting : (world.output plan.combine.id).queue ++ (world.output plan.left.id).queue =
    course.left.waiting
  right_waiting : (world.output plan.right.id).queue = course.right.waiting
  /-- The join remembers both lanes. -/
  join : ∃ state, world.memory? plan.join.id = some (.join state) ∧
    state.left.Follows plan.logic.leftWindow course.left ∧
      state.right.Follows plan.logic.rightWindow course.right
  /-- The mean takes what has been joined. -/
  joined : dataOf (world.output plan.join.id).queue = course.joined
  /-- The mean remembers the beginning of its next window. -/
  mean : ∃ aggregation buffer, world.memory? plan.mean.id = some (.aggregate aggregation) ∧
    aggregation.synopsis = .rows buffer ∧ aggregation.pendingCommit = false ∧
      buffer.Gathers plan.window course.begun

/-- What an evaluation makes of a course: the windows that are completed, what is sent and what is
reported. -/
inductive Evolves (before after : Course) :
    List Contents → List Tuple → Except OperatorError Step → Prop
  /-- Tuples move on, and no window is completed. -/
  | moves {sent : List Tuple} {outcome : Except OperatorError Step} (leads : before.Leads after)
      (quiet : ∀ step, outcome = .ok step → step.isSignal = false) :
      Evolves before after [] sent outcome
  /-- The mean completes a window. -/
  | completes {window : Contents} {sent : List Tuple} {outcome : Except OperatorError Step}
      (leads : before.Leads after) (taken : window.tuples ⊆ before.begun ++ before.joined)
      (done : window.tuples ⊆ after.done)
      (reached : ∃ tuple ∈ window.tuples, window.mark ≤ tuple.lowWater + 1)
      (settles : Aggregation.Settles window sent outcome) :
      Evolves before after [window] sent outcome

namespace Shows

variable {plan : Confluence} {world : World} {course : Course} (role : CommitRole)

/-! ## Streams -/

/-- The left stream passes a tuple on, if there is one. -/
theorem evaluate_left (shows_course : plan.Shows world course) (places : plan.HasPlaces)
    (sound : course.IsSound) :
    ∃ after, plan.Shows (world.evaluate role plan.leftStream).1 after ∧ course.Leads after ∧
      ∀ step, (world.evaluate role plan.leftStream).2 = .ok step → step.isSignal = false := by
  rw [leftStream]
  rcases shows_course.left.evaluate role with
    idle | ⟨tuple, rest, memory, arriving_eq, sends, evaluated, fed⟩
  · rw [idle]
    exact ⟨course, shows_course, sound.refl, by rintro step ⟨⟩; rfl⟩
  · have others {id : Nat} (different : id ≠ plan.left.id) :=
      sends.others id different List.not_mem_nil
    refine ⟨_, ?_, sound.lead (sound.left.pass arriving_eq) (.refl sound.right),
      by rw [evaluated]; rintro step ⟨⟩; rfl⟩
    exact {
      left := fed
      right := shows_course.right.frame (sends.memories _ places.left_ne_right.symm)
        (by rw [others places.left_ne_right.symm]) (by rw [others places.left_ne_right.symm])
      passed := by
        rw [sends.self, Channel.enqueueAll_queue, List.forall_mem_append]
        exact ⟨fun other member => List.mem_append_left _ (shows_course.passed other member),
          fun other member => List.mem_append_right _ member⟩
      stateless := (sends.memories _ places.left_ne_combine.symm).trans shows_course.stateless
      left_waiting := by
        rw [others places.left_ne_combine.symm, sends.self, Channel.enqueueAll_queue,
          ← List.append_assoc, shows_course.left_waiting]
      right_waiting := by rw [others places.left_ne_right.symm, shows_course.right_waiting]
      join := by
        rw [sends.memories _ places.left_ne_join.symm]
        exact shows_course.join
      joined := by rw [others places.left_ne_join.symm, shows_course.joined]
      mean := by
        rw [sends.memories _ places.left_ne_mean.symm]
        exact shows_course.mean }

/-- The right stream passes a tuple on, if there is one. -/
theorem evaluate_right (shows_course : plan.Shows world course) (places : plan.HasPlaces)
    (sound : course.IsSound) :
    ∃ after, plan.Shows (world.evaluate role plan.rightStream).1 after ∧ course.Leads after ∧
      ∀ step, (world.evaluate role plan.rightStream).2 = .ok step → step.isSignal = false := by
  rw [rightStream]
  rcases shows_course.right.evaluate role with
    idle | ⟨tuple, rest, memory, arriving_eq, sends, evaluated, fed⟩
  · rw [idle]
    exact ⟨course, shows_course, sound.refl, by rintro step ⟨⟩; rfl⟩
  · have others {id : Nat} (different : id ≠ plan.right.id) :=
      sends.others id different List.not_mem_nil
    refine ⟨_, ?_, sound.lead (.refl sound.left) (sound.right.pass arriving_eq),
      by rw [evaluated]; rintro step ⟨⟩; rfl⟩
    exact {
      left := shows_course.left.frame (sends.memories _ places.left_ne_right)
        (by rw [others places.left_ne_right]) (by rw [others places.left_ne_right])
      right := fed
      passed := by
        rw [others places.left_ne_right]
        exact shows_course.passed
      stateless := (sends.memories _ places.combine_ne_right).trans shows_course.stateless
      left_waiting := by
        rw [others places.combine_ne_right, others places.left_ne_right, shows_course.left_waiting]
      right_waiting := by rw [sends.self, Channel.enqueueAll_queue, shows_course.right_waiting]
      join := by
        rw [sends.memories _ places.right_ne_join.symm]
        exact shows_course.join
      joined := by rw [others places.right_ne_join.symm, shows_course.joined]
      mean := by
        rw [sends.memories _ places.right_ne_mean.symm]
        exact shows_course.mean }

/-! ## The match -/

/-- The match takes a tuple and sends at most one tuple of the same time. -/
theorem of_match (shows_course : plan.Shows world course) (places : plan.HasPlaces)
    (sound : course.IsSound) {tuple : Tuple} {rest sent : List Tuple}
    (waits : (world.output plan.left.id).queue = tuple :: rest)
    (times : (sent.map Tuple.lowWater).Sublist [tuple.lowWater])
    (told : ∀ result ∈ sent, result.lineage.arrivals = tuple.lineage.arrivals) {after : World}
    (sends : World.Sends plan.combine.id [plan.left.id] sent .stateless world after) :
    ∃ next, plan.Shows after next ∧ course.Leads next := by
  have waiting_eq : course.left.waiting =
      (world.output plan.combine.id).queue ++ tuple :: rest := by
    rw [← shows_course.left_waiting, waits]
  have drained := sends.inputs _ (List.mem_singleton_self _)
  have others {id : Nat} (different : id ≠ plan.combine.id) (apart : id ≠ plan.left.id) :=
    sends.others id different (by simpa using apart)
  have kept : course.left.IsFed after plan.left.id :=
    shows_course.left.frame (sends.memories _ places.left_ne_combine) (by rw [drained])
      (by rw [drained])
  refine ⟨_, ?_, sound.lead (sound.left.replace waiting_eq times told) (.refl sound.right)⟩
  exact {
    left := kept.of_eq rfl rfl
    right := shows_course.right.frame (sends.memories _ places.combine_ne_right.symm)
      (by rw [others places.combine_ne_right.symm places.left_ne_right.symm])
      (by rw [others places.combine_ne_right.symm places.left_ne_right.symm])
    passed := fun other member => by
      rw [drained] at member
      exact shows_course.passed other (List.mem_of_mem_tail member)
    stateless := sends.memory
    left_waiting := by
      rw [sends.self, Channel.enqueueAll_queue, drained, waits]
      rfl
    right_waiting := by
      rw [others places.combine_ne_right.symm places.left_ne_right.symm, shows_course.right_waiting]
    join := by
      rw [sends.memories _ places.combine_ne_join.symm]
      exact shows_course.join
    joined := by
      rw [others places.combine_ne_join.symm places.left_ne_join.symm, shows_course.joined]
    mean := by
      rw [sends.memories _ places.combine_ne_mean.symm]
      exact shows_course.mean }

/-- The match takes a tuple, if there is one. -/
theorem evaluate_matching (shows_course : plan.Shows world course) (places : plan.HasPlaces)
    (sound : course.IsSound) (optimistic : world.catalog.access.mode = .optimistic)
    {relation : Relation} (found : world.relation? plan.reference.place = some relation)
    (once : ∀ input ∈ dataOf course.left.passed,
      plan.condition.MatchesOnce input relation.rows) :
    ∃ after, plan.Shows (world.evaluate role plan.matching).1 after ∧ course.Leads after ∧
      ∀ step, (world.evaluate role plan.matching).2 = .ok step → step.isSignal = false := by
  have different : plan.leftStream.id ≠ plan.combine.id := places.left_ne_combine
  have settled : world.hasPendingCommit plan.combine.id = false := by
    rw [World.hasPendingCommit_eq, shows_course.stateless]
    rfl
  cases waits : (world.output plan.left.id).queue with
  | nil =>
      have idle : world.evaluate role plan.matching = (world, .ok .idle) :=
        World.evaluate_single_of_nil role _ waits
      rw [idle]
      exact ⟨course, shows_course, sound.refl, by rintro step ⟨⟩; rfl⟩
  | cons tuple rest =>
      cases is_marker : tuple.isEndOfStream with
      | true =>
          obtain ⟨sends, evaluated, _⟩ := World.evaluate_single_of_marker role
            (.combine plan.reference plan.condition) shows_course.stateless settled different waits
            is_marker
          obtain ⟨next, shows_next, leads⟩ := shows_course.of_match places sound waits (.refl _)
            (by simp) sends
          exact ⟨next, shows_next, leads, fun step is_step => by
            cases evaluated.symm.trans is_step
            rfl⟩
      | false =>
          have member : tuple ∈ dataOf course.left.passed := List.mem_filter.mpr
            ⟨shows_course.passed tuple (by rw [waits]; exact List.mem_cons_self),
              by simp [is_marker]⟩
          have matches_once : plan.condition.MatchesOnce tuple relation.snapshot.rows :=
            once tuple member
          obtain ⟨result, matched⟩ :
              ∃ result, matchSnapshot plan.condition plan.combine.schema relation.id
                relation.snapshot tuple = .ok [result] :=
            matchSnapshot_of_matchesOnce matches_once
          have read : world.catalog.readRelation plan.reference.place relation =
              (relation.snapshot, world.catalog) := by
            rw [Catalog.readRelation, optimistic]
          obtain ⟨sends, ⟨step, evaluated, quiet⟩, _⟩ := World.evaluate_combine role
            shows_course.stateless settled different waits is_marker found read matched
          obtain ⟨row, _, position, rfl⟩ := mem_matchSnapshot matched (List.mem_singleton_self _)
          obtain ⟨next, shows_next, leads⟩ := shows_course.of_match places sound waits (.refl _)
            (by simp [matchTuple, Lineage.arrivals]) sends
          exact ⟨next, shows_next, leads, fun other is_other => by
            cases evaluated.symm.trans is_other
            exact quiet⟩

/-! ## The join -/

/-- Each side of the join takes its oldest tuple, and what they complete is joined. -/
theorem of_join (shows_course : plan.Shows world course) (places : plan.HasPlaces)
    (sound : course.IsSound) {state : WindowJoin}
    (left_follows : state.left.Follows plan.logic.leftWindow course.left)
    (right_follows : state.right.Follows plan.logic.rightWindow course.right)
    {turn : WindowJoin.Turn}
    (turn_eq : WindowJoin.Turn.ofArrivals state (world.output plan.combine.id).queue.head?
      (world.output plan.right.id).queue.head? = turn) {sent : List Tuple}
    (sent_eq : (turn.results plan.logic.condition plan.join.schema).toOption.getD [] = sent)
    {after : World}
    (sends : World.Sends plan.join.id [plan.combine.id, plan.right.id] (turn.markers ++ sent)
      (.join turn.join) world after) :
    ∃ next, plan.Shows after next ∧ course.Leads next := by
  have split_queue (queue : List Tuple) : queue.head?.toList ++ queue.tail = queue := by
    cases queue <;> rfl
  have left_waiting : course.left.waiting =
      (world.output plan.combine.id).queue.head?.toList ++
        ((world.output plan.combine.id).queue.tail ++ (world.output plan.left.id).queue) := by
    rw [← List.append_assoc, split_queue, shows_course.left_waiting]
  have right_waiting : course.right.waiting =
      (world.output plan.right.id).queue.head?.toList ++
        (world.output plan.right.id).queue.tail := by
    rw [split_queue, shows_course.right_waiting]
  obtain ⟨left, right, leads, data, left_receives, right_receives⟩ := sound.receive left_follows
    right_follows left_waiting right_waiting turn_eq sent_eq
  have left_kept := sends.others _ places.left_ne_join
    (by simpa using ⟨places.left_ne_combine, places.left_ne_right⟩)
  have right_taken := sends.inputs plan.right.id (by simp)
  have combine_taken := sends.inputs plan.combine.id (by simp)
  have left_fed := shows_course.left.frame (sends.memories _ places.left_ne_join)
    (by rw [left_kept]) (by rw [left_kept])
  have right_fed := shows_course.right.frame (sends.memories _ places.right_ne_join)
    (by rw [right_taken]) (by rw [right_taken])
  refine ⟨_, ?_, leads⟩
  exact {
    left := left_fed.of_eq left_receives.arriving_eq left_receives.backup_eq
    right := right_fed.of_eq right_receives.arriving_eq right_receives.backup_eq
    passed := by
      rw [left_kept, left_receives.passed_eq]
      exact shows_course.passed
    stateless := (sends.memories _ places.combine_ne_join).trans shows_course.stateless
    left_waiting := by rw [combine_taken, left_kept, left_receives.waiting_eq]
    right_waiting := by rw [right_taken, right_receives.waiting_eq]
    join := ⟨_, sends.memory, left_receives.follows, right_receives.follows⟩
    joined := by
      rw [sends.self, Channel.enqueueAll_queue, dataOf_append, shows_course.joined, dataOf_append,
        ← turn_eq, WindowJoin.Turn.dataOf_markers, List.nil_append, data]
    mean := by
      rw [sends.memories _ places.join_ne_mean.symm]
      exact shows_course.mean }

/-- The join takes the oldest tuple of each side that has one. -/
theorem evaluate_joining (shows_course : plan.Shows world course) (places : plan.HasPlaces)
    (sound : course.IsSound) :
    ∃ after, plan.Shows (world.evaluate role plan.joining).1 after ∧ course.Leads after ∧
      ∀ step, (world.evaluate role plan.joining).2 = .ok step → step.isSignal = false := by
  have left_ne : plan.matching.id ≠ plan.join.id := places.combine_ne_join
  have right_ne : plan.rightStream.id ≠ plan.join.id := places.right_ne_join
  have apart : plan.matching.id ≠ plan.rightStream.id := places.combine_ne_right
  by_cases waits : (world.output plan.combine.id).queue ≠ [] ∨
    (world.output plan.right.id).queue ≠ []
  · obtain ⟨state, remembered, left_follows, right_follows⟩ := shows_course.join
    obtain ⟨sends, quiet, _⟩ :=
      World.evaluate_join role plan.logic remembered left_ne right_ne apart rfl waits
    obtain ⟨next, shows_next, leads⟩ :=
      shows_course.of_join places sound left_follows right_follows rfl rfl sends
    exact ⟨next, shows_next, leads, quiet⟩
  · rw [not_or, not_not, not_not] at waits
    have idle : world.evaluate role plan.joining = (world, .ok .idle) :=
      World.evaluateJoin_of_nil waits.1 waits.2
    rw [idle]
    exact ⟨course, shows_course, sound.refl, by rintro step ⟨⟩; rfl⟩

/-! ## The mean -/

/-- The mean takes what waits, and remembers the beginning of its next window. -/
theorem of_mean (shows_course : plan.Shows world course) (places : plan.HasPlaces) {tuple : Tuple}
    {rest sent done begun : List Tuple} (waits : (world.output plan.join.id).queue = tuple :: rest)
    {aggregation : Aggregation} {buffer : RowBuffer}
    (synopsis_eq : aggregation.synopsis = .rows buffer) (closed : aggregation.pendingCommit = false)
    (gathers : buffer.Gathers plan.window begun) {after : World}
    (sends : World.Sends plan.mean.id [plan.join.id] sent (.aggregate aggregation) world after) :
    plan.Shows after { course with done, begun, joined := dataOf rest } := by
  have others {id : Nat} (different : id ≠ plan.mean.id) (apart : id ≠ plan.join.id) :=
    sends.others id different (by simpa using apart)
  have left_kept := others places.left_ne_mean places.left_ne_join
  have right_kept := others places.right_ne_mean places.right_ne_join
  exact {
    left := shows_course.left.frame (sends.memories _ places.left_ne_mean) (by rw [left_kept])
      (by rw [left_kept])
    right := shows_course.right.frame (sends.memories _ places.right_ne_mean) (by rw [right_kept])
      (by rw [right_kept])
    passed := by
      rw [left_kept]
      exact shows_course.passed
    stateless := (sends.memories _ places.combine_ne_mean).trans shows_course.stateless
    left_waiting := by
      rw [others places.combine_ne_mean places.combine_ne_join, left_kept,
        shows_course.left_waiting]
    right_waiting := by rw [right_kept, shows_course.right_waiting]
    join := by
      rw [sends.memories _ places.join_ne_mean]
      exact shows_course.join
    joined := by rw [sends.inputs _ (List.mem_singleton_self _), waits, List.tail_cons]
    mean := ⟨_, _, sends.memory, synopsis_eq, closed, gathers⟩ }

/-- The mark of a window that moves by its width is at most one moment after one of its tuples. -/
theorem exists_mark_le {buffer : RowBuffer} {window : Window} (gathers : buffer.Gathers window [])
    (full : buffer.tuples.length = window.width) :
    ∃ tuple ∈ buffer.contents.tuples, buffer.contents.mark ≤ tuple.lowWater + 1 := by
  have filled : 0 < buffer.tuples.length := full ▸ window.width_pos
  obtain ⟨newest, newest_mem, mark_eq, _⟩ :=
    RowBuffer.mark_of_length_le_stride filled (Nat.le_of_eq (full.trans gathers.stride_eq.symm))
  obtain ⟨tuple, member, rfl⟩ := List.mem_map.mp newest_mem
  exact ⟨tuple, member, mark_eq.trans_le (Int.min_le_left _ _)⟩

/-- What becomes of a course when the mean is evaluated. -/
structure Means (plan : Confluence) (world : World) (course : Course)
    (outcome : World × Except OperatorError Step) (after : Course) (sent : List Tuple) : Prop where
  shows_after : plan.Shows outcome.1 after
  sent_eq : (outcome.1.output plan.mean.id).queue.drop
    (world.output plan.mean.id).queue.length = sent
  evolves : Evolves course after (world.completedWindows plan.tree) sent outcome.2

/-- The mean takes a tuple of data, and may complete a window with it. -/
theorem evaluate_mean_of_data (shows_course : plan.Shows world course) (places : plan.HasPlaces)
    (sound : course.IsSound) (role_eq : role = .of .optimistic true) {tuple : Tuple}
    {rest : List Tuple} (waits : (world.output plan.join.id).queue = tuple :: rest)
    (is_data : tuple.isEndOfStream = false) :
    ∃ after sent, Means plan world course (world.evaluate role plan.tree) after sent := by
  obtain ⟨aggregation, buffer, remembered, synopsis_eq, closed, gathers⟩ := shows_course.mean
  have different : plan.joining.id ≠ plan.mean.id := places.join_ne_mean
  obtain ⟨sends, evaluated, _⟩ := World.evaluate_aggregate role plan.window
    (.mean plan.index) remembered closed different waits is_data
  have completed : world.completedWindows plan.tree = (aggregation.synopsis.enqueue tuple).2 :=
    World.completedWindows_of_data plan.window (.mean plan.index) remembered closed waits is_data
  have joined_eq := shows_course.joined
  rw [waits, dataOf_cons_of_data is_data] at joined_eq
  have enqueue_eq : aggregation.synopsis.enqueue tuple =
      (.rows (buffer.enqueue tuple).1, (buffer.enqueue tuple).2) := by
    rw [synopsis_eq]
    rfl
  rcases gathers.enqueue tuple with
    ⟨none_reported, remembers⟩ | ⟨reported, tuples_eq, full, remembers⟩
  · obtain ⟨accepted, still_closed, _, step_eq⟩ := Aggregation.accept_of_nil
      (.mean plan.index) plan.mean.schema role ((congrArg Prod.snd enqueue_eq).trans none_reported)
    refine ⟨{ course with begun := course.begun ++ [tuple], joined := dataOf rest }, _,
      shows_course.of_mean places waits (accepted.trans (congrArg Prod.fst enqueue_eq))
        (still_closed.trans closed) remembers sends, sends.sent, ?_⟩
    rw [completed, enqueue_eq, none_reported]
    refine .moves (sound.take joined_eq.symm) fun step is_step => ?_
    cases (evaluated.trans step_eq).symm.trans is_step
    rfl
  · obtain ⟨accepted, still_closed, settles⟩ := Aggregation.accept_of_single
      (.mean plan.index) plan.mean.schema role_eq ((congrArg Prod.snd enqueue_eq).trans reported)
    refine ⟨{ course with
        done := course.done ++ (course.begun ++ [tuple])
        begun := []
        joined := dataOf rest }, _,
      shows_course.of_mean places waits (accepted.trans (congrArg Prod.fst enqueue_eq))
        (still_closed.trans closed) remembers sends, sends.sent, ?_⟩
    rw [completed, enqueue_eq, reported]
    refine .completes (sound.complete joined_eq.symm) ?_ ?_
      (exists_mark_le remembers (tuples_eq ▸ full)) (evaluated ▸ settles)
    · rw [RowBuffer.contents, tuples_eq, ← joined_eq]
      simp
    · rw [RowBuffer.contents, tuples_eq]
      exact List.subset_append_right _ _

/-- The mean takes a tuple, if there is one. -/
theorem evaluate_mean (shows_course : plan.Shows world course) (places : plan.HasPlaces)
    (sound : course.IsSound) (role_eq : role = .of .optimistic true) :
    ∃ after sent, Means plan world course (world.evaluate role plan.tree) after sent := by
  have nothing (no_data : ∀ tuple ∈ (world.output plan.join.id).queue.head?,
      tuple.isEndOfStream = true) : world.completedWindows plan.tree = [] :=
    World.completedWindows_of_no_data no_data
  cases waits : (world.output plan.join.id).queue with
  | nil =>
      have idle : world.evaluate role plan.tree = (world, .ok .idle) :=
        World.evaluate_single_of_nil role _ waits
      rw [idle]
      refine ⟨course, _, shows_course, rfl, ?_⟩
      rw [nothing (by simp [waits])]
      exact .moves sound.refl (by rintro step ⟨⟩; rfl)
  | cons tuple rest =>
      cases is_marker : tuple.isEndOfStream with
      | true =>
          obtain ⟨aggregation, buffer, remembered, synopsis_eq, closed, gathers⟩ :=
            shows_course.mean
          have different : plan.joining.id ≠ plan.mean.id := places.join_ne_mean
          obtain ⟨sends, evaluated, _⟩ := World.evaluate_single_of_marker role
            (.aggregate plan.window (.mean plan.index)) remembered
            ((World.hasPendingCommit_of_memory? remembered).trans closed) different waits is_marker
          have unchanged : { course with joined := dataOf rest } = course := by
            have joined_eq := shows_course.joined
            rw [waits, dataOf_cons_of_marker is_marker] at joined_eq
            rw [joined_eq]
          refine ⟨course, _, unchanged ▸ shows_course.of_mean places waits synopsis_eq closed
            gathers sends, sends.sent, ?_⟩
          rw [nothing (by simp [waits, is_marker])]
          refine .moves sound.refl fun step is_step => ?_
          cases evaluated.symm.trans is_step
          rfl
      | false => exact shows_course.evaluate_mean_of_data role places sound role_eq waits is_marker

end Shows

end Confluence

end StreamQuery
