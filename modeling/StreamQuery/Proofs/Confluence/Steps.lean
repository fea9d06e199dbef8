import StreamQuery.Proofs.Confluence.States

/-!
# Steps of confluences

What actions from outside and the responses of the scheduler make of a course. A commit takes what
comes before its mark from both backups; when the mean starts over, both backups are delivered
again.
-/

namespace StreamQuery

/-- A tuple arrives at the stream. -/
theorem Lane.IsFed.arrive {lane : Lane} {world : World} {id : Nat} (fed : lane.IsFed world id)
    (tuple : Tuple) :
    Lane.IsFed { lane with arriving := lane.arriving ++ [tuple] }
      (world.modifyArrivals id (·.enqueue tuple)) id where
  source := by
    obtain ⟨arrivals, remembered, arriving_eq⟩ := fed.source
    exact ⟨_, World.memory?_modifyArrivals_self _ _ _ remembered,
      congrArg (· ++ [tuple]) arriving_eq⟩
  isProtected := by rw [World.output_modifyArrivals, fed.isProtected]
  backup_eq := by rw [World.output_modifyArrivals, fed.backup_eq]

namespace Confluence

variable {plan : Confluence} {deployment : Deployment} {world after : World} {course : Course}
  {execution : Execution}

namespace Shows

/-! ## Actions -/

/-- What operators remember and what waits for them stays. -/
theorem frame (shows_course : plan.Shows world course) {next : Course}
    (memory_eq : ∀ id, after.memory? id = world.memory? id)
    (queue_eq : ∀ id, id ≠ plan.mean.id → (after.output id).queue = (world.output id).queue)
    (isProtected : ∀ id, id ≠ plan.mean.id →
      (after.output id).isProtected = (world.output id).isProtected)
    (places : plan.HasPlaces) (next_eq : next = { course with
      left := { course.left with backup := (after.output plan.left.id).backup }
      right := { course.right with backup := (after.output plan.right.id).backup } }) :
    plan.Shows after next := by
  subst next_eq
  exact {
    left :=
      { source := by rw [memory_eq]; exact shows_course.left.source
        isProtected := (isProtected _ places.left_ne_mean).trans shows_course.left.isProtected
        backup_eq := rfl }
    right :=
      { source := by rw [memory_eq]; exact shows_course.right.source
        isProtected := (isProtected _ places.right_ne_mean).trans shows_course.right.isProtected
        backup_eq := rfl }
    passed := by
      rw [queue_eq _ places.left_ne_mean]
      exact shows_course.passed
    stateless := (memory_eq _).trans shows_course.stateless
    left_waiting := by
      rw [queue_eq _ places.combine_ne_mean, queue_eq _ places.left_ne_mean,
        shows_course.left_waiting]
    right_waiting := by rw [queue_eq _ places.right_ne_mean, shows_course.right_waiting]
    join := by
      rw [memory_eq]
      exact shows_course.join
    joined := by rw [queue_eq _ places.join_ne_mean, shows_course.joined]
    mean := by
      rw [memory_eq]
      exact shows_course.mean }

theorem of_output_eq (shows_course : plan.Shows world course) (places : plan.HasPlaces)
    (memory_eq : ∀ id, after.memory? id = world.memory? id)
    (output_eq : ∀ id, id ≠ plan.mean.id → after.output id = world.output id) :
    plan.Shows after course := by
  refine shows_course.frame memory_eq (fun id different => by rw [output_eq id different])
    (fun id different => by rw [output_eq id different]) places ?_
  rw [output_eq _ places.left_ne_mean, output_eq _ places.right_ne_mean,
    shows_course.left.backup_eq, shows_course.right.backup_eq]

theorem of_cells_eq (shows_course : plan.Shows world course) (places : plan.HasPlaces)
    (cells_eq : after.cells = world.cells) : plan.Shows after course :=
  shows_course.of_output_eq places (fun id => by rw [World.memory?, World.memory?, cells_eq])
    fun id _ => by rw [World.output, World.output, cells_eq]

theorem collect (shows_course : plan.Shows world course) (places : plan.HasPlaces) :
    plan.Shows (world.modifyOutput plan.mean.id Channel.clear) course :=
  shows_course.of_output_eq places (World.memory?_modifyOutput world plan.mean.id · Channel.clear)
    fun _ different => World.output_modifyCell_of_ne world different _

/-- A tuple that arrives at one of the streams leaves the rest of the confluence alone. -/
theorem arrive (shows_course : plan.Shows world course) {source : Nat} {tuple : Tuple}
    (ne_combine : plan.combine.id ≠ source) (ne_join : plan.join.id ≠ source)
    (ne_mean : plan.mean.id ≠ source) {left_arriving right_arriving : List Tuple}
    (left : Lane.IsFed { course.left with arriving := left_arriving }
      (world.modifyArrivals source (·.enqueue tuple)) plan.left.id)
    (right : Lane.IsFed { course.right with arriving := right_arriving }
      (world.modifyArrivals source (·.enqueue tuple)) plan.right.id) :
    plan.Shows (world.modifyArrivals source (·.enqueue tuple))
      { course with
        left := { course.left with arriving := left_arriving }
        right := { course.right with arriving := right_arriving } } := by
  have memory_of_ne {id : Nat} (different : id ≠ source) :
      (world.modifyArrivals source (·.enqueue tuple)).memory? id = world.memory? id :=
    World.memory?_modifyCell_of_ne world different _
  exact {
    left
    right
    passed := by
      rw [World.output_modifyArrivals]
      exact shows_course.passed
    stateless := (memory_of_ne ne_combine).trans shows_course.stateless
    left_waiting := by simp only [World.output_modifyArrivals, shows_course.left_waiting]
    right_waiting := by rw [World.output_modifyArrivals, shows_course.right_waiting]
    join := by
      rw [memory_of_ne ne_join]
      exact shows_course.join
    joined := by rw [World.output_modifyArrivals, shows_course.joined]
    mean := by
      rw [memory_of_ne ne_mean]
      exact shows_course.mean }

theorem arrive_left (shows_course : plan.Shows world course) (places : plan.HasPlaces)
    (tuple : Tuple) :
    plan.Shows (world.modifyArrivals plan.left.id (·.enqueue tuple))
      { course with left := { course.left with arriving := course.left.arriving ++ [tuple] } } := by
  have right_fed := shows_course.right.frame
    (World.memory?_modifyArrivals_of_ne world _ (·.enqueue tuple) places.left_ne_right.symm)
    (by rw [World.output_modifyArrivals]) (by rw [World.output_modifyArrivals])
  exact shows_course.arrive places.left_ne_combine.symm places.left_ne_join.symm
    places.left_ne_mean.symm (shows_course.left.arrive tuple) right_fed

theorem arrive_right (shows_course : plan.Shows world course) (places : plan.HasPlaces)
    (tuple : Tuple) :
    plan.Shows (world.modifyArrivals plan.right.id (·.enqueue tuple))
      { course with
        right := { course.right with arriving := course.right.arriving ++ [tuple] } } := by
  have left_fed := shows_course.left.frame
    (World.memory?_modifyArrivals_of_ne world _ (·.enqueue tuple) places.left_ne_right)
    (by rw [World.output_modifyArrivals]) (by rw [World.output_modifyArrivals])
  exact shows_course.arrive places.combine_ne_right places.right_ne_join.symm
    places.right_ne_mean.symm left_fed (shows_course.right.arrive tuple)

/-! ## Responses -/

/-- A commit takes what comes before its mark from both backups. -/
theorem commit (shows_course : plan.Shows execution.world course) (runs : plan.RunsIn deployment)
    (mark : Int) :
    plan.Shows (deployment.schedule.commitBefore execution mark).world (course.evict mark) := by
  have evicts (id : Nat) := deployment.schedule.evicts_commitBefore execution mark id
  have backup_eq {id : Nat} (inlet : id = plan.left.id ∨ id = plan.right.id) :
      ((deployment.schedule.commitBefore execution mark).world.output id).backup =
        (execution.world.output id).backup.filter fun tuple => mark ≤ tuple.lowWater := by
    rw [Schedule.output_commitBefore, runs.redo_eq, if_pos (by simpa using inlet)]
    rfl
  refine shows_course.frame (fun id => (evicts id).memory) (fun id _ => (evicts id).queue)
    (fun id _ => (evicts id).isProtected) runs.hasPlaces ?_
  rw [backup_eq (.inl rfl), backup_eq (.inr rfl), shows_course.left.backup_eq,
    shows_course.right.backup_eq]
  rfl

/-- When the mean starts over, both backups are delivered again. -/
theorem redo (shows_course : plan.Shows execution.world course) (runs : plan.RunsIn deployment)
    (sound : course.IsSound) :
    plan.Shows (deployment.schedule.redoArea execution).world course.rewind := by
  have places := runs.hasPlaces
  have output_eq (id : Nat) := deployment.schedule.output_redoArea execution id
  have memory_eq (id : Nat) := deployment.schedule.memory?_redoArea execution id
  simp only [runs.redo_eq, runs.hasCommit.commit?_eq, List.mem_cons, List.not_mem_nil, or_false,
    ne_eq, Option.some.injEq] at output_eq memory_eq
  have left_output : (deployment.schedule.redoArea execution).world.output plan.left.id =
      (execution.world.output plan.left.id).recover := by
    simp [output_eq, places.left_ne_combine, places.left_ne_join, places.left_ne_mean]
  have right_output : (deployment.schedule.redoArea execution).world.output plan.right.id =
      (execution.world.output plan.right.id).recover := by
    simp [output_eq, places.combine_ne_right.symm, places.right_ne_join, places.right_ne_mean]
  have combine_output : (deployment.schedule.redoArea execution).world.output plan.combine.id =
      (execution.world.output plan.combine.id).clear := by
    simp [output_eq, places.left_ne_combine.symm, places.combine_ne_right,
      places.combine_ne_mean.symm]
  have join_output : (deployment.schedule.redoArea execution).world.output plan.join.id =
      (execution.world.output plan.join.id).clear := by
    simp [output_eq, places.left_ne_join.symm, places.right_ne_join.symm, places.join_ne_mean.symm]
  have left_memory : (deployment.schedule.redoArea execution).world.memory? plan.left.id =
      execution.world.memory? plan.left.id := by
    simp [memory_eq, places.left_ne_combine, places.left_ne_join, places.left_ne_mean]
  have right_memory : (deployment.schedule.redoArea execution).world.memory? plan.right.id =
      execution.world.memory? plan.right.id := by
    simp [memory_eq, places.combine_ne_right.symm, places.right_ne_join, places.right_ne_mean]
  obtain ⟨state, joins, left_follows, right_follows⟩ := shows_course.join
  obtain ⟨aggregation, buffer, remembered, synopsis_eq, _, gathers⟩ := shows_course.mean
  exact {
    left := (shows_course.left.frame left_memory (by rw [left_output]; rfl)
      (by rw [left_output]; rfl)).of_eq rfl rfl
    right := (shows_course.right.frame right_memory (by rw [right_output]; rfl)
      (by rw [right_output]; rfl)).of_eq rfl rfl
    passed := by
      rw [left_output]
      change ∀ tuple ∈ (execution.world.output plan.left.id).backup, _
      rw [shows_course.left.backup_eq]
      exact fun tuple member => sound.left.backup.subset member
    stateless := by
      rw [memory_eq, if_pos (.inl rfl), shows_course.stateless]
      rfl
    left_waiting := by
      rw [combine_output, left_output]
      exact shows_course.left.backup_eq
    right_waiting := by
      rw [right_output]
      exact shows_course.right.backup_eq
    join := ⟨state.reset, by rw [memory_eq, if_pos (.inr (.inl rfl)), joins]; rfl,
      left_follows.reset rfl, right_follows.reset rfl⟩
    joined := by
      rw [join_output]
      rfl
    mean := ⟨aggregation.reset, buffer.reset,
      by rw [memory_eq, if_pos (.inr (.inr rfl)), remembered]; rfl,
      congrArg Synopsis.reset synopsis_eq, rfl, gathers.reset⟩ }

/-! ## The start -/

/-- At the start there are no tuples, and both streams are backed up. -/
theorem start (runs : plan.RunsIn deployment) : plan.Shows deployment.start.world {} := by
  have found (operator : QueryTree) (member : operator ∈ deployment.tree.postOrder) :=
    deployment.getElem?_start member
  rw [← deployment.order_eq, runs.order_eq, runs.replaysArea, runs.redo_eq] at found
  have left_found := found plan.leftStream (by simp)
  have combine_found := found plan.matching (by simp)
  have right_found := found plan.rightStream (by simp)
  have join_found := found plan.joining (by simp)
  have mean_found := found plan.tree (by simp)
  have left_output : deployment.start.world.output plan.left.id = { isProtected := true } :=
    (World.output_of_getElem? left_found).trans
      (by simp [Confluence.leftStream, QueryTree.id, QueryTree.header])
  have right_output : deployment.start.world.output plan.right.id = { isProtected := true } :=
    (World.output_of_getElem? right_found).trans
      (by simp [Confluence.rightStream, QueryTree.id, QueryTree.header])
  have combine_queue : (deployment.start.world.output plan.combine.id).queue = [] :=
    congrArg Channel.queue (World.output_of_getElem? combine_found)
  have join_queue : (deployment.start.world.output plan.join.id).queue = [] :=
    congrArg Channel.queue (World.output_of_getElem? join_found)
  exact {
    left := ⟨⟨{}, World.memory?_of_getElem? left_found, rfl⟩, by rw [left_output],
      by rw [left_output]⟩
    right := ⟨⟨{}, World.memory?_of_getElem? right_found, rfl⟩, by rw [right_output],
      by rw [right_output]⟩
    passed := by
      rw [left_output]
      simp
    stateless := World.memory?_of_getElem? combine_found
    left_waiting := by
      rw [left_output, combine_queue]
      rfl
    right_waiting := by rw [right_output]
    join := ⟨_, World.memory?_of_getElem? join_found,
      ⟨_, runs.tumbling.left.ofWindow_eq, RowBuffer.gathers_ofWindow runs.tumbling.left.stride_eq,
        by simp⟩,
      ⟨_, runs.tumbling.right.ofWindow_eq,
        RowBuffer.gathers_ofWindow runs.tumbling.right.stride_eq, by simp⟩⟩
    joined := congrArg dataOf join_queue
    mean := ⟨_, _, World.memory?_of_getElem? mean_found, runs.tumbling.mean.ofWindow_eq, rfl,
      RowBuffer.gathers_ofWindow runs.tumbling.mean.stride_eq⟩ }

end Shows

end Confluence

end StreamQuery
