import StreamQuery.Proofs.Pipeline.AttemptRuns

/-!
# Means that are restarted

Under optimistic control, the mean over windows of time begins with an empty window whenever one of
its windows had mixed versions. Its next window then begins with the first tuple of the backup. If
this one arrives later than the mark of the last commit, all windows after it are other ones than if
the relation had stayed as it was.
-/

namespace StreamQuery

namespace Pipeline

variable {pipeline : Pipeline} {deployment : Deployment} {loading actions : List Action}

/-- Once nothing waits, the mean has taken the match of every input. -/
theorem IsAt.seen_eq {shown : Snapshot → Prop} {world : World} {stage : Stage}
    (is_at : pipeline.IsAt world stage)
    (waiting : List.Forall₂ (pipeline.Matches shown) stage.called (dataOf stage.waiting))
    (drained : pipeline.IsDrained world) : stage.seen = stage.inputs := by
  obtain ⟨arrivals, remembered, arriving⟩ := is_at.source
  have nothing_arriving : stage.arriving = [] := by
    obtain ⟨cell, cell_found, memory_eq⟩ := Option.map_eq_some_iff.mp remembered
    rw [← arriving, drained.arrivals arrivals]
    simp [World.arrivals?, cell_found, memory_eq, Memory.arrivals?]
  have nothing_passed : stage.passed = [] :=
    (congrArg Channel.queue is_at.passed).symm.trans drained.passed
  have nothing_called : stage.called = [] := by
    rw [is_at.waiting.symm.trans drained.matched, dataOf_nil] at waiting
    exact List.forall₂_nil_right_iff.mp waiting
  simp [Stage.inputs, Stage.passedOn, nothing_arriving, nothing_passed, nothing_called]

/-- What comes of the attempts of a run, of which all but the last one have ended. -/
structure AttemptsOf (pipeline : Pipeline) (deployment : Deployment)
    (loading actions : List Action) (ended : List Attempt) (current : Attempt) : Prop where
  /-- An attempt ends before it has committed all windows that are complete, and leaves its inputs
  from the mark of its last commit on to the next one. -/
  retries : pipeline.window.Retries (pipeline.inputs actions) ended current.inputs
  keeps : pipeline.window.Keeps current.inputs current.windows current.left
  /-- The scheduler has counted the attempts that have ended. -/
  counted : (deployment.run (loading ++ actions)).metrics.redoCount = ended.length
  /-- The results are the means over the windows of all attempts, in order, each computed from one
  version of the relation. -/
  means : List.Forall₂
    (fun window result =>
      pipeline.IsMeanOf (pipeline.Shown deployment loading actions) window.tuples result)
    ((ended ++ [current]).flatMap Attempt.windows)
    (dataOf (deployment.sentBy pipeline.mean.id (loading ++ actions)))
  /-- Once nothing waits, the last attempt has committed all windows that are complete. -/
  finished : pipeline.IsDrained (deployment.run (loading ++ actions)).world →
    current.windows = pipeline.window.contentsOf current.inputs
  /-- If nothing was committed before, the windows are the first ones that the inputs complete. -/
  undisturbed : (∀ attempt ∈ ended, attempt.windows = []) →
    (ended ++ [current]).flatMap Attempt.windows <+:
      pipeline.window.contentsOf (pipeline.inputs actions)
  /-- They still are if each attempt leaves an input that arrives at the mark itself. -/
  aligned : (∀ input ∈ pipeline.inputs actions, input.arrival.natAbs ≤ 2 ^ 61) →
    (∀ attempt ∈ ended, attempt.IsAligned) →
    (ended ++ [current]).flatMap Attempt.windows <+:
      pipeline.window.contentsOf (pipeline.inputs actions)

theorem Feeds.areTimely {inputs : List Tuple} (feeds : pipeline.Feeds inputs)
    (near : ∀ input ∈ inputs, input.arrival.natAbs ≤ 2 ^ 61) : AreTimely inputs where
  near := near
  increasing := List.pairwise_map.mp feeds.increasing
  exact_marks _ member := (feeds.spec member).2.1

/-- If inputs arrive at the marks of all windows, and windows leave no gap, each attempt goes on at
the mark of the last commit. -/
theorem AttemptsOf.isAligned {ended : List Attempt} {current : Attempt}
    (attempts : pipeline.AttemptsOf deployment loading actions ended current)
    (spans : pipeline.window.kind = .time)
    (stride_le : pipeline.window.stride ≤ pipeline.window.width)
    (feeds : pipeline.Feeds (pipeline.inputs actions))
    (near : ∀ input ∈ pipeline.inputs actions, input.arrival.natAbs ≤ 2 ^ 61)
    (meets : pipeline.window.MeetsMarks (pipeline.inputs actions)) :
    ∀ attempt ∈ ended, attempt.IsAligned :=
  (attempts.retries.isAligned_of_meetsMarks spans stride_le (feeds.areTimely near) meets).1

end Pipeline

/-- Under optimistic control, the windows that a mean over windows of time has sent results for are
those of its attempts, one attempt after the other. As long as each attempt begins with an input
that arrives at the mark of the last window that was committed before, they are the first windows
that the inputs complete, however often the relation is updated. -/
theorem optimistic_means_of_attempts (deployment : Deployment) {pipeline : Pipeline}
    (plan : pipeline.IsPlanOf deployment) (mode : deployment.config.mode = .optimistic)
    (spans : pipeline.window.kind = .time) {loading actions : List Action}
    (changes : ∀ action ∈ loading, action.ChangesRelations)
    (allowed : ∀ action ∈ actions, pipeline.Allows action)
    (feeds : pipeline.Feeds (pipeline.inputs actions))
    (served : pipeline.IsServed deployment loading actions) :
    ∃ ended current, pipeline.AttemptsOf deployment loading actions ended current := by
  obtain ⟨ended, stage, is_at, retries, counted⟩ :=
    Pipeline.isRecorded_of_run plan mode spans changes allowed feeds served List.prefix_rfl
  let current : Attempt :=
    { inputs := stage.inputs
      windows := pipeline.window.contentsOf stage.seen
      left := dataOf stage.kept ++ dataOf stage.arriving }
  have windows_eq : (ended ++ [current]).flatMap Attempt.windows =
      ended.flatMap Attempt.windows ++ pipeline.window.contentsOf stage.seen := by
    rw [List.flatMap_append, List.flatMap_singleton]
  have keeps : pipeline.window.Keeps current.inputs current.windows current.left :=
    retries.keeps.append _
  refine ⟨ended, current,
    { retries := retries.retries
      keeps := keeps
      counted := counted
      means := windows_eq ▸ retries.means
      finished := fun drained =>
        congrArg pipeline.window.contentsOf (is_at.seen_eq retries.waiting drained)
      undisturbed := fun uncommitted => ?_
      aligned := fun near aligned => ?_ }⟩
  · have nothing_before : ended.flatMap Attempt.windows = [] :=
      List.flatMap_eq_nil_iff.mpr uncommitted
    rw [windows_eq, nothing_before, List.nil_append, ← retries.retries.current_eq uncommitted]
    exact keeps.windows_prefix
  · exact retries.retries.windows_prefix keeps spans (feeds.areTimely near) aligned

/-- Means over the sales of two units of time. -/
def spanOptimistic : Deployment :=
  (Deployment.ofDeclarations? (pricedDeclarations (.time 2 2)) "mean" (.ofMode .optimistic)).get
    (by decide)

/-- The operators of the means over spans. -/
def spanPipeline : Pipeline :=
  { slidingPipeline with window := .time 2 2 }

/-- Two sales, and three more after the prices were updated without a change. -/
def gappedActions : List Action :=
  [.arrive 0 (.ofInts goodsSchema [1] 0), .arrive 0 (.ofInts goodsSchema [1] 3)] ++
    List.replicate 6 .wakeUp ++
    [.update 0 id, .arrive 0 (.ofInts goodsSchema [1] 4), .arrive 0 (.ofInts goodsSchema [1] 5),
      .arrive 0 (.ofInts goodsSchema [1] 6)] ++
    List.replicate 21 .wakeUp

theorem gappedActions_allowed : ∀ action ∈ gappedActions, spanPipeline.Allows action := by
  decide

theorem gappedActions_feed : spanPipeline.Feeds (spanPipeline.inputs gappedActions) :=
  spanPipeline.feeds_sales [0, 3, 4, 5, 6] rfl (by decide) (by decide)

set_option maxRecDepth 10000 in
theorem gappedActions_served :
    spanPipeline.IsServed spanOptimistic slidingLoading gappedActions := by
  decide +kernel

/-- Three sales, and two more after the prices were updated without a change, one at each mark. -/
def steadyActions : List Action :=
  [0, 2, 4].map (fun time => .arrive 0 (.ofInts goodsSchema [1] time)) ++
    List.replicate 6 .wakeUp ++
    .update 0 id :: [6, 8].map (fun time => .arrive 0 (.ofInts goodsSchema [1] time)) ++
    List.replicate 21 .wakeUp

theorem steadyActions_feed : spanPipeline.Feeds (spanPipeline.inputs steadyActions) :=
  spanPipeline.feeds_sales [0, 2, 4, 6, 8] rfl (by decide) (by decide)

set_option maxRecDepth 10000 in
theorem steadyActions_served :
    spanPipeline.IsServed spanOptimistic slidingLoading steadyActions := by
  decide +kernel

theorem steadyActions_meetMarks :
    spanPipeline.window.MeetsMarks (spanPipeline.inputs steadyActions) := by
  decide +kernel

set_option maxRecDepth 10000 in
/-- In both runs the first window is committed up to the mark 2, and the second one is given up.
What is left then begins at 3 if no sale arrives at the mark, and the next windows are other ones.
If one does, they stay as they were. -/
theorem spanOptimistic_means_of_attempts :
    (spanPipeline.IsPlanOf spanOptimistic ∧ spanOptimistic.config.mode = .optimistic ∧
      spanPipeline.window.kind = .time ∧
      (∀ action ∈ slidingLoading, action.ChangesRelations) ∧
      (∀ action ∈ gappedActions, spanPipeline.Allows action) ∧
      spanPipeline.Feeds (spanPipeline.inputs gappedActions) ∧
      spanPipeline.IsServed spanOptimistic slidingLoading gappedActions ∧
      (spanOptimistic.run (slidingLoading ++ gappedActions)).metrics.redoCount = 1 ∧
      (dataOf (spanOptimistic.sentBy 2 (slidingLoading ++ gappedActions))).map
        (·.stamps.entries) = [[(0, 0)], [(0, 1)]]) ∧
      (∃ ended current,
        spanPipeline.AttemptsOf spanOptimistic slidingLoading gappedActions ended current) ∧
      (∀ action ∈ steadyActions, spanPipeline.Allows action) ∧
      spanPipeline.Feeds (spanPipeline.inputs steadyActions) ∧
      spanPipeline.IsServed spanOptimistic slidingLoading steadyActions ∧
      (dataOf (spanOptimistic.sentBy 2 (slidingLoading ++ steadyActions))).map
        (·.stamps.entries) = [[(0, 0)], [(0, 1)], [(0, 1)]] ∧
      ∃ ended current,
        spanPipeline.AttemptsOf spanOptimistic slidingLoading steadyActions ended current ∧
          ended.length = 1 ∧ (∀ attempt ∈ ended, attempt.IsAligned) ∧
          (ended ++ [current]).flatMap Attempt.windows <+:
            spanPipeline.window.contentsOf (spanPipeline.inputs steadyActions) := by
  have plan : spanPipeline.IsPlanOf spanOptimistic := rfl
  have changes : ∀ action ∈ slidingLoading, action.ChangesRelations :=
    List.forall_mem_singleton.mpr trivial
  have steady_allowed : ∀ action ∈ steadyActions, spanPipeline.Allows action := by decide
  have near : ∀ input ∈ spanPipeline.inputs steadyActions, input.arrival.natAbs ≤ 2 ^ 61 := by
    decide
  have redone : (spanOptimistic.run (slidingLoading ++ steadyActions)).metrics.redoCount = 1 := by
    decide +kernel
  obtain ⟨ended, current, attempts⟩ := optimistic_means_of_attempts spanOptimistic plan rfl rfl
    changes steady_allowed steadyActions_feed steadyActions_served
  have aligned :=
    attempts.isAligned rfl (by decide) steadyActions_feed near steadyActions_meetMarks
  exact ⟨⟨plan, rfl, rfl, changes, gappedActions_allowed, gappedActions_feed, gappedActions_served,
      by decide +kernel, by decide +kernel⟩,
    optimistic_means_of_attempts spanOptimistic plan rfl rfl changes gappedActions_allowed
      gappedActions_feed gappedActions_served,
    steady_allowed, steadyActions_feed, steadyActions_served, by decide +kernel,
    ended, current, attempts, attempts.counted.symm.trans redone, aligned,
    attempts.aligned near aligned⟩

/-- An action that changes the rows of no relation. -/
def Action.FixesRows : Action → Prop
  | .load _ _ => False
  | .update _ change => change = id
  | _ => True

theorem gappedActions_fixRows : ∀ action ∈ gappedActions, action.FixesRows := by
  intro action member
  simp only [gappedActions, List.mem_append, List.mem_cons, List.not_mem_nil, or_false,
    List.mem_replicate] at member
  rcases member with (((rfl | rfl) | ⟨-, rfl⟩) | rfl | rfl | rfl | rfl) | ⟨-, rfl⟩ <;>
    first | rfl | trivial

set_option maxRecDepth 10000 in
/-- Updates that leave the rows as they are can change the windows: the second window ends with the
sale at 4, but if it is given up, the window that takes its place ends with the sale at 5. -/
theorem span_windows_disturbed :
    ¬∀ (deployment : Deployment) (pipeline : Pipeline) (loading actions : List Action),
      pipeline.IsPlanOf deployment → deployment.config.mode = .optimistic →
      pipeline.window.kind = .time → (∀ action ∈ loading, action.ChangesRelations) →
      (∀ action ∈ actions, pipeline.Allows action) → (∀ action ∈ actions, action.FixesRows) →
      pipeline.Feeds (pipeline.inputs actions) →
      pipeline.IsServed deployment loading actions →
      (dataOf (deployment.sentBy pipeline.mean.id (loading ++ actions))).map Tuple.arrival <+:
        (dataOf (deployment.sentBy pipeline.mean.id (loading ++
          actions.filter (·.Spares pipeline.reference.place)))).map Tuple.arrival := by
  intro claim
  have disturbed : (dataOf (spanOptimistic.sentBy 2 (slidingLoading ++ gappedActions))).map
      Tuple.arrival = [0, 5] := by
    decide +kernel
  have undisturbed : (dataOf (spanOptimistic.sentBy 2 (slidingLoading ++
      gappedActions.filter (·.Spares 0)))).map Tuple.arrival = [0, 4] := by
    decide +kernel
  have is_prefix := claim spanOptimistic spanPipeline slidingLoading gappedActions rfl rfl rfl
    (List.forall_mem_singleton.mpr trivial) gappedActions_allowed gappedActions_fixRows
    gappedActions_feed gappedActions_served
  change (dataOf (spanOptimistic.sentBy 2 (slidingLoading ++ gappedActions))).map Tuple.arrival <+:
    (dataOf (spanOptimistic.sentBy 2 (slidingLoading ++
      gappedActions.filter (·.Spares 0)))).map Tuple.arrival at is_prefix
  rw [disturbed, undisturbed] at is_prefix
  exact absurd is_prefix (by decide)

end StreamQuery
