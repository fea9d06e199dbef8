import StreamQuery.Proofs.Pipeline.SegmentRuns
import StreamQuery.Proofs.SlidingMeans

/-!
# Means by transactions

A mean over a matched stream, with windows of either kind, while the relation stays as it is.
Without control the results are those of one segment. Under control that prevents conflicts each
transaction begins with an empty window at the tuple that waits when the one before ends: windows
that reach from one transaction into the next are not computed.
-/

namespace StreamQuery

namespace Pipeline

/-- Nothing waits for any operator of a pipeline. -/
structure IsDrained (pipeline : Pipeline) (world : World) : Prop where
  /-- The stream has passed everything on. -/
  arrivals : ∀ arrivals ∈ world.arrivals? pipeline.source.id, arrivals.queue = []
  /-- The match has taken everything. -/
  passed : (world.output pipeline.source.id).queue = []
  /-- The mean has taken everything. -/
  matched : (world.output pipeline.combine.id).queue = []

instance (pipeline : Pipeline) (world : World) : Decidable (pipeline.IsDrained world) :=
  decidable_of_iff
    ((∀ arrivals ∈ world.arrivals? pipeline.source.id, arrivals.queue = []) ∧
      (world.output pipeline.source.id).queue = [] ∧
      (world.output pipeline.combine.id).queue = [])
    ⟨fun ⟨arrivals, passed, matched⟩ => ⟨arrivals, passed, matched⟩,
      fun drained => ⟨drained.arrivals, drained.passed, drained.matched⟩⟩

/-- Once nothing waits, the mean has taken the match of every tuple. -/
theorem WorksOn.taken_eq {pipeline : Pipeline} {snapshot : Snapshot} {world : World}
    {segment : Segment} (works : pipeline.WorksOn snapshot world segment)
    (once : ∀ input ∈ dataOf segment.tuples, pipeline.AnswersOnce snapshot input)
    (drained : pipeline.IsDrained world) : segment.taken = segment.tuples := by
  obtain ⟨arrivals, remembered, arriving⟩ := works.source
  have nothing_arriving : segment.arriving = [] := by
    obtain ⟨cell, cell_found, memory_eq⟩ := Option.map_eq_some_iff.mp remembered
    rw [← arriving, drained.arrivals arrivals]
    simp [World.arrivals?, cell_found, memory_eq, Memory.arrivals?]
  have nothing_passed : segment.passed = [] := works.passed.symm.trans drained.passed
  have nothing_matched : segment.matched = [] := by
    have nothing := works.matched.symm.trans drained.matched
    cases waits : segment.matched with
    | nil => rfl
    | cons tuple rest =>
        have waiting : tuple ∈ segment.tuples := by simp [Segment.tuples, waits]
        have single := length_sends once waiting
        rw [waits, List.flatMap_cons] at nothing
        rw [(List.append_eq_nil_iff.mp nothing).1] at single
        cases single
  rw [Segment.tuples, nothing_matched, nothing_passed, nothing_arriving, List.append_nil,
    List.append_nil, List.append_nil]

end Pipeline

/-- While the relation stays as it is and each input has one match, and each arrival is later than
the one before, a closing marker included, the arrivals that a mean has taken account of are divided
into transactions, one after the other, and the results are those of each transaction by itself, as
if the mean had begun with it. Without control there is only one. A transaction ends with the tuple
by which it makes the last of its commits, whichever windows are then open. Once nothing waits any
more, no arrival is left out. -/
theorem means_by_transactions (deployment : Deployment) {pipeline : Pipeline}
    (plan : pipeline.IsPlanOf deployment) (mode : deployment.config.mode ≠ .optimistic)
    {loading actions : List Action} (changes : ∀ action ∈ loading, action.ChangesRelations)
    (allowed : ∀ action ∈ actions, pipeline.Allows action)
    (spared : ∀ action ∈ actions, action.Spares pipeline.reference.place) {relation : Relation}
    (found : (deployment.run loading).world.relation? pipeline.reference.place = some relation)
    (streams : pipeline.Streams (arrivalsAt pipeline.source.id actions))
    (serves : pipeline.Serves (pipeline.inputs actions) relation) :
    ∃ ended current,
      ended.flatten ++ current <+: arrivalsAt pipeline.source.id actions ∧
        (pipeline.IsDrained (deployment.run (loading ++ actions)).world →
          ended.flatten ++ current = arrivalsAt pipeline.source.id actions) ∧
        pipeline.IsDivided deployment.config.mode deployment.config.jointCount relation.snapshot
          ended current ∧
        dataOf (deployment.sentBy pipeline.mean.id (loading ++ actions)) =
          (ended ++ [current]).flatMap (pipeline.means relation.snapshot) := by
  have supplies : pipeline.Supplies relation.snapshot
      (arrivalsAt pipeline.source.id actions) :=
    ⟨streams.ordered, Pipeline.answersOnce_of_serves plan found streams.feeds serves⟩
  obtain ⟨ended, segment, reaches⟩ :=
    Pipeline.segmented_of_run plan mode changes allowed spared found supplies
  refine ⟨ended, segment.taken, ?_, fun drained => ?_, reaches.divided, reaches.results_eq⟩
  · rw [← reaches.arrived_eq, List.prefix_append_right_inj, Pipeline.Segment.tuples,
      List.append_assoc, List.append_assoc]
    exact List.prefix_append _ _
  · rw [reaches.works.taken_eq (supplies.sublist reaches.tuples_sublist).once drained,
      reaches.arrived_eq]

/-- The prices of sales are averaged over pairs of neighbours, and locked for each. -/
def slidingLocked : Deployment :=
  (Deployment.ofDeclarations? (pricedDeclarations (.rows 2 1)) "mean"
    (.ofChoices (some .twoPhaseLocking) (some 1) none none)).get (by decide)

/-- The same plan without control. -/
def slidingFree : Deployment :=
  (Deployment.ofDeclarations? (pricedDeclarations (.rows 2 1)) "mean"
    (.ofChoices (some .uncontrolled) none none none)).get (by decide)

theorem fourSales_streams :
    slidingPipeline.Streams (arrivalsAt slidingPipeline.source.id fourSales) where
  feeds := slidingPipeline.feeds_sales [0, 1, 2, 3] rfl (by decide) (by decide)
  ordered := by decide

/-- The prices after they were loaded. -/
def loadedPrices : Relation where
  id := 0
  name := "prices"
  schema := priceSchema
  rows := [.ofInts priceSchema [1, 10] 0]

theorem fourSales_serves :
    slidingPipeline.Serves (slidingPipeline.inputs fourSales) loadedPrices := by
  decide +kernel

set_option maxRecDepth 10000 in
/-- The two transactions are the first two sales and the last two. -/
theorem slidingLocked_means_by_transactions :
    slidingPipeline.IsPlanOf slidingLocked ∧
      slidingLocked.config.mode ≠ .optimistic ∧
      (∀ action ∈ slidingLoading, action.ChangesRelations) ∧
      (∀ action ∈ fourSales, slidingPipeline.Allows action) ∧
      (∀ action ∈ fourSales, action.Spares slidingPipeline.reference.place) ∧
      (slidingLocked.run slidingLoading).world.relation? slidingPipeline.reference.place =
        some loadedPrices ∧
      slidingPipeline.Streams (arrivalsAt slidingPipeline.source.id fourSales) ∧
      slidingPipeline.Serves (slidingPipeline.inputs fourSales) loadedPrices ∧
      slidingPipeline.IsDrained (slidingLocked.run (slidingLoading ++ fourSales)).world ∧
      (slidingLocked.run (slidingLoading ++ fourSales)).metrics.afterCommits = 1 ∧
      ∃ ended current,
        ended.flatten ++ current <+: arrivalsAt slidingPipeline.source.id fourSales ∧
          (slidingPipeline.IsDrained (slidingLocked.run (slidingLoading ++ fourSales)).world →
            ended.flatten ++ current = arrivalsAt slidingPipeline.source.id fourSales) ∧
          slidingPipeline.IsDivided slidingLocked.config.mode slidingLocked.config.jointCount
            loadedPrices.snapshot ended current ∧
          dataOf (slidingLocked.sentBy slidingPipeline.mean.id (slidingLoading ++ fourSales)) =
            (ended ++ [current]).flatMap (slidingPipeline.means loadedPrices.snapshot) := by
  have changes : ∀ action ∈ slidingLoading, action.ChangesRelations := by decide
  have allowed : ∀ action ∈ fourSales, slidingPipeline.Allows action := by decide
  have spared : ∀ action ∈ fourSales, action.Spares slidingPipeline.reference.place := by decide
  have found : (slidingLocked.run slidingLoading).world.relation?
      slidingPipeline.reference.place = some loadedPrices := rfl
  have drained : slidingPipeline.IsDrained
      (slidingLocked.run (slidingLoading ++ fourSales)).world := by decide +kernel
  have plan : slidingPipeline.IsPlanOf slidingLocked := rfl
  exact ⟨plan, by decide, changes, allowed, spared, found, fourSales_streams, fourSales_serves,
    drained, by decide +kernel,
    means_by_transactions slidingLocked plan (by decide) changes allowed spared found
      fourSales_streams fourSales_serves⟩

set_option maxRecDepth 10000 in
/-- Without control there is a mean of each pair of neighbours. Under two-phase locking the second
one is left out, because the transaction of the first pair has ended with it. -/
theorem slidingLocked_means_left_out :
    slidingPipeline.IsPlanOf slidingLocked ∧ slidingPipeline.IsPlanOf slidingFree ∧
      slidingLocked.config.mode = .twoPhaseLocking ∧ slidingFree.config.mode = .uncontrolled ∧
      slidingPipeline.window.kind = .rows ∧
      slidingPipeline.window.stride < slidingPipeline.window.width ∧
      (∀ action ∈ slidingLoading, action.ChangesRelations) ∧
      (∀ action ∈ fourSales, slidingPipeline.Allows action) ∧
      (∀ action ∈ fourSales, action.Spares slidingPipeline.reference.place) ∧
      (slidingLocked.run slidingLoading).world.relation? slidingPipeline.reference.place =
        some loadedPrices ∧
      slidingPipeline.Streams (arrivalsAt slidingPipeline.source.id fourSales) ∧
      slidingPipeline.Serves (slidingPipeline.inputs fourSales) loadedPrices ∧
      (dataOf (slidingLocked.sentBy slidingPipeline.mean.id
        (slidingLoading ++ fourSales))).map Tuple.arrival = [1, 3] ∧
      (dataOf (slidingFree.sentBy slidingPipeline.mean.id
        (slidingLoading ++ fourSales))).map Tuple.arrival = [1, 2, 3] ∧
      ¬dataOf (slidingLocked.sentBy slidingPipeline.mean.id (slidingLoading ++ fourSales)) <+:
        dataOf (slidingFree.sentBy slidingPipeline.mean.id (slidingLoading ++ fourSales)) := by
  have locked_times : (dataOf (slidingLocked.sentBy slidingPipeline.mean.id
      (slidingLoading ++ fourSales))).map Tuple.arrival = [1, 3] := by decide +kernel
  have free_times : (dataOf (slidingFree.sentBy slidingPipeline.mean.id
      (slidingLoading ++ fourSales))).map Tuple.arrival = [1, 2, 3] := by decide +kernel
  refine ⟨rfl, rfl, rfl, rfl, rfl, by decide, by decide, by decide, by decide, rfl,
    fourSales_streams, fourSales_serves, locked_times, free_times, fun is_first => ?_⟩
  have times_first := is_first.map Tuple.arrival
  rw [locked_times, free_times] at times_first
  revert times_first
  decide

end StreamQuery
