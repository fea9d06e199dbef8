import StreamQuery.Proofs.Pipeline.HistoryRuns

/-!
# Means over sliding windows

Under optimistic control, the means over the windows of a stream that is matched with a relation are
sent in order, each once and none left out, and each is computed from a single version of the
relation, no matter when the relation is updated and how often windows are redone.
-/

namespace StreamQuery

namespace Pipeline

variable {pipeline : Pipeline} {deployment : Deployment} {loading actions : List Action}

/-! ## Slides -/

/-- A pipeline that has sent the results of the first windows, in order. -/
structure Slides (pipeline : Pipeline) (shown : Snapshot → Prop) (arrived results : List Tuple)
    (line : Line) : Prop where
  /-- As many windows are behind it as results were sent. -/
  progress : line.Progress pipeline.window (pipeline.Matches shown) (dataOf arrived) results.length
  /-- The results are those of the windows, in order. -/
  is_result : ∀ number result, results[number]? = some result →
    pipeline.IsResult shown (dataOf arrived) number result

namespace Slides

variable {shown : Snapshot → Prop} {arrived results : List Tuple} {line : Line}
  {relation : Relation}

/-- What arrives waits for the stream. -/
theorem arrive (slides : pipeline.Slides shown arrived results line) {tuple : Tuple}
    (feeds : pipeline.Feeds (dataOf (arrived ++ [tuple]))) :
    pipeline.Slides shown (arrived ++ [tuple]) results
      { line with arrivals := line.arrivals ++ [tuple] } := by
  refine ⟨?_, fun number result found => ?_⟩
  · have progress := slides.progress
    cases is_marker : tuple.isEndOfStream with
    | true =>
        rw [dataOf_append_of_marker _ is_marker]
        exact progress.arrive_marker is_marker
    | false =>
        rw [dataOf_append, dataOf_cons_of_data is_marker, dataOf_nil] at feeds ⊢
        exact progress.arrive_data is_marker feeds.lowWater_increasing
          (feeds.lowWater_le (List.mem_append_right _ List.mem_cons_self))
  · rw [dataOf_append]
    exact (slides.is_result number result found).mono (fun _ is_shown => is_shown) _

/-- A consistent window is committed, and its mean is its result. -/
theorem commit (slides : pipeline.Slides shown arrived results line)
    (runs : pipeline.RunsIn deployment)
    (setting : pipeline.Setting shown (dataOf arrived) relation) {tuple : Tuple}
    {rest : List Tuple}
    (fills : line.Fills pipeline.window (pipeline.Matches shown) (dataOf arrived) results.length
      rest (line.buffer.enqueue tuple).1)
    (consistent : (line.buffer.enqueue tuple).1.contents.isConsistent = true) :
    ∃ result, (AggregateFunction.mean pipeline.index).apply pipeline.mean.schema
        (line.buffer.enqueue tuple).1.contents = .ok result ∧
      pipeline.Slides shown arrived (results ++ [result])
        { line with
          passed := line.passed.evictBefore (line.buffer.enqueue tuple).1.mark
          matched := rest
          buffer := (line.buffer.enqueue tuple).1 } := by
  obtain ⟨result, computed⟩ := exists_mean_of_fills setting fills
  refine ⟨result, computed, ?_, forall_getElem?_append_singleton slides.is_result
    (isResult_of_fills setting fills consistent computed)⟩
  rw [List.length_append, List.length_singleton]
  exact fills.commit slides.progress (fun _ _ matched => matched.lowWater_eq)
    setting.feeds.lowWater_increasing (fun _ member => setting.feeds.lowWater_le member)
    (pipeline.window.stride_le runs.kind_eq) _

/-- A pipeline continues to slide, whatever happens. -/
theorem upholds (runs : pipeline.RunsIn deployment)
    (setting : pipeline.Setting shown (dataOf arrived) relation) :
    pipeline.Upholds relation.snapshot (pipeline.Slides shown arrived) := by
  have stride_le := pipeline.window.stride_le runs.kind_eq
  constructor
  case collect =>
    exact fun results line slides waiting => ⟨slides.progress.collect waiting, slides.is_result⟩
  case pass =>
    exact fun results line tuple rest slides arrivals_eq =>
      ⟨slides.progress.pass arrivals_eq, slides.is_result⟩
  case match_marker =>
    exact fun results line tuple rest slides queue_eq is_marker =>
      ⟨slides.progress.match_marker queue_eq is_marker, slides.is_result⟩
  case match_data =>
    intro results line tuple rest slides queue_eq is_data
    have input_mem := slides.progress.mem_inputs (by simp [queue_eq]) is_data
    obtain ⟨result, matched⟩ :
        ∃ result, matchSnapshot pipeline.condition pipeline.combine.schema
          pipeline.reference.place relation.snapshot tuple = .ok [result] :=
      matchSnapshot_of_matchesOnce (setting.serves.once tuple input_mem)
    have result_is_data : result.isEndOfStream = false := by
      obtain ⟨row, _, position, rfl⟩ := Matches.exists_row matched
      rfl
    exact ⟨[result], matched, slides.progress.match_data queue_eq is_data result_is_data
      ⟨_, setting.shown_now, matched⟩, slides.is_result⟩
  case skip_marker =>
    exact fun results line tuple rest slides matched_eq is_marker =>
      ⟨slides.progress.skip_marker matched_eq is_marker line.results, slides.is_result⟩
  case remember =>
    exact fun results line tuple rest slides matched_eq is_data none_reported =>
      ⟨slides.progress.remember stride_le matched_eq is_data none_reported, slides.is_result⟩
  case redo =>
    intro results line tuple rest slides matched_eq is_data reported _
    have fills := slides.progress.fills stride_le matched_eq is_data reported
    exact ⟨fills.redo slides.progress, slides.is_result⟩
  case commit =>
    intro results line tuple rest slides matched_eq is_data reported consistent
    have fills := slides.progress.fills stride_le matched_eq is_data reported
    exact slides.commit runs setting fills consistent

end Slides

/-! ## Runs -/

/-- Throughout a run the relation serves the data that has arrived. -/
def IsServed (pipeline : Pipeline) (deployment : Deployment) (loading actions : List Action) :
    Prop :=
  ∀ earlier, earlier <+: actions → ∀ relation,
    (deployment.run (loading ++ earlier)).world.relation? pipeline.reference.place =
      some relation → pipeline.Serves (pipeline.inputs earlier) relation

instance (pipeline : Pipeline) (deployment : Deployment) (loading actions : List Action) :
    Decidable (pipeline.IsServed deployment loading actions) :=
  decidable_of_iff
    (∀ earlier ∈ actions.inits,
      ∀ relation ∈ (deployment.run (loading ++ earlier)).world.relation? pipeline.reference.place,
        pipeline.Serves (pipeline.inputs earlier) relation)
    (by simp only [List.mem_inits, Option.mem_def, IsServed])

/-- Two versions with the same number have the same rows. -/
theorem Shown.eq_of_version_eq (plan : pipeline.IsPlanOf deployment)
    (allowed : ∀ action ∈ actions, pipeline.Allows action) {first second : Snapshot}
    (first_shown : pipeline.Shown deployment loading actions first)
    (second_shown : pipeline.Shown deployment loading actions second)
    (same : first.version = second.version) : first = second := by
  obtain ⟨declared, declared_eq, _⟩ := deployment.isTyped plan.mem_postOrder.1
  have no_loads {earlier later : List Action} (is_later : earlier ++ later <+: actions) :
      ∀ action ∈ later, ¬action.IsLoad := by
    intro action member is_load
    have action_allowed := allowed action (is_later.subset (List.mem_append_right _ member))
    cases action with
    | load place row => exact action_allowed
    | _ => exact is_load
  obtain ⟨earlier, is_earlier, first_eq⟩ := first_shown
  obtain ⟨later, is_later, second_eq⟩ := second_shown
  rcases List.prefix_or_prefix_of_prefix is_earlier is_later with ⟨between, rfl⟩ | ⟨between, rfl⟩
  · rw [← List.append_assoc] at second_eq
    have precedes :=
      Deployment.snapshotAfter_precedes declared_eq (no_loads is_later) first_eq second_eq
    exact precedes.eq_of_version_eq same
  · rw [← List.append_assoc] at first_eq
    have precedes :=
      Deployment.snapshotAfter_precedes declared_eq (no_loads is_earlier) second_eq first_eq
    exact (precedes.eq_of_version_eq same.symm).symm

/-- What is known of a pipeline at any moment of a run. -/
theorem setting_of_served (plan : pipeline.IsPlanOf deployment)
    (allowed : ∀ action ∈ actions, pipeline.Allows action)
    (feeds : pipeline.Feeds (pipeline.inputs actions))
    (served : pipeline.IsServed deployment loading actions) {earlier : List Action}
    (is_earlier : earlier <+: actions) {relation : Relation}
    (found : (deployment.run (loading ++ earlier)).world.relation? pipeline.reference.place =
      some relation) :
    pipeline.Setting (pipeline.Shown deployment loading actions) (pipeline.inputs earlier)
      relation := by
  obtain ⟨declared, declared_eq, schema_eq⟩ :=
    deployment.isTyped plan.mem_postOrder.1
  have numeric := deployment.isTyped plan.mem_postOrder.2
  obtain ⟨same, same_found, id_eq, relation_schema⟩ :=
    Deployment.run_relation? declared_eq (loading ++ earlier)
  obtain rfl := Option.some.inj (same_found.symm.trans found)
  obtain ⟨later, rfl⟩ := id is_earlier
  rw [inputs_append] at feeds
  refine ⟨id_eq, relation_schema ▸ schema_eq, numeric, feeds.of_append,
    served earlier is_earlier same found, ⟨earlier, is_earlier, ?_⟩, ?_, ?_⟩
  · rw [Deployment.snapshotAfter, found]
    rfl
  · rintro snapshot ⟨before, is_before, snapshot_eq⟩
    obtain ⟨other, other_found, rfl⟩ := Option.map_eq_some_iff.mp snapshot_eq
    obtain ⟨same_other, same_other_found, _, other_schema⟩ :=
      Deployment.run_relation? declared_eq (loading ++ before)
    obtain rfl := Option.some.inj (same_other_found.symm.trans other_found)
    rw [relation_schema, ← other_schema]
    exact (served before is_before same_other other_found).fits
  · exact fun first second => Shown.eq_of_version_eq plan allowed

/-- Throughout a run a pipeline makes progress. -/
theorem slides_of_run (runs : pipeline.RunsIn deployment)
    (changes : ∀ action ∈ loading, action.ChangesRelations)
    (allowed : ∀ action ∈ actions, pipeline.Allows action)
    (feeds : pipeline.Feeds (pipeline.inputs actions))
    (served : pipeline.IsServed deployment loading actions) :
    pipeline.History
      (pipeline.Slides (pipeline.Shown deployment loading actions)
        (arrivalsAt pipeline.source.id actions))
      (deployment.trace (loading ++ actions)) (deployment.run (loading ++ actions)).world := by
  refine history_of_run runs changes allowed
    ⟨Line.Progress.start pipeline.window _, fun _ _ found => by cases found⟩
    (fun arrived tuple results line is_prefix slides => slides.arrive ?_)
    (fun earlier is_earlier relation found => Slides.upholds runs
      (setting_of_served runs.plannedIn.isPlan allowed feeds served is_earlier found))
    List.prefix_rfl
  obtain ⟨later, arrivals_eq⟩ := is_prefix
  rw [inputs, ← arrivals_eq, dataOf_append] at feeds
  exact feeds.of_append

end Pipeline

/-- Under optimistic control, the data that a mean over a matched stream has sent are the results of
the windows number 0, 1, 2 and so on, in order, each once and none left out. Each was computed with
all inputs of its window matched with the rows of one version of the relation, and that version is
its stamp. -/
theorem optimistic_means_in_order (deployment : Deployment) {pipeline : Pipeline}
    (runs : pipeline.RunsIn deployment) {loading actions : List Action}
    (changes : ∀ action ∈ loading, action.ChangesRelations)
    (allowed : ∀ action ∈ actions, pipeline.Allows action)
    (feeds : pipeline.Feeds (pipeline.inputs actions))
    (served : pipeline.IsServed deployment loading actions) :
    ∀ number result,
      (dataOf (deployment.sentBy pipeline.mean.id (loading ++ actions)))[number]? = some result →
        pipeline.IsResult (pipeline.Shown deployment loading actions) (pipeline.inputs actions)
          number result := by
  obtain ⟨_, _, slides⟩ := Pipeline.slides_of_run runs changes allowed feeds served
  exact slides.is_result

/-- Means over the last two sales. -/
def slidingOptimistic : Deployment :=
  (Deployment.ofDeclarations? (pricedDeclarations (.rows 2 1)) "mean" (.ofMode .optimistic)).get
    (by decide)

/-- The operators of the means over sales. -/
def slidingPipeline : Pipeline where
  source := { id := 0, name := "sales", schema := goodsSchema }
  combine := { id := 1, name := "priced", schema := goodsSchema ++ priceSchema }
  mean := { id := 2, name := "mean", schema := ⟨[{ name := "price", type := .float }]⟩ }
  reference := { place := 0, name := "prices" }
  condition := .attributes "goods" .equal "id"
  window := .rows 2 1
  index := 2

/-- The first price of the goods. -/
def slidingLoading : List Action :=
  [.load 0 (.ofInts priceSchema [1, 10] 0)]

/-- The price changes between the first two of three sales. -/
def slidingActions : List Action :=
  [.arrive 0 (.ofInts goodsSchema [1] 0), .wakeUp, .wakeUp, .wakeUp,
      .update 0 fun _ => [.ofInts priceSchema [1, 20] 0],
      .arrive 0 (.ofInts goodsSchema [1] 1), .arrive 0 (.ofInts goodsSchema [1] 2)] ++
    List.replicate 15 .wakeUp

theorem slidingPipeline_allows : ∀ action ∈ slidingActions, slidingPipeline.Allows action := by
  intro action member
  simp only [slidingActions, List.mem_append, List.mem_cons, List.not_mem_nil, or_false,
    List.mem_replicate] at member
  rcases member with (rfl | rfl | rfl | rfl | rfl | rfl | rfl) | ⟨-, rfl⟩ <;>
    first | rfl | trivial

theorem slidingPipeline_feeds : slidingPipeline.Feeds (slidingPipeline.inputs slidingActions) where
  fits input member := by
    have sale_fits (time : Int) : Tuple.arriving goodsSchema [.int 1] time =
        .ok (.ofInts goodsSchema [1] time) := rfl
    have inputs_eq : slidingPipeline.inputs slidingActions =
        [.ofInts goodsSchema [1] 0, .ofInts goodsSchema [1] 1, .ofInts goodsSchema [1] 2] := rfl
    rw [inputs_eq] at member
    simp only [List.mem_cons, List.not_mem_nil, or_false] at member
    rcases member with rfl | rfl | rfl <;> exact ⟨[.int 1], sale_fits _⟩
  increasing := by decide
  representable := by decide

set_option maxRecDepth 10000 in
theorem slidingPipeline_isServed :
    slidingPipeline.IsServed slidingOptimistic slidingLoading slidingActions := by
  decide +kernel

set_option maxRecDepth 10000 in
/-- The first window is redone after the price has changed, and the means of both windows are then
computed from the new price. -/
theorem slidingOptimistic_means_in_order :
    slidingPipeline.RunsIn slidingOptimistic ∧
      (∀ action ∈ slidingLoading, action.ChangesRelations) ∧
      (∀ action ∈ slidingActions, slidingPipeline.Allows action) ∧
      slidingPipeline.Feeds (slidingPipeline.inputs slidingActions) ∧
      slidingPipeline.IsServed slidingOptimistic slidingLoading slidingActions ∧
      (slidingOptimistic.run (slidingLoading ++ slidingActions)).metrics.redoCount = 1 ∧
      (dataOf (slidingOptimistic.sentBy 2 (slidingLoading ++ slidingActions))).map
        (·.stamps.entries) = [[(0, 1)], [(0, 1)]] ∧
      ∀ number result,
        (dataOf (slidingOptimistic.sentBy slidingPipeline.mean.id
          (slidingLoading ++ slidingActions)))[number]? = some result →
          slidingPipeline.IsResult
            (slidingPipeline.Shown slidingOptimistic slidingLoading slidingActions)
            (slidingPipeline.inputs slidingActions) number result := by
  have runs : slidingPipeline.RunsIn slidingOptimistic := ⟨rfl, rfl, rfl⟩
  have changes : ∀ action ∈ slidingLoading, action.ChangesRelations :=
    List.forall_mem_singleton.mpr trivial
  exact ⟨runs, changes, slidingPipeline_allows, slidingPipeline_feeds, slidingPipeline_isServed,
    by decide +kernel, by decide +kernel,
    optimistic_means_in_order slidingOptimistic runs changes slidingPipeline_allows
      slidingPipeline_feeds slidingPipeline_isServed⟩

end StreamQuery
