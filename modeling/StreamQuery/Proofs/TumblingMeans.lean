import StreamQuery.Proofs.Pipeline.LedgerRuns
import StreamQuery.Proofs.SlidingMeans
import StreamQuery.Proofs.TwoPhaseLocking

/-!
# Means over tumbling windows

Under control that prevents conflicts, the means over the windows of a stream that is matched with a
relation are sent in order, each once and none left out, and all windows of a transaction are
computed from one version of the relation, as long as each input has one match.
-/

namespace StreamQuery

/-- Nothing but the last of some tuples in order can be a marker. -/
theorem dataOf_drop {tuples : List Tuple} (ordered : tuples.Pairwise Tuple.ComesBefore)
    (count : Nat) : dataOf (tuples.drop count) = (dataOf tuples).drop count := by
  induction tuples generalizing count with
  | nil => simp
  | cons tuple tuples induction =>
      obtain ⟨before, later⟩ := List.pairwise_cons.mp ordered
      cases count with
      | zero => rfl
      | succ count =>
          cases is_marker : tuple.isEndOfStream with
          | false =>
              rw [dataOf_cons_of_data is_marker, List.drop_succ_cons, List.drop_succ_cons]
              exact induction later count
          | true =>
              have last : tuples = [] := by
                refine List.eq_nil_iff_forall_not_mem.mpr fun other member => ?_
                have is_data := (before other member).1
                rw [is_marker] at is_data
                cases is_data
              subst last
              rw [dataOf_cons_of_marker is_marker]
              simp

namespace Pipeline

variable {pipeline : Pipeline} {snapshot : Snapshot} {inputs : List Tuple}

/-! ## Inputs with one match -/

/-- An input that can be joined with one row of a version of the relation. -/
structure AnswersOnce (pipeline : Pipeline) (snapshot : Snapshot) (input : Tuple) : Prop
    extends pipeline.Answers snapshot input where
  /-- The match is the only one. -/
  single : (pipeline.matchesOf snapshot input).length = 1

/-- The match of an input that has one. -/
def matchOf (pipeline : Pipeline) (snapshot : Snapshot) (input : Tuple) : Tuple :=
  (pipeline.matchesOf snapshot input).headD input

theorem flatMap_matchesOf (once : ∀ input ∈ inputs, pipeline.AnswersOnce snapshot input) :
    inputs.flatMap (pipeline.matchesOf snapshot) = inputs.map (pipeline.matchOf snapshot) := by
  have single (input : Tuple) (member : input ∈ inputs) :
      pipeline.matchesOf snapshot input = [pipeline.matchOf snapshot input] := by
    obtain ⟨found, found_eq⟩ := List.length_eq_one_iff.mp (once input member).single
    rw [matchOf, found_eq]
    rfl
  rw [List.flatMap_congr single, List.map_eq_flatMap]

/-- What is computed from the matches of some inputs is their result. -/
theorem resultOf_eq_meanOf (answers : ∀ input ∈ inputs, pipeline.Answers snapshot input) :
    pipeline.resultOf snapshot inputs =
      pipeline.meanOf (inputs.flatMap (pipeline.matchesOf snapshot)) := by
  have matched : inputs.mapM (matchSnapshot pipeline.condition pipeline.combine.schema
      pipeline.reference.place snapshot) = .ok (inputs.map (pipeline.matchesOf snapshot)) := by
    induction inputs with
    | nil => rfl
    | cons input inputs induction =>
        rw [List.mapM_cons, (answers input List.mem_cons_self).matched,
          induction fun later member => answers later (List.mem_cons_of_mem _ member)]
        rfl
  rw [resultOf, matched, List.flatMap_def]
  rfl

/-- Each match bears the version as its only stamp. -/
theorem stamps_of_mem_matchesOf (feeds : pipeline.Feeds inputs) {input result : Tuple}
    (input_mem : input ∈ inputs) (member : result ∈ pipeline.matchesOf snapshot input) :
    result.stamps = { entries := [(pipeline.reference.place, snapshot.version)] } := by
  obtain ⟨row, _, position, rfl⟩ := exists_row_of_mem_matchesOf member
  rw [matchTuple, (feeds.spec input_mem).2.2]
  rfl

theorem meanOf_stamps {tuples : List Tuple} {result : Tuple} {entry : RelationId × Nat}
    (computed : pipeline.meanOf tuples = .ok result) (nonempty : tuples ≠ [])
    (stamped : ∀ tuple ∈ tuples, tuple.stamps = { entries := [entry] }) :
    result.stamps.entries = [entry] := by
  obtain ⟨_, stamps_eq, _⟩ := AggregateFunction.apply_eq_ok computed
  rw [stamps_eq, Stamps.unions_eq_of_forall_eq (by simpa using nonempty)]
  exact List.forall_mem_map.mpr stamped

/-! ## Windows of transactions -/

variable {shown : Snapshot → Prop} {joint ended : Nat} {arrived results : List Tuple}
  {starts : Nat → Nat} {read : Nat → Snapshot}

/-- Where every input has one match, each transaction starts with the input after the last window of
the one before. -/
theorem Entries.starts_eq
    (entries : pipeline.Entries shown joint arrived results ended starts read)
    (once : ∀ snapshot, shown snapshot → ∀ input ∈ dataOf arrived,
      pipeline.AnswersOnce snapshot input)
    {transaction : Nat} (begun : transaction ≤ ended) :
    starts transaction = transaction * (joint * pipeline.window.width) := by
  induction transaction with
  | zero => rw [entries.starts_zero, Nat.zero_mul]
  | succ transaction induction =>
      obtain ⟨front, origin, back, arrivals, reached, passed, next_eq⟩ :=
        entries.next_start transaction begun
      have sends_single (tuple : Tuple) (member : tuple ∈ front ++ [origin]) :
          (pipeline.sends (read transaction) tuple).length = 1 := by
        have inside : tuple ∈ arrived := by
          apply List.mem_of_mem_drop (i := starts transaction)
          rw [arrivals, List.append_cons]
          exact List.mem_append_left _ member
        cases is_marker : tuple.isEndOfStream with
        | true => rw [sends_of_marker is_marker, List.length_singleton]
        | false =>
            rw [sends_of_data is_marker]
            exact (once _ (entries.is_shown transaction) tuple
              (List.mem_filter.mpr ⟨inside, by simp [is_marker]⟩)).single
      have count_sends (tuples : List Tuple) (part : tuples ⊆ front ++ [origin]) :
          (tuples.flatMap (pipeline.sends (read transaction))).length = tuples.length := by
        rw [List.length_flatMap,
          List.map_congr_left fun tuple member => sends_single tuple (part member)]
        simp
      rw [count_sends _ (List.subset_append_left _ _)] at reached
      rw [count_sends _ (List.Subset.refl _), List.length_append, List.length_singleton] at passed
      rw [next_eq, induction (Nat.le_of_succ_le begun), Nat.add_one_mul]
      omega

/-- Where every input has one match, the results are those of the windows in order, and the windows
of a transaction are computed from one version. -/
theorem Entries.isResult
    (entries : pipeline.Entries shown joint arrived results ended starts read)
    (streams : pipeline.Streams arrived)
    (once : ∀ snapshot, shown snapshot → ∀ input ∈ dataOf arrived,
      pipeline.AnswersOnce snapshot input)
    (tumbling : pipeline.window.stride = pipeline.window.width) {number : Nat} {result : Tuple}
    (found : results[number]? = some result) :
    pipeline.IsResult (· = read (number / joint)) (dataOf arrived) number result := by
  have begun := entries.begun number (List.getElem?_eq_some_iff.mp found).1
  obtain ⟨full, computed⟩ := entries.computed number result found
  have position : number / joint * (joint * pipeline.window.width) +
      number % joint * pipeline.window.width = number * pipeline.window.stride := by
    rw [tumbling, ← Nat.mul_assoc, ← Nat.add_mul, Nat.mul_comm _ joint, Nat.div_add_mod]
  have once_read := once _ (entries.is_shown (number / joint))
  have window_mem {input : Tuple} (member : input ∈ pipeline.windowOf (dataOf arrived) number) :
      input ∈ dataOf arrived := List.mem_of_mem_drop (List.mem_of_mem_take member)
  have block_eq : pipeline.block (read (number / joint))
      (dataOf (arrived.drop (starts (number / joint)))) (number % joint * pipeline.window.width) =
        (pipeline.windowOf (dataOf arrived) number).flatMap
          (pipeline.matchesOf (read (number / joint))) := by
    rw [entries.starts_eq once begun, dataOf_drop streams.ordered, block,
      flatMap_matchesOf fun input member => once_read input (List.mem_of_mem_drop member),
      flatMap_matchesOf fun input member => once_read input (window_mem member),
      ← List.map_drop, ← List.map_take, List.drop_drop, position, windowOf]
  rw [block_eq] at full computed
  have window_full :
      (pipeline.windowOf (dataOf arrived) number).length = pipeline.window.width := by
    rwa [flatMap_matchesOf fun input member => once_read input (window_mem member),
      List.length_map] at full
  refine ⟨window_full, read (number / joint), rfl, ?_, meanOf_stamps computed ?_ ?_⟩
  · rw [resultOf_eq_meanOf fun input member =>
      (once_read input (window_mem member)).toAnswers]
    exact computed
  · refine List.ne_nil_of_length_pos ?_
    rw [full]
    exact pipeline.window.width_pos
  · intro tuple member
    obtain ⟨input, input_mem, matched⟩ := List.mem_flatMap.mp member
    exact stamps_of_mem_matchesOf streams.feeds (window_mem input_mem) matched

/-! ## Runs -/

variable {deployment : Deployment} {loading actions : List Action}

/-- Throughout a run the relation serves all data of the run. -/
def IsServedThroughout (pipeline : Pipeline) (deployment : Deployment)
    (loading actions : List Action) : Prop :=
  ∀ earlier, earlier <+: actions → ∀ relation,
    (deployment.run (loading ++ earlier)).world.relation? pipeline.reference.place =
      some relation → pipeline.Serves (pipeline.inputs actions) relation

instance (pipeline : Pipeline) (deployment : Deployment) (loading actions : List Action) :
    Decidable (pipeline.IsServedThroughout deployment loading actions) :=
  decidable_of_iff
    (∀ earlier ∈ actions.inits,
      ∀ relation ∈ (deployment.run (loading ++ earlier)).world.relation? pipeline.reference.place,
        pipeline.Serves (pipeline.inputs actions) relation)
    (by simp only [List.mem_inits, Option.mem_def, IsServedThroughout])

theorem answersOnce_of_serves (plan : pipeline.IsPlanOf deployment) {relation : Relation}
    (found : (deployment.run actions).world.relation? pipeline.reference.place = some relation)
    (feeds : pipeline.Feeds inputs) (serves : pipeline.Serves inputs relation) :
    ∀ input ∈ inputs, pipeline.AnswersOnce relation.snapshot input := by
  intro input member
  obtain ⟨result, matched⟩ :
      ∃ result, matchSnapshot pipeline.condition pipeline.combine.schema
        pipeline.reference.place relation.snapshot input = .ok [result] :=
    matchSnapshot_of_matchesOnce (serves.once input member)
  refine ⟨answers_of_fits plan found serves.fits (feeds.spec member).1 matched, ?_⟩
  rw [matchesOf_eq matched, List.length_singleton]

theorem answersOnce_of_served (planned : pipeline.PlannedIn deployment)
    (feeds : pipeline.Feeds (pipeline.inputs actions))
    (served : pipeline.IsServedThroughout deployment loading actions)
    (is_shown : pipeline.Shown deployment loading actions snapshot) :
    ∀ input ∈ pipeline.inputs actions, pipeline.AnswersOnce snapshot input := by
  obtain ⟨earlier, is_earlier, snapshot_eq⟩ := is_shown
  obtain ⟨relation, found, rfl⟩ := Option.map_eq_some_iff.mp snapshot_eq
  exact answersOnce_of_serves planned.isPlan found feeds (served earlier is_earlier relation found)

end Pipeline

/-- Under control that prevents conflicts, the data that a mean over a matched stream has sent are
the results of the tumbling windows number 0, 1, 2 and so on, in order, each once and none left out,
as long as each input has one match. All windows of a transaction were computed from one version of
the relation, and that version is their stamp. -/
theorem pessimistic_means_in_order (deployment : Deployment) {pipeline : Pipeline}
    (transacts : pipeline.TransactsIn deployment) {loading actions : List Action}
    (changes : ∀ action ∈ loading, action.ChangesRelations)
    (allowed : ∀ action ∈ actions, pipeline.Allows action)
    (streams : pipeline.Streams (arrivalsAt pipeline.source.id actions))
    (served : pipeline.IsServedThroughout deployment loading actions) :
    ∃ read : Nat → Snapshot,
      (∀ transaction, pipeline.Shown deployment loading actions (read transaction)) ∧
        ∀ number result,
          (dataOf (deployment.sentBy pipeline.mean.id (loading ++ actions)))[number]? =
            some result →
            pipeline.IsResult (· = read (number / deployment.config.jointCount))
              (pipeline.inputs actions) number result := by
  have once (snapshot : Snapshot) (is_shown : pipeline.Shown deployment loading actions snapshot) :=
    Pipeline.answersOnce_of_served transacts.planned streams.feeds served is_shown
  have provides : pipeline.Provides (pipeline.Shown deployment loading actions)
      (arrivalsAt pipeline.source.id actions) :=
    ⟨streams, fun snapshot is_shown tuple member => (once snapshot is_shown tuple member).toAnswers⟩
  obtain ⟨ended, starts, read, entries⟩ :=
    Pipeline.exists_entries_of_run transacts changes allowed provides
  exact ⟨read, entries.is_shown, fun number result found =>
    entries.isResult streams once transacts.tumbling found⟩

/-- Sales at different times are data for a stream of goods. -/
theorem Pipeline.feeds_sales (pipeline : Pipeline) (times : List Int)
    (schema_eq : pipeline.source.schema = goodsSchema)
    (increasing : times.Pairwise (· < ·)) (representable : ∀ time ∈ times, time ≤ Time.latest) :
    pipeline.Feeds (times.map (Tuple.ofInts goodsSchema [1])) where
  fits := by
    rw [schema_eq]
    exact List.forall_mem_map.mpr fun _ _ => ⟨[.int 1], rfl⟩
  increasing := by
    rw [List.map_map]
    simpa [Function.comp_def, Tuple.ofInts] using increasing
  representable := List.forall_mem_map.mpr representable

/-- Four sales, one after the other. -/
def fourSales : List Action :=
  [0, 1, 2, 3].map (fun time => .arrive 0 (.ofInts goodsSchema [1] time)) ++
    List.replicate 40 .wakeUp

/-- Two sales at a time are given their prices as of the last commit. -/
def tumblingSnapshot : Deployment :=
  (Deployment.ofDeclarations? (pricedDeclarations (.rows 1 1)) "mean"
    (.ofChoices (some .snapshot) (some 2) none none)).get (by decide)

/-- The operators of the means over single sales. -/
def tumblingPipeline : Pipeline :=
  { slidingPipeline with window := .rows 1 1 }

/-- The price changes between the first two of three sales. -/
def tumblingActions : List Action :=
  [.arrive 0 (.ofInts goodsSchema [1] 0), .wakeUp, .wakeUp, .wakeUp,
      .update 0 fun _ => [.ofInts priceSchema [1, 20] 0],
      .arrive 0 (.ofInts goodsSchema [1] 1), .arrive 0 (.ofInts goodsSchema [1] 2),
      .arrive 0 (.endOfStream goodsSchema 3)] ++
    List.replicate 15 .wakeUp

theorem tumblingPipeline_streams :
    tumblingPipeline.Streams (arrivalsAt tumblingPipeline.source.id tumblingActions) where
  feeds := tumblingPipeline.feeds_sales [0, 1, 2] rfl (by decide) (by decide)
  ordered := by decide

set_option maxRecDepth 10000 in
theorem tumblingPipeline_isServedThroughout :
    tumblingPipeline.IsServedThroughout tumblingSnapshot slidingLoading tumblingActions := by
  decide +kernel

set_option maxRecDepth 10000 in
/-- The first two sales have the old price, although it changes between them, and the third one has
the new price. -/
theorem tumblingSnapshot_means_in_order :
    tumblingPipeline.TransactsIn tumblingSnapshot ∧
      (∀ action ∈ slidingLoading, action.ChangesRelations) ∧
      (∀ action ∈ tumblingActions, tumblingPipeline.Allows action) ∧
      tumblingPipeline.Streams (arrivalsAt tumblingPipeline.source.id tumblingActions) ∧
      tumblingPipeline.IsServedThroughout tumblingSnapshot slidingLoading tumblingActions ∧
      (dataOf (tumblingSnapshot.sentBy 2 (slidingLoading ++ tumblingActions))).map
        (·.stamps.entries) = [[(0, 0)], [(0, 0)], [(0, 1)]] ∧
      ∃ read : Nat → Snapshot,
        (∀ transaction,
          tumblingPipeline.Shown tumblingSnapshot slidingLoading tumblingActions
            (read transaction)) ∧
          ∀ number result,
            (dataOf (tumblingSnapshot.sentBy tumblingPipeline.mean.id
              (slidingLoading ++ tumblingActions)))[number]? = some result →
              tumblingPipeline.IsResult (· = read (number / tumblingSnapshot.config.jointCount))
                (tumblingPipeline.inputs tumblingActions) number result := by
  have transacts : tumblingPipeline.TransactsIn tumblingSnapshot := ⟨⟨rfl, rfl⟩, rfl, rfl⟩
  have changes : ∀ action ∈ slidingLoading, action.ChangesRelations := by decide
  have allowed : ∀ action ∈ tumblingActions, tumblingPipeline.Allows action := by decide
  exact ⟨transacts, changes, allowed, tumblingPipeline_streams,
    tumblingPipeline_isServedThroughout, by decide +kernel,
    pessimistic_means_in_order tumblingSnapshot transacts changes allowed tumblingPipeline_streams
      tumblingPipeline_isServedThroughout⟩

/-- A sale is followed by the end of the stream at the same time. -/
def simultaneousActions : List Action :=
  [.arrive 0 (.ofInts goodsSchema [1] 0), .arrive 0 (.endOfStream goodsSchema 0)] ++
    List.replicate 12 .wakeUp

set_option maxRecDepth 10000 in
/-- If the stream ends at the time of its last data, this data is evaluated again for the marker,
and the result of the last window is sent twice. -/
theorem simultaneous_end_repeats_result :
    tumblingPipeline.TransactsIn pricedLocked ∧
      (∀ action ∈ slidingLoading, action.ChangesRelations) ∧
      (∀ action ∈ simultaneousActions, tumblingPipeline.Allows action) ∧
      tumblingPipeline.Feeds (tumblingPipeline.inputs simultaneousActions) ∧
      arrivalsAt tumblingPipeline.source.id simultaneousActions =
        tumblingPipeline.inputs simultaneousActions ++ [.endOfStream goodsSchema 0] ∧
      tumblingPipeline.IsServedThroughout pricedLocked slidingLoading simultaneousActions ∧
      ¬∀ number result,
        (dataOf (pricedLocked.sentBy tumblingPipeline.mean.id
          (slidingLoading ++ simultaneousActions)))[number]? = some result →
          tumblingPipeline.IsResult (fun _ => True)
            (tumblingPipeline.inputs simultaneousActions) number result := by
  refine ⟨⟨⟨rfl, rfl⟩, rfl, rfl⟩, by decide, by decide,
    tumblingPipeline.feeds_sales [0] rfl (by decide) (by decide), rfl,
    by decide +kernel, fun claimed => ?_⟩
  have repeated : (dataOf (pricedLocked.sentBy tumblingPipeline.mean.id
      (slidingLoading ++ simultaneousActions))).length = 2 := by decide +kernel
  have found := List.getElem?_eq_getElem (Nat.lt_of_lt_of_eq Nat.one_lt_two repeated.symm)
  have full := (claimed 1 _ found).full
  cases full

end StreamQuery
