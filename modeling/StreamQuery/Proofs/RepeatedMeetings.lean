import StreamQuery.Proofs.Pipeline.Meetings
import StreamQuery.Proofs.TumblingMeans

/-!
# Meetings that are evaluated again

Under control that prevents conflicts, a transaction ends with an input as a whole: if its last
window ends among the meetings of an input, the next transaction begins with the first meeting of
this input. Where the windows of each transaction end between inputs, no meeting is in two results.
-/

namespace StreamQuery

namespace Pipeline

/-- Where transactions begin that commit a number of windows each: at the last input that begins
not after the end of these windows. -/
def transactionStart (pipeline : Pipeline) (rows inputs : List Tuple) (joint : Nat) : Nat → Nat
  | 0 => 0
  | transaction + 1 =>
    lastBoundary (pipeline.meetingCounts rows inputs)
      (pipeline.transactionStart rows inputs joint transaction + joint * pipeline.window.width)

variable {pipeline : Pipeline} {deployment : Deployment} {loading actions : List Action}
  {rows arrived results : List Tuple} {joint ended : Nat} {starts : Nat → Nat}
  {read : Nat → Snapshot}

theorem inputs_take_append_drop (pipeline : Pipeline) (actions : List Action) (start : Nat) :
    dataOf ((arrivalsAt pipeline.source.id actions).take start) ++
        dataOf ((arrivalsAt pipeline.source.id actions).drop start) =
      pipeline.inputs actions := by
  rw [← dataOf_append, List.take_append_drop, inputs]

/-- A transaction begins where the last input begins whose first meeting is not after the windows
of the transaction before. -/
theorem Entries.meetings_before
    (entries : pipeline.Entries (pipeline.Shown deployment loading actions) joint
      (arrivalsAt pipeline.source.id actions) results ended starts read)
    (streams : pipeline.Streams (arrivalsAt pipeline.source.id actions))
    (keeps : pipeline.KeepsRows deployment loading actions rows)
    {transaction : Nat} (begun : transaction ≤ ended) :
    (pipeline.meetingCounts rows
      (dataOf ((arrivalsAt pipeline.source.id actions).take (starts transaction)))).sum =
      pipeline.transactionStart rows (pipeline.inputs actions) joint transaction := by
  induction transaction with
  | zero =>
      rw [entries.starts_zero]
      rfl
  | succ transaction induction =>
      obtain ⟨front, before_eq, reached, passed⟩ :=
        (entries.next_start transaction begun).exists_data streams.ordered
      have before := induction (Nat.le_of_succ_le begun)
      have is_shown := entries.is_shown transaction
      have inputs_eq := pipeline.inputs_take_append_drop actions (starts (transaction + 1))
      have front_part : front ⊆ pipeline.inputs actions := by
        rw [← inputs_eq, before_eq]
        simp
      rw [keeps.matches_length is_shown front_part] at reached
      have sum_eq : (pipeline.meetingCounts rows
          (dataOf ((arrivalsAt pipeline.source.id actions).take (starts (transaction + 1))))).sum =
          pipeline.transactionStart rows (pipeline.inputs actions) joint transaction +
            (pipeline.meetingCounts rows front).sum := by
        rw [before_eq, meetingCounts_append, List.sum_append, before]
      rw [transactionStart, ← inputs_eq, meetingCounts_append, inputs_eq]
      refine (lastBoundary_eq (by omega) fun size sizes sizes_eq => ?_).symm
      obtain ⟨origin, rest, rest_eq, rfl, _⟩ := List.map_eq_cons_iff.mp sizes_eq
      have origin_part : [origin] ⊆ pipeline.inputs actions := by
        rw [← inputs_eq, rest_eq]
        simp
      have too_many := passed origin rest rest_eq
      rw [List.flatMap_append, List.length_append, keeps.matches_length is_shown front_part,
        keeps.matches_length is_shown origin_part, meetingCounts, meetingCounts,
        List.map_singleton, List.sum_singleton, ← meetingCounts] at too_many
      omega

/-- Each transaction computes its results from one block of meetings after the other. -/
theorem Entries.isMeanFrom
    (entries : pipeline.Entries (pipeline.Shown deployment loading actions) joint
      (arrivalsAt pipeline.source.id actions) results ended starts read)
    (streams : pipeline.Streams (arrivalsAt pipeline.source.id actions))
    (keeps : pipeline.KeepsRows deployment loading actions rows) {number : Nat} {result : Tuple}
    (found : results[number]? = some result) :
    pipeline.IsMeanFrom rows (pipeline.inputs actions) (read (number / joint)).version
      (pipeline.transactionStart rows (pipeline.inputs actions) joint (number / joint) +
        number % joint * pipeline.window.width) result := by
  have begun := entries.begun number (List.getElem?_eq_some_iff.mp found).1
  obtain ⟨full, computed⟩ := entries.computed number result found
  have inputs_eq := pipeline.inputs_take_append_drop actions (starts (number / joint))
  have part : dataOf ((arrivalsAt pipeline.source.id actions).drop (starts (number / joint))) ⊆
      pipeline.inputs actions := by
    conv_rhs => rw [← inputs_eq]
    exact List.subset_append_right _ _
  have before := entries.meetings_before streams keeps begun
  rw [← meetings_length] at before
  have block_eq : pipeline.block (read (number / joint))
      (dataOf ((arrivalsAt pipeline.source.id actions).drop (starts (number / joint))))
      (number % joint * pipeline.window.width) =
        (pipeline.meetingBlock rows (pipeline.inputs actions)
          (pipeline.transactionStart rows (pipeline.inputs actions) joint (number / joint) +
            number % joint * pipeline.window.width)).map
          (pipeline.joined (read (number / joint)).version) := by
    have later : (pipeline.meetings rows (pipeline.inputs actions)).drop
        (pipeline.transactionStart rows (pipeline.inputs actions) joint (number / joint)) =
          pipeline.meetings rows
            (dataOf ((arrivalsAt pipeline.source.id actions).drop (starts (number / joint)))) := by
      rw [← before]
      conv_lhs => rw [← inputs_eq, meetings_append]
      exact List.drop_left
    rw [block, keeps.flatMap_matchesOf (entries.is_shown _) part, meetingBlock, ← List.drop_drop,
      later, List.map_take, List.map_drop]
  rw [block_eq] at full computed
  exact ⟨by rwa [List.length_map] at full, computed⟩

theorem transactionStart_of_isAligned {inputs : List Tuple}
    (aligned : pipeline.IsAligned rows inputs joint) (transaction : Nat) :
    pipeline.transactionStart rows inputs joint transaction =
      min (transaction * (joint * pipeline.window.width))
        (pipeline.meetings rows inputs).length := by
  have at_end {number : Nat} (enough : (pipeline.meetings rows inputs).length ≤ number) :
      lastBoundary (pipeline.meetingCounts rows inputs) number =
        (pipeline.meetings rows inputs).length := by
    rw [meetings_length] at enough ⊢
    have all : lastBoundary (pipeline.meetingCounts rows inputs ++ []) number = _ :=
      lastBoundary_eq enough nofun
    rwa [List.append_nil] at all
  induction transaction with
  | zero => rw [transactionStart, Nat.zero_mul, Nat.zero_min]
  | succ transaction induction =>
      rw [transactionStart, induction, Nat.add_one_mul]
      rcases Nat.le_total (transaction * (joint * pipeline.window.width))
        (pipeline.meetings rows inputs).length with inside | outside
      · rw [Nat.min_eq_left inside]
        rcases Nat.le_total
          (transaction * (joint * pipeline.window.width) + joint * pipeline.window.width)
          (pipeline.meetings rows inputs).length with next_inside | next_outside
        · rw [Nat.min_eq_left next_inside]
          have next := aligned (transaction + 1)
          rw [Nat.add_one_mul] at next
          exact (next next_inside).lastBoundary_eq
        · rw [Nat.min_eq_right next_outside, at_end next_outside]
      · rw [Nat.min_eq_right outside, at_end (Nat.le_add_right _ _),
          Nat.min_eq_right (outside.trans (Nat.le_add_right _ _))]

/-- Where windows of transactions end between inputs, the windows are consecutive blocks. -/
theorem IsMeanFrom.of_isAligned {inputs : List Tuple} {version number : Nat} {result : Tuple}
    (aligned : pipeline.IsAligned rows inputs joint)
    (is_mean : pipeline.IsMeanFrom rows inputs version
      (pipeline.transactionStart rows inputs joint (number / joint) +
        number % joint * pipeline.window.width) result) :
    pipeline.IsMeanFrom rows inputs version (number * pipeline.window.width) result := by
  have width_pos := pipeline.window.width_pos
  have full := is_mean.full
  rw [meetingBlock, List.length_take, List.length_drop] at full
  have position : number / joint * (joint * pipeline.window.width) +
      number % joint * pipeline.window.width = number * pipeline.window.width := by
    rw [← Nat.mul_assoc, ← Nat.add_mul, Nat.mul_comm _ joint, Nat.div_add_mod]
  have start_eq := transactionStart_of_isAligned aligned (number / joint)
  rw [Nat.min_eq_left (by omega)] at start_eq
  rwa [start_eq, position] at is_mean

end Pipeline

/-- Under control that prevents conflicts, the data that a mean over a matched stream has sent are
the means of the meetings in tumbling windows, one block after the other within each transaction. A
transaction begins with the last input that begins not after the end of the transaction before. If
each transaction ends between inputs, the windows are therefore consecutive blocks of all meetings,
and no meeting is in two of them. -/
theorem pessimistic_means_of_meetings (deployment : Deployment) {pipeline : Pipeline}
    (transacts : pipeline.TransactsIn deployment) {loading actions : List Action}
    (changes : ∀ action ∈ loading, action.ChangesRelations)
    (allowed : ∀ action ∈ actions, pipeline.Allows action)
    (streams : pipeline.Streams (arrivalsAt pipeline.source.id actions)) {rows : List Tuple}
    (keeps : pipeline.KeepsRows deployment loading actions rows) :
    ∃ read : Nat → Snapshot,
      (∀ transaction, pipeline.Shown deployment loading actions (read transaction)) ∧
        ∀ number result,
          (dataOf (deployment.sentBy pipeline.mean.id (loading ++ actions)))[number]? =
            some result →
            pipeline.IsMeanFrom rows (pipeline.inputs actions)
              (read (number / deployment.config.jointCount)).version
              (pipeline.transactionStart rows (pipeline.inputs actions)
                  deployment.config.jointCount (number / deployment.config.jointCount) +
                number % deployment.config.jointCount * pipeline.window.width) result ∧
              (pipeline.IsAligned rows (pipeline.inputs actions) deployment.config.jointCount →
                pipeline.IsMeanFrom rows (pipeline.inputs actions)
                  (read (number / deployment.config.jointCount)).version
                  (number * pipeline.window.width) result) := by
  have provides : pipeline.Provides (pipeline.Shown deployment loading actions)
      (arrivalsAt pipeline.source.id actions) :=
    ⟨streams, fun _ is_shown => keeps.answers transacts.planned streams.feeds is_shown⟩
  obtain ⟨ended, starts, read, entries⟩ :=
    Pipeline.exists_entries_of_run transacts changes allowed provides
  refine ⟨read, entries.is_shown, fun number result found => ?_⟩
  have is_mean := entries.isMeanFrom streams keeps found
  exact ⟨is_mean, fun aligned => is_mean.of_isAligned aligned⟩

/-- Three prices of the same goods. -/
def threePrices : List Tuple :=
  [.ofInts priceSchema [1, 10] 0, .ofInts priceSchema [1, 20] 0, .ofInts priceSchema [1, 30] 0]

/-- The prices are loaded. -/
def threePricesLoading : List Action :=
  threePrices.map (Action.load 0)

/-- The relation of prices once they are loaded. -/
def threePricesRelation : Relation :=
  { id := 0, name := "prices", schema := priceSchema, rows := threePrices }

/-- Means over four priced sales. -/
def foursLocked : Deployment :=
  (Deployment.ofDeclarations? (pricedDeclarations (.rows 4 4)) "mean"
    (.ofMode .twoPhaseLocking)).get (by decide)

/-- The operators of the means over four priced sales. -/
def foursPipeline : Pipeline :=
  { slidingPipeline with window := .rows 4 4 }

/-- Three sales, each of which meets three prices. -/
def threeSales : List Action :=
  [.arrive 0 (.ofInts goodsSchema [1] 0), .arrive 0 (.ofInts goodsSchema [1] 1),
      .arrive 0 (.ofInts goodsSchema [1] 2)] ++
    List.replicate 30 .wakeUp

theorem foursPipeline_streams :
    foursPipeline.Streams (arrivalsAt foursPipeline.source.id threeSales) where
  feeds := foursPipeline.feeds_sales [0, 1, 2] rfl (by decide) (by decide)
  ordered := by decide

theorem foursPipeline_keepsRows :
    foursPipeline.KeepsRows foursLocked threePricesLoading threeSales threePrices := by
  have leaves : ∀ action ∈ threeSales, action.LeavesRows := by
    simp [threeSales, Action.LeavesRows]
  have found : (foursLocked.run threePricesLoading).world.relation?
      foursPipeline.reference.place = some threePricesRelation := rfl
  exact .of_leavesRows leaves found rfl (by decide) (by decide)

/-- The first two of the prices. -/
def twoPrices : List Tuple :=
  threePrices.take 2

/-- Two prices are loaded. -/
def twoPricesLoading : List Action :=
  twoPrices.map (Action.load 0)

theorem foursPipeline_keepsTwoRows :
    foursPipeline.KeepsRows foursLocked twoPricesLoading fourSales twoPrices := by
  have leaves : ∀ action ∈ fourSales, action.LeavesRows := by
    simp [fourSales, Action.LeavesRows]
  have found : (foursLocked.run twoPricesLoading).world.relation?
      foursPipeline.reference.place = some { threePricesRelation with rows := twoPrices } := rfl
  exact .of_leavesRows leaves found rfl (by decide) (by decide)

/-- Four sales that meet two prices each fill two windows. -/
theorem foursPipeline_isAligned {actions : List Action}
    (inputs_eq : foursPipeline.inputs actions =
      [0, 1, 2, 3].map (Tuple.ofInts goodsSchema [1])) :
    foursPipeline.IsAligned twoPrices (foursPipeline.inputs actions) 1 := by
  have twice : ∀ time ∈ [0, 1, 2, 3],
      (foursPipeline.meetingsOf twoPrices (.ofInts goodsSchema [1] time)).length = 2 := by decide
  rw [inputs_eq]
  exact Pipeline.isAligned_of_dvd (List.forall_mem_map.mpr twice) (by decide)

set_option maxRecDepth 10000 in
/-- If each sale meets three prices, the second window begins with the last price of the first sale,
which was also in the first window. If each sale meets two prices, windows end between sales. -/
theorem foursLocked_means_of_meetings :
    foursPipeline.TransactsIn foursLocked ∧
      (∀ action ∈ threePricesLoading, action.ChangesRelations) ∧
      (∀ action ∈ threeSales, foursPipeline.Allows action) ∧
      foursPipeline.Streams (arrivalsAt foursPipeline.source.id threeSales) ∧
      foursPipeline.KeepsRows foursLocked threePricesLoading threeSales threePrices ∧
      (dataOf (foursLocked.sentBy 2 (threePricesLoading ++ threeSales))).length = 2 ∧
      foursPipeline.transactionStart threePrices (foursPipeline.inputs threeSales) 1 1 = 3 ∧
      (∃ read : Nat → Snapshot,
        (∀ transaction,
          foursPipeline.Shown foursLocked threePricesLoading threeSales (read transaction)) ∧
          ∀ number result,
            (dataOf (foursLocked.sentBy foursPipeline.mean.id
              (threePricesLoading ++ threeSales)))[number]? = some result →
              foursPipeline.IsMeanFrom threePrices (foursPipeline.inputs threeSales)
                (read (number / foursLocked.config.jointCount)).version
                (foursPipeline.transactionStart threePrices (foursPipeline.inputs threeSales)
                    foursLocked.config.jointCount (number / foursLocked.config.jointCount) +
                  number % foursLocked.config.jointCount * foursPipeline.window.width) result ∧
                (foursPipeline.IsAligned threePrices (foursPipeline.inputs threeSales)
                    foursLocked.config.jointCount →
                  foursPipeline.IsMeanFrom threePrices (foursPipeline.inputs threeSales)
                    (read (number / foursLocked.config.jointCount)).version
                    (number * foursPipeline.window.width) result)) ∧
      (∀ action ∈ twoPricesLoading, action.ChangesRelations) ∧
      (∀ action ∈ fourSales, foursPipeline.Allows action) ∧
      foursPipeline.Streams (arrivalsAt foursPipeline.source.id fourSales) ∧
      foursPipeline.KeepsRows foursLocked twoPricesLoading fourSales twoPrices ∧
      foursPipeline.IsAligned twoPrices (foursPipeline.inputs fourSales)
        foursLocked.config.jointCount ∧
      (dataOf (foursLocked.sentBy 2 (twoPricesLoading ++ fourSales))).length = 2 ∧
      ∃ read : Nat → Snapshot,
        ∀ number result,
          (dataOf (foursLocked.sentBy foursPipeline.mean.id
            (twoPricesLoading ++ fourSales)))[number]? = some result →
            foursPipeline.IsMeanFrom twoPrices (foursPipeline.inputs fourSales)
              (read (number / foursLocked.config.jointCount)).version
              (number * foursPipeline.window.width) result := by
  have transacts : foursPipeline.TransactsIn foursLocked := ⟨⟨rfl, rfl⟩, rfl, rfl⟩
  have changes : ∀ action ∈ threePricesLoading, action.ChangesRelations := by decide
  have allowed : ∀ action ∈ threeSales, foursPipeline.Allows action := by decide
  have two_change : ∀ action ∈ twoPricesLoading, action.ChangesRelations := by decide
  have four_allowed : ∀ action ∈ fourSales, foursPipeline.Allows action := by decide
  have four_stream : foursPipeline.Streams (arrivalsAt foursPipeline.source.id fourSales) :=
    ⟨foursPipeline.feeds_sales [0, 1, 2, 3] rfl (by decide) (by decide), by decide⟩
  have aligned : foursPipeline.IsAligned twoPrices (foursPipeline.inputs fourSales)
      foursLocked.config.jointCount := foursPipeline_isAligned rfl
  obtain ⟨read, _, means⟩ := pessimistic_means_of_meetings foursLocked transacts two_change
    four_allowed four_stream foursPipeline_keepsTwoRows
  exact ⟨transacts, changes, allowed, foursPipeline_streams, foursPipeline_keepsRows,
    by decide +kernel, by decide,
    pessimistic_means_of_meetings foursLocked transacts changes allowed foursPipeline_streams
      foursPipeline_keepsRows,
    two_change, four_allowed, four_stream, foursPipeline_keepsTwoRows, aligned, by decide +kernel,
    read, fun number result found => (means number result found).2 aligned⟩

/-- The operators of the means over two priced sales. -/
def pairsPipeline : Pipeline :=
  { slidingPipeline with window := .rows 2 2 }

/-- One sale, which meets three prices. -/
def oneSale : List Action :=
  .arrive 0 (.ofInts goodsSchema [1] 0) :: List.replicate 30 .wakeUp

set_option maxRecDepth 10000 in
/-- A window ends within the meetings of the only sale, and its result is sent again and again. -/
theorem meetings_repeated :
    pairsPipeline.TransactsIn pairsLocked ∧
      (∀ action ∈ threePricesLoading, action.ChangesRelations) ∧
      (∀ action ∈ oneSale, pairsPipeline.Allows action) ∧
      pairsPipeline.Streams (arrivalsAt pairsPipeline.source.id oneSale) ∧
      pairsPipeline.KeepsRows pairsLocked threePricesLoading oneSale threePrices ∧
      (pairsPipeline.meetings threePrices (pairsPipeline.inputs oneSale)).length = 3 ∧
      ¬(dataOf (pairsLocked.sentBy pairsPipeline.mean.id
          (threePricesLoading ++ oneSale))).length ≤
        (pairsPipeline.meetings threePrices (pairsPipeline.inputs oneSale)).length /
          pairsPipeline.window.width := by
  have leaves : ∀ action ∈ oneSale, action.LeavesRows := by
    simp [oneSale, Action.LeavesRows]
  have found : (pairsLocked.run threePricesLoading).world.relation?
      pairsPipeline.reference.place = some threePricesRelation := rfl
  have keeps : pairsPipeline.KeepsRows pairsLocked threePricesLoading oneSale threePrices :=
    .of_leavesRows leaves found rfl (by decide) (by decide)
  exact ⟨⟨⟨rfl, rfl⟩, rfl, rfl⟩, by decide, by decide,
    ⟨pairsPipeline.feeds_sales [0] rfl (by decide) (by decide), by decide⟩, keeps, by decide,
    by decide +kernel⟩

end StreamQuery
