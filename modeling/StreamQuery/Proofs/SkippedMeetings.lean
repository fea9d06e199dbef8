import StreamQuery.Proofs.Pipeline.BlockHistory
import StreamQuery.Proofs.Pipeline.HistoryRuns
import StreamQuery.Proofs.RepeatedMeetings

/-!
# Meetings that are left out

Under optimistic control, a commit takes inputs out of the backup as a whole: if a block ends among
the meetings of an input and the next one is found to be mixed, it is evaluated again from the next
input on, and the rest of the meetings is left out. Where blocks end between inputs, no meeting is.
-/

namespace StreamQuery

namespace Pipeline

variable {pipeline : Pipeline} {deployment : Deployment} {loading actions : List Action}
  {shown : Snapshot → Prop} {rows inputs arrived results : List Tuple} {line : Line}

/-- A pipeline that has sent the results of some blocks and awaits the next one. -/
def TakesBlocks (pipeline : Pipeline) (shown : Snapshot → Prop) (rows arrived results : List Tuple)
    (line : Line) : Prop :=
  ∃ read position, (∀ time, shown (read time)) ∧
    pipeline.Blocks shown rows (dataOf arrived) results position ∧
    line.Awaits pipeline rows (dataOf arrived) read position

namespace TakesBlocks

theorem arrive (takes : pipeline.TakesBlocks shown rows arrived results line) {tuple : Tuple}
    (feeds : pipeline.Feeds (dataOf (arrived ++ [tuple]))) :
    pipeline.TakesBlocks shown rows (arrived ++ [tuple]) results
      { line with arrivals := line.arrivals ++ [tuple] } := by
  obtain ⟨read, position, all_shown, blocks, awaits⟩ := takes
  refine ⟨read, position, all_shown, dataOf_append arrived [tuple] ▸ blocks.append _, ?_⟩
  cases is_marker : tuple.isEndOfStream with
  | true =>
      rw [dataOf_append_of_marker _ is_marker]
      exact awaits.arrive_marker is_marker
  | false =>
      rw [dataOf_append, dataOf_cons_of_data is_marker, dataOf_nil] at feeds ⊢
      exact awaits.arrive_data is_marker feeds

/-- A pipeline continues to take blocks, whatever happens. -/
theorem upholds {snapshot : Snapshot} (meets : pipeline.Meets shown rows (dataOf arrived))
    (shown_now : shown snapshot) :
    pipeline.Upholds snapshot (pipeline.TakesBlocks shown rows arrived) := by
  constructor
  case collect =>
    rintro results line ⟨read, position, all_shown, blocks, awaits⟩ waiting
    exact ⟨read, position, all_shown, blocks, awaits.collect waiting⟩
  case pass =>
    rintro results line tuple rest ⟨read, position, all_shown, blocks, awaits⟩ arrivals_eq
    exact ⟨read, position, all_shown, blocks, awaits.pass arrivals_eq⟩
  case match_marker =>
    rintro results line tuple rest ⟨read, position, all_shown, blocks, awaits⟩ queue_eq is_marker
    exact ⟨read, position, all_shown, blocks, awaits.match_marker queue_eq is_marker⟩
  case match_data =>
    rintro results line tuple rest ⟨read, position, all_shown, blocks, awaits⟩ queue_eq is_data
    refine ⟨_, meets.matched snapshot shown_now tuple (awaits.mem_inputs queue_eq is_data),
      Function.update read tuple.lowWater snapshot, position, fun time => ?_, blocks,
      awaits.match_data meets.feeds queue_eq is_data snapshot⟩
    rw [Function.update_apply]
    split
    · exact shown_now
    · exact all_shown time
  case skip_marker =>
    rintro results line tuple rest ⟨read, position, all_shown, blocks, awaits⟩ matched_eq is_marker
    exact ⟨read, position, all_shown, blocks, awaits.skip_marker matched_eq is_marker⟩
  case remember =>
    rintro results line tuple rest ⟨read, position, all_shown, blocks, awaits⟩ matched_eq is_data
      none_reported
    exact ⟨read, position, all_shown, blocks,
      awaits.remember matched_eq is_data none_reported⟩
  case redo =>
    rintro results line tuple rest ⟨read, position, all_shown, blocks, awaits⟩ matched_eq is_data
      reported mixed
    obtain ⟨_, _, _, fulfils⟩ := awaits.exists_fulfils matched_eq is_data reported
    exact ⟨read, _, all_shown, blocks.skip, fulfils.redo awaits meets.feeds mixed⟩
  case commit =>
    rintro results line tuple rest ⟨read, position, all_shown, blocks, awaits⟩ matched_eq is_data
      reported consistent
    obtain ⟨_, _, _, fulfils⟩ := awaits.exists_fulfils matched_eq is_data reported
    obtain ⟨result, computed, snapshot, is_shown, is_mean⟩ :=
      fulfils.exists_isMeanFrom meets all_shown consistent
    exact ⟨result, computed, read, _, all_shown, blocks.block is_shown is_mean,
      fulfils.commit awaits meets.feeds⟩

end TakesBlocks

/-! ## Runs -/

theorem KeepsRows.meets (keeps : pipeline.KeepsRows deployment loading actions rows)
    (planned : pipeline.PlannedIn deployment) (feeds : pipeline.Feeds (pipeline.inputs actions)) :
    pipeline.Meets (pipeline.Shown deployment loading actions) rows (pipeline.inputs actions) := by
  have matched (snapshot : Snapshot) (is_shown : pipeline.Shown deployment loading actions snapshot)
      (input : Tuple) (member : input ∈ pipeline.inputs actions) :
      matchSnapshot pipeline.condition pipeline.combine.schema pipeline.reference.place snapshot
        input = .ok ((pipeline.meetingsOf rows input).map (pipeline.joined snapshot.version)) := by
    obtain rfl := keeps.rows_eq snapshot is_shown
    exact matchSnapshot_eq_meetingsOf (keeps.checks input member)
  refine ⟨feeds, matched, fun snapshot is_shown meeting member => ?_⟩
  obtain ⟨input, input_mem, met⟩ := List.mem_flatMap.mp member
  refine (keeps.answers planned feeds is_shown input input_mem).numeric _ ?_
  rw [matchesOf_eq (matched snapshot is_shown input input_mem)]
  exact List.mem_map_of_mem met

/-- Throughout a run a pipeline takes blocks. -/
theorem takesBlocks_of_run (runs : pipeline.RunsIn deployment)
    (tumbling : pipeline.window.stride = pipeline.window.width)
    (changes : ∀ action ∈ loading, action.ChangesRelations)
    (allowed : ∀ action ∈ actions, pipeline.Allows action)
    (meets : pipeline.Meets (pipeline.Shown deployment loading actions) rows
      (pipeline.inputs actions)) :
    pipeline.History
      (pipeline.TakesBlocks (pipeline.Shown deployment loading actions) rows
        (arrivalsAt pipeline.source.id actions))
      (deployment.trace (loading ++ actions)) (deployment.run (loading ++ actions)).world := by
  have meets_earlier {first : List Tuple}
      (is_first : first <+: arrivalsAt pipeline.source.id actions) :
      pipeline.Meets (pipeline.Shown deployment loading actions) rows (dataOf first) := by
    obtain ⟨later, later_eq⟩ := is_first
    refine meets.of_prefix ⟨dataOf later, ?_⟩
    rw [← dataOf_append, later_eq, inputs]
  obtain ⟨declared, declared_eq, _⟩ := deployment.isTyped runs.plannedIn.isPlan.mem_postOrder.1
  obtain ⟨loaded, found, _⟩ := Deployment.run_relation? declared_eq (loading ++ [])
  have loaded_shown : pipeline.Shown deployment loading actions loaded.snapshot :=
    shown_of_relation? List.nil_prefix found
  refine history_of_run runs changes allowed
    ⟨fun _ => loaded.snapshot, 0, fun _ => loaded_shown, .none, .start tumbling rows _⟩
    (fun arrived tuple results line is_first takes => takes.arrive (meets_earlier is_first).feeds)
    (fun earlier is_earlier relation relation_found => ?_) List.prefix_rfl
  exact TakesBlocks.upholds (meets_earlier (is_earlier.filterMap _))
    (shown_of_relation? is_earlier relation_found)

/-- Where blocks end between inputs, none is left out. -/
theorem starts_of_isAligned (aligned : pipeline.IsAligned rows inputs 1) {starts : Nat → Nat}
    {count : Nat} (starts_zero : starts 0 = 0)
    (inside : ∀ number < count,
      starts number + pipeline.window.width ≤ (pipeline.meetings rows inputs).length)
    (next_start : ∀ number < count,
      starts (number + 1) = starts number + pipeline.window.width ∨
        starts (number + 1) = nextBoundary (pipeline.meetingCounts rows inputs)
          (starts number + pipeline.window.width)) :
    ∀ number ≤ count, starts number = number * pipeline.window.width := by
  intro number
  induction number with
  | zero => exact fun _ => by rw [starts_zero, Nat.zero_mul]
  | succ number induction =>
      intro within
      have start_eq := induction (Nat.le_of_succ_le within)
      have boundary := aligned (number + 1)
      have end_le := inside number within
      rw [Nat.one_mul, Nat.add_one_mul] at boundary
      rw [Nat.add_one_mul]
      rw [start_eq] at end_le
      rcases next_start number within with next_eq | next_eq
      · rw [next_eq, start_eq]
      · rw [next_eq, start_eq, (boundary end_le).nextBoundary_eq]

end Pipeline

/-- Under optimistic control, the data that a mean over a matched stream has sent are the means of
blocks of meetings, in order and without overlap. Each block begins where the one before ends, or
where the next input begins. If each block ends between inputs, the blocks are therefore
consecutive, and no meeting is left out. -/
theorem optimistic_means_of_meetings (deployment : Deployment) {pipeline : Pipeline}
    (runs : pipeline.RunsIn deployment)
    (tumbling : pipeline.window.stride = pipeline.window.width) {loading actions : List Action}
    (changes : ∀ action ∈ loading, action.ChangesRelations)
    (allowed : ∀ action ∈ actions, pipeline.Allows action)
    (feeds : pipeline.Feeds (pipeline.inputs actions)) {rows : List Tuple}
    (keeps : pipeline.KeepsRows deployment loading actions rows) :
    ∃ starts : Nat → Nat, starts 0 = 0 ∧
      ∀ number result,
        (dataOf (deployment.sentBy pipeline.mean.id (loading ++ actions)))[number]? =
          some result →
          (∃ snapshot, pipeline.Shown deployment loading actions snapshot ∧
            pipeline.IsMeanFrom rows (pipeline.inputs actions) snapshot.version (starts number)
              result) ∧
          starts number + pipeline.window.width ≤ starts (number + 1) ∧
          (starts (number + 1) = starts number + pipeline.window.width ∨
            starts (number + 1) =
              nextBoundary (pipeline.meetingCounts rows (pipeline.inputs actions))
                (starts number + pipeline.window.width)) ∧
          (pipeline.IsAligned rows (pipeline.inputs actions) 1 →
            starts number = number * pipeline.window.width) := by
  have meets := keeps.meets runs.plannedIn feeds
  obtain ⟨_, _, _, _, _, blocks, _⟩ :=
    Pipeline.takesBlocks_of_run runs tumbling changes allowed meets
  obtain ⟨starts, starts_zero, _, next_start, means⟩ := blocks.exists_starts
  refine ⟨starts, starts_zero, fun number result found => ?_⟩
  have sent := (List.getElem?_eq_some_iff.mp found).1
  have inside (number : Nat) (sent : number < (pipeline.results
      (deployment.trace (loading ++ actions))).length) :
      starts number + pipeline.window.width ≤
        (pipeline.meetings rows (pipeline.inputs actions)).length := by
    obtain ⟨_, _, is_mean⟩ := means number _ (List.getElem?_eq_getElem sent)
    exact is_mean.end_le
  have next_eq := next_start number sent
  refine ⟨means number result found, ?_, next_eq, fun aligned =>
    Pipeline.starts_of_isAligned aligned starts_zero inside next_start number (Nat.le_of_lt sent)⟩
  rcases next_eq with next_eq | next_eq
  · exact Nat.le_of_eq next_eq.symm
  · rw [next_eq]
    apply le_nextBoundary
    rw [← Pipeline.meetings_length]
    exact inside number sent

/-- A sale that meets three prices is followed by another one, at a new version of the same prices.
-/
def bumpedSales : List Action :=
  .arrive 0 (.ofInts goodsSchema [1] 0) :: List.replicate 9 .wakeUp ++
    [.update 0 id, .arrive 0 (.ofInts goodsSchema [1] 1)] ++ List.replicate 30 .wakeUp

theorem pairsPipeline_feeds : pairsPipeline.Feeds (pairsPipeline.inputs bumpedSales) :=
  pairsPipeline.feeds_sales [0, 1] rfl (by decide) (by decide)

theorem pairsPipeline_keepsRows :
    pairsPipeline.KeepsRows pricedOptimistic threePricesLoading bumpedSales threePrices := by
  have leaves : ∀ action ∈ bumpedSales, action.LeavesRows := by
    simp [bumpedSales, Action.LeavesRows]
  have found : (pricedOptimistic.run threePricesLoading).world.relation?
      pairsPipeline.reference.place = some threePricesRelation := rfl
  exact .of_leavesRows leaves found rfl (by decide) (by decide)

/-- Means over four sales at a time, which are redone when the prices are updated between them. -/
def foursOptimistic : Deployment :=
  (Deployment.ofDeclarations? (pricedDeclarations (.rows 4 4)) "mean" (.ofMode .optimistic)).get
    (by decide)

/-- The prices are updated, without a change, after the first of four sales. -/
def bumpedFourSales : List Action :=
  .arrive 0 (.ofInts goodsSchema [1] 0) :: List.replicate 3 .wakeUp ++
    .update 0 id :: [1, 2, 3].map (fun time => .arrive 0 (.ofInts goodsSchema [1] time)) ++
      List.replicate 36 .wakeUp

theorem foursPipeline_feeds : foursPipeline.Feeds (foursPipeline.inputs bumpedFourSales) :=
  foursPipeline.feeds_sales [0, 1, 2, 3] rfl (by decide) (by decide)

theorem foursOptimistic_keepsRows :
    foursPipeline.KeepsRows foursOptimistic twoPricesLoading bumpedFourSales twoPrices := by
  have leaves : ∀ action ∈ bumpedFourSales, action.LeavesRows := by
    simp [bumpedFourSales, Action.LeavesRows]
  have found : (foursOptimistic.run twoPricesLoading).world.relation?
      foursPipeline.reference.place = some { threePricesRelation with rows := twoPrices } := rfl
  exact .of_leavesRows leaves found rfl (by decide) (by decide)

set_option maxRecDepth 10000 in
/-- If each sale meets three prices, the second window begins with the second sale. The last price
of the first sale is left out, because the window that began with it was mixed. If each sale meets
two prices, the first window is mixed as well, but it ends between sales, and nothing is left out.
-/
theorem pricedOptimistic_means_of_meetings :
    pairsPipeline.RunsIn pricedOptimistic ∧
      pairsPipeline.window.stride = pairsPipeline.window.width ∧
      (∀ action ∈ threePricesLoading, action.ChangesRelations) ∧
      (∀ action ∈ bumpedSales, pairsPipeline.Allows action) ∧
      pairsPipeline.Feeds (pairsPipeline.inputs bumpedSales) ∧
      pairsPipeline.KeepsRows pricedOptimistic threePricesLoading bumpedSales threePrices ∧
      (pricedOptimistic.run (threePricesLoading ++ bumpedSales)).metrics.redoCount = 1 ∧
      (dataOf (pricedOptimistic.sentBy 2 (threePricesLoading ++ bumpedSales))).map
        Tuple.lowWater = [0, 1] ∧
      (∃ starts : Nat → Nat, starts 0 = 0 ∧
        ∀ number result,
          (dataOf (pricedOptimistic.sentBy pairsPipeline.mean.id
            (threePricesLoading ++ bumpedSales)))[number]? = some result →
            (∃ snapshot,
              pairsPipeline.Shown pricedOptimistic threePricesLoading bumpedSales snapshot ∧
                pairsPipeline.IsMeanFrom threePrices (pairsPipeline.inputs bumpedSales)
                  snapshot.version (starts number) result) ∧
            starts number + pairsPipeline.window.width ≤ starts (number + 1) ∧
            (starts (number + 1) = starts number + pairsPipeline.window.width ∨
              starts (number + 1) =
                nextBoundary
                  (pairsPipeline.meetingCounts threePrices (pairsPipeline.inputs bumpedSales))
                  (starts number + pairsPipeline.window.width)) ∧
            (pairsPipeline.IsAligned threePrices (pairsPipeline.inputs bumpedSales) 1 →
              starts number = number * pairsPipeline.window.width)) ∧
      foursPipeline.RunsIn foursOptimistic ∧
      foursPipeline.window.stride = foursPipeline.window.width ∧
      (∀ action ∈ twoPricesLoading, action.ChangesRelations) ∧
      (∀ action ∈ bumpedFourSales, foursPipeline.Allows action) ∧
      foursPipeline.Feeds (foursPipeline.inputs bumpedFourSales) ∧
      foursPipeline.KeepsRows foursOptimistic twoPricesLoading bumpedFourSales twoPrices ∧
      foursPipeline.IsAligned twoPrices (foursPipeline.inputs bumpedFourSales) 1 ∧
      (foursOptimistic.run (twoPricesLoading ++ bumpedFourSales)).metrics.redoCount = 1 ∧
      (dataOf (foursOptimistic.sentBy 2 (twoPricesLoading ++ bumpedFourSales))).map
        Tuple.lowWater = [0, 2] ∧
      ∀ number result,
        (dataOf (foursOptimistic.sentBy foursPipeline.mean.id
          (twoPricesLoading ++ bumpedFourSales)))[number]? = some result →
          ∃ snapshot,
            foursPipeline.Shown foursOptimistic twoPricesLoading bumpedFourSales snapshot ∧
              foursPipeline.IsMeanFrom twoPrices (foursPipeline.inputs bumpedFourSales)
                snapshot.version (number * foursPipeline.window.width) result := by
  have runs : pairsPipeline.RunsIn pricedOptimistic := ⟨rfl, rfl, rfl⟩
  have changes : ∀ action ∈ threePricesLoading, action.ChangesRelations := by decide
  have allowed : ∀ action ∈ bumpedSales, pairsPipeline.Allows action := by decide
  have fours_run : foursPipeline.RunsIn foursOptimistic := ⟨rfl, rfl, rfl⟩
  have two_change : ∀ action ∈ twoPricesLoading, action.ChangesRelations := by decide
  have four_allowed : ∀ action ∈ bumpedFourSales, foursPipeline.Allows action := by decide
  obtain ⟨starts, _, blocks⟩ := optimistic_means_of_meetings foursOptimistic fours_run rfl
    two_change four_allowed foursPipeline_feeds foursOptimistic_keepsRows
  refine ⟨runs, rfl, changes, allowed, pairsPipeline_feeds, pairsPipeline_keepsRows,
    by decide +kernel, by decide +kernel,
    optimistic_means_of_meetings pricedOptimistic runs rfl changes allowed pairsPipeline_feeds
      pairsPipeline_keepsRows,
    fours_run, rfl, two_change, four_allowed, foursPipeline_feeds, foursOptimistic_keepsRows,
    foursPipeline_isAligned rfl, by decide +kernel, by decide +kernel,
    fun number result found => ?_⟩
  obtain ⟨is_mean, _, _, start_eq⟩ := blocks number result found
  rwa [start_eq (foursPipeline_isAligned rfl)] at is_mean

set_option maxRecDepth 10000 in
/-- The second result is not the mean over the second block: it does not reach back to the first
sale, whose last price is the first member of this block. -/
theorem meetings_left_out :
    pairsPipeline.RunsIn pricedOptimistic ∧
      pairsPipeline.window.stride = pairsPipeline.window.width ∧
      (∀ action ∈ threePricesLoading, action.ChangesRelations) ∧
      (∀ action ∈ bumpedSales, pairsPipeline.Allows action) ∧
      pairsPipeline.Feeds (pairsPipeline.inputs bumpedSales) ∧
      pairsPipeline.KeepsRows pricedOptimistic threePricesLoading bumpedSales threePrices ∧
      ¬∀ number result,
        (dataOf (pricedOptimistic.sentBy pairsPipeline.mean.id
          (threePricesLoading ++ bumpedSales)))[number]? = some result →
          ∃ version, pairsPipeline.IsMeanFrom threePrices (pairsPipeline.inputs bumpedSales)
            version (number * pairsPipeline.window.width) result := by
  refine ⟨⟨rfl, rfl, rfl⟩, rfl, by decide, by decide, pairsPipeline_feeds,
    pairsPipeline_keepsRows, fun claimed => ?_⟩
  have times : (dataOf (pricedOptimistic.sentBy pairsPipeline.mean.id
      (threePricesLoading ++ bumpedSales))).map Tuple.lowWater = [0, 1] := by decide +kernel
  have second_found : ((dataOf (pricedOptimistic.sentBy pairsPipeline.mean.id
      (threePricesLoading ++ bumpedSales))).map Tuple.lowWater)[1]? = some 1 := by
    rw [times]
    rfl
  rw [List.getElem?_map] at second_found
  obtain ⟨second, found, second_time⟩ := Option.map_eq_some_iff.mp second_found
  obtain ⟨version, _, computed⟩ := claimed 1 second found
  have early : (pairsPipeline.meanOf
      ((pairsPipeline.meetingBlock threePrices (pairsPipeline.inputs bumpedSales)
        (1 * pairsPipeline.window.width)).map (pairsPipeline.joined version))).map
        Tuple.lowWater = .ok 0 := rfl
  rw [computed] at early
  have late : second.lowWater = 0 := Except.ok.inj early
  rw [second_time] at late
  cases late

end StreamQuery
