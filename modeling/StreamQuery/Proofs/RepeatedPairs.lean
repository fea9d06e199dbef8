import StreamQuery.Proofs.Confluence.Runs
import StreamQuery.Proofs.EndOfStream

/-!
# Repeated pairs

Under optimistic control, where a stream is matched with a relation and joined with another stream
before means are taken, a pair of tuples can go into two committed windows. It does so only after a
redo, and only if neither of its tuples is older than the mark of the first commit: what joined
tuples bear as their low-water mark is that of the whole windows they were joined in, so that a
commit need not take the tuples of a committed pair out of the backups.
-/

namespace StreamQuery

namespace Confluence

variable {plan : Confluence} {deployment : Deployment} {loading actions : List Action}

/-- A pair of a committed window is in a later window only if both its tuples are from the mark of
the commit on, and if a window with mixed versions was completed in between. -/
theorem pairs_repeat_by_redo (runs : plan.RunsIn deployment)
    (changes : ∀ action ∈ loading, action.ChangesRelations)
    (allowed : ∀ action ∈ actions, plan.Allows action)
    (leaves : ∀ action ∈ actions, action.LeavesRows) {relation : Relation}
    (found : (deployment.run loading).world.relation? plan.reference.place = some relation)
    (supplies : plan.Supplies relation.rows (arrivalsAt plan.left.id actions)
      (arrivalsAt plan.right.id actions)) :
    RepeatsByRedo (deployment.trace (loading ++ actions)) := by
  obtain ⟨course, reaches⟩ := reaches_of_run runs changes allowed leaves found supplies
  exact reaches.accounts.repeats

end Confluence

/-- No pair of times goes into two committed windows. -/
def CommitsOnce (log : List Firing) : Prop :=
  ∀ (i j : Nat) (first second : Firing) (window other : Contents), i < j →
    log[i]? = some first → log[j]? = some second → first.Commits window → second.Commits other →
      ∀ earlier ∈ window.tuples, ∀ later ∈ other.tuples,
        earlier.lineage.arrivals ≠ later.lineage.arrivals

/-- What a firing completes: the times that went into each window, and the number of results. -/
def Firing.digest (firing : Firing) : List (List (List Int)) × Nat :=
  (firing.windows.map fun window => window.tuples.map (·.lineage.arrivals), firing.sent.length)

/-- A commit is recognised by one window and one result. -/
theorem Firing.exists_commits {log : List Firing} {i : Nat} {pairs : List (List Int)}
    (found : log[i]?.map Firing.digest = some ([pairs], 1)) :
    ∃ firing window, log[i]? = some firing ∧ firing.Commits window ∧
      ∀ pair ∈ pairs, ∃ tuple ∈ window.tuples, tuple.lineage.arrivals = pair := by
  obtain ⟨firing, firing_found, digest_eq⟩ := Option.map_eq_some_iff.mp found
  obtain ⟨windows_eq, sent_eq⟩ := Prod.mk.inj digest_eq
  obtain ⟨window, single, pairs_eq⟩ := List.map_eq_singleton_iff.mp windows_eq
  refine ⟨firing, window, firing_found, ⟨single, fun nothing => ?_⟩, fun pair member => ?_⟩
  · rw [nothing] at sent_eq
    cases sent_eq
  · exact List.mem_map.mp (pairs_eq ▸ member)

/-! ## Offers of matched sales -/

/-- Means over pairs of sales and offers, after the sales were matched with their prices. -/
def pairedOffers : Deployment :=
  (Deployment.ofDeclarations?
    [.relation { name := "prices", schema := priceSchema },
      .operator "sales" (.stream goodsSchema),
      .operator "offers" (.stream offerSchema),
      .operator "priced" (.combine "sales" "prices" (.attributes "goods" .equal "id")),
      .operator "paired" (.join "priced" (.rows 2 2) "offers" (.rows 1 1) .always),
      .operator "mean" (.mean "paired" "goods" (.rows 2 2))]
    "mean" (.ofMode .optimistic)).get (by decide)

/-- The operators of the means over pairs. -/
def pairedConfluence : Confluence where
  left := { id := 0, name := "sales", schema := goodsSchema }
  combine := { id := 2, name := "priced", schema := goodsSchema ++ priceSchema }
  right := { id := 1, name := "offers", schema := offerSchema }
  join :=
    { id := 3, name := "paired", schema := goodsSchema ++ priceSchema ++ offerSchema }
  mean := { id := 4, name := "mean", schema := ⟨[{ name := "goods", type := .float }]⟩ }
  reference := { place := 0, name := "prices" }
  condition := .attributes "goods" .equal "id"
  logic := { leftWindow := .rows 2 2, rightWindow := .rows 1 1, condition := .always }
  window := .rows 2 2
  index := 0

/-- Four prices. -/
def pairedLoading : List Action :=
  [.load 0 (.ofInts priceSchema [1, 10] 0), .load 0 (.ofInts priceSchema [2, 20] 0),
    .load 0 (.ofInts priceSchema [3, 30] 0), .load 0 (.ofInts priceSchema [4, 40] 0)]

/-- The version of the relation changes between the third sale and the fourth. -/
def pairedActions : List Action :=
  [.setBatchCount 10, .arrive 0 (.ofInts goodsSchema [1] 0), .arrive 0 (.ofInts goodsSchema [2] 1),
      .arrive 1 (.ofInts offerSchema [7] 2)] ++
    List.replicate 5 .wakeUp ++ [.arrive 0 (.ofInts goodsSchema [3] 3)] ++
    List.replicate 5 .wakeUp ++ [.update 0 id, .arrive 0 (.ofInts goodsSchema [4] 4)] ++
    List.replicate 10 .wakeUp

theorem pairedConfluence_runsIn : pairedConfluence.RunsIn pairedOffers :=
  ⟨rfl, rfl, ⟨rfl, rfl⟩, ⟨rfl, rfl⟩, ⟨rfl, rfl⟩⟩

/-- The prices as a relation. -/
def pairedPrices : Relation :=
  { id := 0
    name := "prices"
    schema := priceSchema
    rows := [.ofInts priceSchema [1, 10] 0, .ofInts priceSchema [2, 20] 0,
      .ofInts priceSchema [3, 30] 0, .ofInts priceSchema [4, 40] 0] }

theorem pairedOffers_found : (pairedOffers.run pairedLoading).world.relation?
    pairedConfluence.reference.place = some pairedPrices :=
  rfl

theorem pairedActions_allowed : ∀ action ∈ pairedActions, pairedConfluence.Allows action := by
  decide

theorem pairedActions_leave : ∀ action ∈ pairedActions, action.LeavesRows := by
  simp [pairedActions, Action.LeavesRows]

theorem pairedActions_supplies : pairedConfluence.Supplies pairedPrices.rows
    (arrivalsAt pairedConfluence.left.id pairedActions)
    (arrivalsAt pairedConfluence.right.id pairedActions) :=
  ⟨⟨by decide, by decide⟩, ⟨by decide, by decide⟩, by decide⟩

set_option maxRecDepth 10000 in
/-- The second sale is in both committed windows, with the same offer. -/
theorem pairedOffers_digests :
    (pairedOffers.trace (pairedLoading ++ pairedActions))[12]?.map Firing.digest =
        some ([[[0, 2], [1, 2]]], 1) ∧
      (pairedOffers.trace (pairedLoading ++ pairedActions))[41]?.map Firing.digest =
        some ([[[1, 2], [3, 2]]], 1) := by
  decide +kernel

/-- The pair that is repeated is not older than the mark, and there was a redo in between. -/
theorem pairedOffers_pairs_repeat_by_redo :
    (pairedConfluence.RunsIn pairedOffers ∧
      (∀ action ∈ pairedLoading, action.ChangesRelations) ∧
      (∀ action ∈ pairedActions, pairedConfluence.Allows action) ∧
      (∀ action ∈ pairedActions, action.LeavesRows) ∧
      (pairedOffers.run pairedLoading).world.relation? pairedConfluence.reference.place =
        some pairedPrices ∧
      pairedConfluence.Supplies pairedPrices.rows
        (arrivalsAt pairedConfluence.left.id pairedActions)
        (arrivalsAt pairedConfluence.right.id pairedActions)) ∧
      ∃ first window,
        (pairedOffers.trace (pairedLoading ++ pairedActions))[12]? = some first ∧
          first.Commits window ∧ window.mark ≤ 1 ∧ ∃ k mixed, 12 < k ∧ k < 41 ∧
            (pairedOffers.trace (pairedLoading ++ pairedActions))[k]? = some mixed ∧
              mixed.Mixes := by
  have changes : ∀ action ∈ pairedLoading, action.ChangesRelations := by decide
  refine ⟨⟨pairedConfluence_runsIn, changes, pairedActions_allowed, pairedActions_leave,
    pairedOffers_found, pairedActions_supplies⟩, ?_⟩
  obtain ⟨first, window, first_found, commits, in_first⟩ :=
    Firing.exists_commits pairedOffers_digests.1
  obtain ⟨second, other, second_found, completes, in_second⟩ :=
    Firing.exists_commits pairedOffers_digests.2
  obtain ⟨earlier, earlier_mem, earlier_eq⟩ := in_first [1, 2] (by decide)
  obtain ⟨later, later_mem, later_eq⟩ := in_second [1, 2] (by decide)
  obtain ⟨times, redone⟩ := Confluence.pairs_repeat_by_redo pairedConfluence_runsIn changes
    pairedActions_allowed pairedActions_leave pairedOffers_found pairedActions_supplies 12 41
    first second window other (by decide) first_found second_found commits
    (completes.windows_eq ▸ List.mem_singleton_self _) earlier earlier_mem later later_mem
    (earlier_eq.trans later_eq.symm)
  rw [later_eq] at times
  exact ⟨first, window, first_found, commits, times 1 (by decide), redone⟩

/-- Everything arrives in order and the rows stay as they are, but the pair of the second sale and
the offer goes into two committed windows. -/
theorem pair_committed_twice :
    pairedConfluence.RunsIn pairedOffers ∧
      (∀ action ∈ pairedLoading, action.ChangesRelations) ∧
      (∀ action ∈ pairedActions, pairedConfluence.Allows action) ∧
      (∀ action ∈ pairedActions, action.LeavesRows) ∧
      (pairedActions.filterMap fun action => (action.arrival? pairedConfluence.left.id).or
        (action.arrival? pairedConfluence.right.id)).Pairwise Tuple.ComesBefore ∧
      pairedConfluence.Supplies pairedPrices.rows
        (arrivalsAt pairedConfluence.left.id pairedActions)
        (arrivalsAt pairedConfluence.right.id pairedActions) ∧
      ¬CommitsOnce (pairedOffers.trace (pairedLoading ++ pairedActions)) := by
  refine ⟨pairedConfluence_runsIn, by decide, pairedActions_allowed, pairedActions_leave, by decide,
    pairedActions_supplies, fun once => ?_⟩
  obtain ⟨first, window, first_found, commits, in_first⟩ :=
    Firing.exists_commits pairedOffers_digests.1
  obtain ⟨second, other, second_found, completes, in_second⟩ :=
    Firing.exists_commits pairedOffers_digests.2
  obtain ⟨earlier, earlier_mem, earlier_eq⟩ := in_first [1, 2] (by decide)
  obtain ⟨later, later_mem, later_eq⟩ := in_second [1, 2] (by decide)
  exact once 12 41 first second window other (by decide) first_found second_found commits completes
    earlier earlier_mem later later_mem (earlier_eq.trans later_eq.symm)

end StreamQuery
