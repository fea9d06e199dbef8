import StreamQuery.Proofs.Isolation
import StreamQuery.Proofs.Pipeline
import StreamQuery.Proofs.Relation.Kept

/-!
# Reads of pipelines

Under control that prevents conflicts, the first read of a transaction shows the relation as it is
at that moment, and the other reads show the same until the transaction ends.
-/

namespace StreamQuery

namespace World

/-- A relation that can be read under a protocol: what it is now and what transactions keep of it
are versions that it has shown. -/
structure Offers (mode : Mode) (place : Nat) (shown : Snapshot → Prop) (world : World) : Prop where
  /-- Reads follow the protocol. -/
  mode_eq : world.catalog.access.mode = mode
  /-- Locks and copies are in order. -/
  coherent : world.catalog.IsCoherent
  /-- The current version is shown. -/
  current : ∃ relation, world.relation? place = some relation ∧ shown relation.snapshot
  /-- A version that is kept was shown. -/
  kept : ∀ snapshot, world.catalog.kept? place = some snapshot → shown snapshot

namespace Offers

variable {mode : Mode} {place : Nat} {shown : Snapshot → Prop} {world after : World}

theorem of_catalog_eq (offers : world.Offers mode place shown)
    (same : after.catalog = world.catalog) : after.Offers mode place shown := by
  obtain ⟨mode_eq, coherent, current, kept⟩ := offers
  rw [relation?, ← same] at current
  rw [← same] at mode_eq coherent kept
  exact ⟨mode_eq, coherent, current, kept⟩

/-- A read shows what is kept, or the current version, and from then on this version is kept. -/
theorem exists_read (offers : world.Offers mode place shown)
    (pessimistic : mode.isPessimistic = true) :
    ∃ relation snapshot catalog, world.relation? place = some relation ∧ relation.id = place ∧
      world.catalog.readRelation place relation = (snapshot, catalog) ∧ shown snapshot ∧
      (∀ kept, world.catalog.kept? place = some kept → snapshot = kept) ∧
      ∀ after : World, after.catalog = catalog →
        after.Offers mode place shown ∧ after.catalog.kept? place = some snapshot := by
  obtain ⟨relation, found, current⟩ := offers.current
  have id_eq := offers.coherent.id_eq place relation found
  obtain ⟨snapshot, catalog, read⟩ :
      ∃ snapshot catalog, world.catalog.readRelation place relation = (snapshot, catalog) :=
    ⟨_, _, rfl⟩
  have pessimistic_access : world.catalog.access.mode.isPessimistic = true :=
    offers.mode_eq ▸ pessimistic
  have spec := Catalog.readRelation_spec offers.coherent pessimistic_access found read
  obtain ⟨snapshot_eq, kept_after⟩ :=
    Catalog.readRelation_kept? offers.coherent.holdsLocks pessimistic_access found read
  rw [id_eq] at snapshot_eq kept_after
  have is_shown : shown snapshot := by
    rw [snapshot_eq]
    cases kept : world.catalog.kept? place with
    | none => exact current
    | some kept_snapshot => exact offers.kept kept_snapshot kept
  refine ⟨relation, snapshot, catalog, found, id_eq, read, is_shown, fun kept found_kept => ?_,
    fun after same => ?_⟩
  · rw [snapshot_eq, found_kept]
    rfl
  · subst same
    have agrees := world.catalog.readRelation_agrees place relation
    rw [read] at agrees
    obtain ⟨later, later_found, unlocked_eq⟩ := agrees.exists_relation found
    refine ⟨⟨spec.mode.trans offers.mode_eq, spec.coherent, ⟨later, later_found, ?_⟩,
      fun kept found_kept => ?_⟩, kept_after⟩
    · rwa [Relation.snapshot_eq unlocked_eq]
    · obtain rfl := Option.some.inj (kept_after.symm.trans found_kept)
      exact is_shown

/-- As long as one version is shown, every read shows it. -/
theorem exists_constant_read {snapshot : Snapshot}
    (offers : world.Offers mode place (· = snapshot)) :
    ∃ relation catalog, world.relation? place = some relation ∧ relation.id = place ∧
      world.catalog.readRelation place relation = (snapshot, catalog) ∧
      ∀ after : World, after.catalog = catalog → after.Offers mode place (· = snapshot) := by
  cases pessimistic : mode.isPessimistic with
  | true =>
      obtain ⟨relation, _, catalog, found, id_eq, read, rfl, _, next⟩ :=
        offers.exists_read pessimistic
      exact ⟨relation, catalog, found, id_eq, read, fun after same => (next after same).1⟩
  | false =>
      obtain ⟨relation, found, rfl⟩ := offers.current
      refine ⟨relation, world.catalog, found, offers.coherent.id_eq place relation found, ?_,
        fun after same => offers.of_catalog_eq same⟩
      rw [Catalog.readRelation, offers.mode_eq]
      cases mode <;> first | rfl | cases pessimistic

/-- After the end of a transaction nothing is kept, or the current version. -/
theorem endTransactionAt (offers : world.Offers mode place shown)
    (pessimistic : mode.isPessimistic = true)
    (same : after.catalog = world.catalog.endTransactionAt place mode) :
    after.Offers mode place shown := by
  obtain ⟨relation, found, current⟩ := offers.current
  obtain rfl := offers.mode_eq
  have agrees := world.catalog.endTransactionAt_agrees place world.catalog.access.mode
  obtain ⟨coherent, mode_eq, _⟩ :=
    Catalog.endTransactionAt_spec offers.coherent pessimistic place
  obtain ⟨later, later_found, unlocked_eq⟩ := agrees.exists_relation found
  rw [← same] at coherent mode_eq later_found
  refine ⟨mode_eq, coherent, ⟨later, later_found, ?_⟩, fun snapshot kept => ?_⟩
  · rwa [Relation.snapshot_eq unlocked_eq]
  · have id_eq := offers.coherent.id_eq place relation found
    have ended := Catalog.endTransactionAt_kept? found
    rw [same] at kept
    rw [id_eq] at ended
    rcases ended with none_kept | current_kept
    · rw [none_kept] at kept
      cases kept
    · obtain rfl := Option.some.inj (current_kept.symm.trans kept)
      exact current

/-- A change from outside leaves what transactions have read. -/
theorem changeRelation_kept? (offers : world.Offers mode place shown) (changed : Nat)
    (change : Relation → Relation) :
    (world.changeRelation changed change).catalog.kept? place = world.catalog.kept? place :=
  Catalog.modify_kept? offers.coherent.holdsLocks (fun _ locked => if_pos locked) place

/-- A change from outside takes place only while nothing is locked. -/
theorem changeRelation (offers : world.Offers mode place shown) {changed : Nat}
    {change : Relation → Relation}
    (grows : ∀ relation : Relation, relation.Becomes (change relation))
    (still_shown : ∀ relation,
      (world.changeRelation changed change).relation? place = some relation →
        shown relation.snapshot) :
    (world.changeRelation changed change).Offers mode place shown := by
  obtain ⟨relation, found, _⟩ := offers.current
  refine ⟨offers.mode_eq, offers.coherent.modify_unlocked grows changed, ?_,
    fun snapshot kept => ?_⟩
  · rcases World.changeRelation_relation? found changed change with kept | ⟨_, became⟩
    · exact ⟨relation, kept, still_shown relation kept⟩
    · exact ⟨change relation, became, still_shown _ became⟩
  · exact offers.kept snapshot ((offers.changeRelation_kept? changed change).symm.trans kept)

end Offers

end World

namespace Pipeline

/-- The pipeline reads one relation, so that its transaction is the only one that ends. -/
theorem IsPlanOf.endTransaction_catalog {pipeline : Pipeline} {deployment : Deployment}
    (plan : pipeline.IsPlanOf deployment) (execution : Execution) (waiting : Int) :
    (deployment.schedule.endTransaction execution waiting).world.catalog =
      execution.world.catalog.endTransactionAt pipeline.reference.place
        deployment.config.mode := by
  rw [Schedule.endTransaction]
  simp only [plan.replaysArea, if_true, Schedule.restartArea, Schedule.modifyInlets,
    World.restart_catalog, World.modifyOutputs_catalog, plan.order_eq, deployment.mode_eq]
  rfl

end Pipeline

end StreamQuery
