import StreamQuery.Engine.Session
import StreamQuery.Proofs.Engine.RelationUses
import StreamQuery.Proofs.Relation.Repeated
import StreamQuery.Proofs.TwoPhaseLocking

/-!
# Repeatable reads

However reads, changes from outside and ends of transactions follow one another, reads of a relation
in one transaction show the same. The locks that are held are those of the relations that were read
since their transactions ended, so that none is left when the scheduler has ended a transaction, or
was dropped.
-/

namespace StreamQuery

namespace Catalog

/-- No lock is held, and no relation is locked. -/
structure IsFree (catalog : Catalog) : Prop where
  /-- The access holds nothing. -/
  unheld : catalog.access.held = []
  /-- Nobody has locked a relation. -/
  unlocked : ∀ relation ∈ catalog.relations, relation.isLocked = false

theorem IsOrderly.isFree {catalog : Catalog} (orderly : catalog.IsOrderly)
    (unheld : catalog.access.held = []) : catalog.IsFree := by
  refine ⟨unheld, fun relation member => Bool.eq_false_iff.mpr fun locked => ?_⟩
  obtain ⟨place, found⟩ := List.getElem?_of_mem member
  have held := (orderly.locked_iff place relation found).mp locked
  rw [unheld] at held
  cases held

/-- Locks after some uses of relations. -/
structure AccountsForLocks (relations : List Relation) (mode : Mode)
    (uses : List RelationUse) : Prop where
  /-- Locks are held of the relations that were read since their transactions ended. -/
  held_iff : ∀ id, id ∈ ((opened relations mode).useAll uses).access.held.map Prod.fst ↔
    mode = .twoPhaseLocking ∧ ReadSince (opened relations mode) uses id
  /-- No lock is held twice. -/
  nodup : (((opened relations mode).useAll uses).access.held.map Prod.fst).Nodup
  /-- Those relations are locked of which a lock is held. -/
  locked_iff : ∀ (place : Nat) (relation : Relation),
    ((opened relations mode).useAll uses).relations[place]? = some relation →
    (relation.isLocked = true ↔
      ((opened relations mode).useAll uses).access.held.lookup relation.id = some place)
  /-- No read has to wait. -/
  ready : ∀ (place : Nat) (relation : Relation),
    ((opened relations mode).useAll uses).relations[place]? = some relation →
    ((opened relations mode).useAll uses).mustWait relation = false
  /-- Other protocols leave no lock. -/
  free : mode ≠ .twoPhaseLocking → ((opened relations mode).useAll uses).IsFree

theorem accountsForLocks (relations : List Relation) (mode : Mode) (uses : List RelationUse) :
    AccountsForLocks relations mode uses := by
  have orderly := (isOrderly_opened relations mode).after_useAll uses
  refine ⟨mem_held_iff_readSince relations mode uses, orderly.nodup, orderly.locked_iff,
    fun _ _ => orderly.mustWait_eq_false, fun unlocking => orderly.isFree (orderly.unheld ?_)⟩
  rw [mode_useAll]
  exact unlocking

/-- A relation is not kept if transactions have ended behind all reads of it. -/
theorem not_readSince_append {catalog : Catalog} {id : RelationId} {reads ends : List RelationUse}
    (unread : ∀ place, .read place ∉ ends)
    (ended : ∀ place, .read place ∈ reads → catalog.idAt? place = some id →
      ∃ use ∈ ends, use.Ends catalog id) : ¬ReadSince catalog (reads ++ ends) id := by
  rintro ⟨past, place, later, uses_eq, id_eq, unended⟩
  rcases List.append_eq_append_iff.mp uses_eq with ⟨rest, _, ends_eq⟩ | ⟨rest, reads_eq, later_eq⟩
  · exact unread place (by simp [ends_eq])
  · cases rest with
    | nil => exact unread place (by simp [← show _ = ends from later_eq])
    | cons first rest =>
        obtain ⟨rfl, rfl⟩ := List.cons.inj later_eq
        obtain ⟨use, member, ends_id⟩ := ended place (by simp [reads_eq]) id_eq
        exact unended use (List.mem_append_right _ member) ends_id

end Catalog

theorem not_mem_transactionEnds (operators : List QueryTree) (place : Nat) :
    .read place ∉ transactionEnds operators := by
  intro member
  obtain ⟨operator, _, end_eq⟩ := List.mem_filterMap.mp member
  obtain ⟨reference, _, same⟩ := Option.map_eq_some_iff.mp end_eq
  cases same

namespace Deployment

variable {deployment : Deployment} {actions : List Action}

theorem isOrderly_run (deployment : Deployment) (actions : List Action) :
    (deployment.run actions).world.catalog.IsOrderly := by
  rw [run_catalog]
  exact (Catalog.isOrderly_opened _ _).after_useAll _

theorem uses_append_singleton (deployment : Deployment) (actions : List Action) (action : Action) :
    deployment.uses (actions ++ [action]) =
      deployment.uses actions ++
        deployment.schedule.actionUses (deployment.run actions) action := by
  rw [uses, uses, run]
  generalize deployment.start = execution
  induction actions generalizing execution with
  | nil => exact List.append_nil _
  | cons first actions induction =>
      rw [List.cons_append, Schedule.uses, Schedule.uses, induction, List.append_assoc]
      rfl

/-- At the end of a transaction all locks are freed. -/
theorem isFree_of_ended
    (ended : (deployment.run actions).metrics.afterCommits <
      (deployment.run (actions ++ [.wakeUp])).metrics.afterCommits) :
    (deployment.run (actions ++ [.wakeUp])).world.catalog.IsFree := by
  refine (deployment.isOrderly_run _).isFree ?_
  have turn_ended : (deployment.run actions).metrics.afterCommits <
      (deployment.schedule.wakeUp (deployment.run actions)).1.metrics.afterCommits := by
    rwa [run_append_singleton] at ended
  have uses_eq : deployment.uses (actions ++ [.wakeUp]) =
      (deployment.uses actions ++
        (deployment.schedule.firings (deployment.run actions)).flatMap Firing.uses) ++
        transactionEnds deployment.schedule.order := by
    rw [uses_append_singleton, Schedule.actionUses, Schedule.turnUses, if_pos turn_ended,
      List.append_assoc]
  have unread (id : RelationId) :
      ¬ReadSince deployment.openedCatalog (deployment.uses (actions ++ [.wakeUp])) id := by
    rw [uses_eq]
    refine Catalog.not_readSince_append (not_mem_transactionEnds _) fun place member id_eq => ?_
    have in_run : .read place ∈ deployment.uses (actions ++ [.wakeUp]) := by
      rw [uses_eq]
      exact List.mem_append_left _ member
    obtain ⟨operator, operator_mem, reference, reads, rfl⟩ :=
      Schedule.exists_operator_of_read in_run
    exact ⟨.endTransaction reference.place,
      List.mem_filterMap.mpr ⟨operator, operator_mem, by rw [reads]; rfl⟩, id_eq⟩
  have no_ids : (deployment.run (actions ++ [.wakeUp])).world.catalog.access.held.map Prod.fst =
      [] := by
    refine List.eq_nil_iff_forall_not_mem.mpr fun id member => ?_
    rw [run_catalog] at member
    exact unread id ((Catalog.mem_held_iff_readSince _ _ _ id).mp member).2
  exact List.map_eq_nil_iff.mp no_ids

/-- When the scheduler is dropped, all locks are freed. -/
theorem isFree_drop (session : Session)
    (execution_eq : session.execution = deployment.run actions) :
    session.drop.execution.world.catalog.IsFree := by
  have dropped_eq : session.drop.execution.world.catalog =
      (deployment.run actions).world.catalog.releaseAll := by
    rw [← execution_eq]
    rfl
  rw [dropped_eq]
  exact (deployment.isOrderly_run actions).releaseAll.isFree rfl

end Deployment

/-- Under two-phase locking and snapshot isolation, two reads of a relation between which its
transaction does not end show the same: the rows and the version that the relation had at one
moment. Under two-phase locking the locks are held of the relations that were read since their
transactions ended; other protocols leave no lock. In a run none is held after a wake-up that has
ended a transaction, or after the scheduler was dropped. -/
theorem reads_repeat_and_locks_account :
    (∀ (relations : List Relation) (mode : Mode) (first second : Nat) (id : RelationId)
        (earlier between : List RelationUse),
      mode.isPessimistic = true →
      (Catalog.opened relations mode).idAt? first = some id →
      (Catalog.opened relations mode).idAt? second = some id →
      (∀ use ∈ between, ¬use.Ends (.opened relations mode) id) →
      ∃ snapshot,
        ((Catalog.opened relations mode).useAll earlier).shown? first = some snapshot ∧
        ((Catalog.opened relations mode).useAll (earlier ++ .read first :: between)).shown? second =
          some snapshot ∧
        (Catalog.opened relations mode).WasCurrent earlier id snapshot) ∧
      (∀ (relations : List Relation) (mode : Mode) (uses : List RelationUse),
        Catalog.AccountsForLocks relations mode uses) ∧
      (∀ (deployment : Deployment) (actions : List Action),
        (deployment.run actions).metrics.afterCommits <
            (deployment.run (actions ++ [.wakeUp])).metrics.afterCommits →
          (deployment.run (actions ++ [.wakeUp])).world.catalog.IsFree) ∧
      ∀ (deployment : Deployment) (actions : List Action) (session : Session),
        session.execution = deployment.run actions →
          session.drop.execution.world.catalog.IsFree :=
  ⟨fun _ _ _ _ _ _ _ pessimistic first_eq second_eq unended =>
      Catalog.exists_repeated_read pessimistic first_eq second_eq unended,
    Catalog.accountsForLocks, fun _ _ => Deployment.isFree_of_ended,
    fun _ _ => Deployment.isFree_drop⟩

/-- A price list that nobody has read. -/
def priceList : Relation where
  id := 0
  name := "prices"
  schema := priceSchema
  rows := [.ofInts priceSchema [1, 10] 0]

/-- A price change. -/
def priceChange : RelationUse :=
  .update 0 fun _ => [.ofInts priceSchema [1, 20] 0]

/-- A sale is priced, the price changes, and another sale is priced. -/
def pricedActions : List Action :=
  [.load 0 (.ofInts priceSchema [1, 10] 0), .arrive 0 (.ofInts goodsSchema [1] 0)] ++
    List.replicate 3 .wakeUp ++
    [.update 0 fun _ => [.ofInts priceSchema [1, 20] 0],
      .arrive 0 (.ofInts goodsSchema [1] 1)] ++
    List.replicate 9 .wakeUp

/-- A copy of the price list is renewed, the list is changed, and the copy is read again. A sale is
priced under two-phase locking until the wake-up that ends its transaction. -/
theorem prices_repeat_and_locks_account :
    (Mode.snapshot.isPessimistic = true ∧
      (Catalog.opened [priceList] .snapshot).idAt? 0 = some 0 ∧
      (∀ use ∈ [priceChange], ¬use.Ends (.opened [priceList] .snapshot) 0) ∧
      (((Catalog.opened [priceList] .snapshot).useAll
        [.read 0, priceChange, .endTransaction 0, .read 0, priceChange]).shown? 0).map
          Snapshot.version = some 1 ∧
      (pricedLocked.run (pricedActions.take 9)).world.catalog.access.held = [(0, 0)] ∧
      (pricedLocked.run (pricedActions.take 9)).metrics.afterCommits <
        (pricedLocked.run (pricedActions.take 9 ++ [.wakeUp])).metrics.afterCommits) ∧
      (∃ snapshot,
        ((Catalog.opened [priceList] .snapshot).useAll
          [.read 0, priceChange, .endTransaction 0]).shown? 0 = some snapshot ∧
        ((Catalog.opened [priceList] .snapshot).useAll
          ([.read 0, priceChange, .endTransaction 0] ++ .read 0 :: [priceChange])).shown? 0 =
            some snapshot ∧
        (Catalog.opened [priceList] .snapshot).WasCurrent
          [.read 0, priceChange, .endTransaction 0] 0 snapshot) ∧
      (pricedLocked.run (pricedActions.take 9 ++ [.wakeUp])).world.catalog.IsFree :=
  have unended : ∀ use ∈ [priceChange], ¬use.Ends (.opened [priceList] .snapshot) 0 := by
    simp [priceChange, RelationUse.Ends]
  have ended : (pricedLocked.run (pricedActions.take 9)).metrics.afterCommits <
      (pricedLocked.run (pricedActions.take 9 ++ [.wakeUp])).metrics.afterCommits := by
    decide +kernel
  ⟨⟨rfl, rfl, unended, by decide, by decide +kernel, ended⟩,
    reads_repeat_and_locks_account.1 [priceList] .snapshot 0 0 0
      [.read 0, priceChange, .endTransaction 0] [priceChange] rfl rfl rfl unended,
    reads_repeat_and_locks_account.2.2.1 pricedLocked (pricedActions.take 9) ended⟩

end StreamQuery
