import StreamQuery.Proofs.Engine.Bare
import StreamQuery.Proofs.RepeatableReads

/-!
# Plans without a commit operator

Without a commit operator no transaction ends. The scheduler does what it does without concurrency
control, but relations are read as the protocol has it: under two-phase locking a relation stays
locked from its first read on, and under snapshot isolation all reads show what the first one has
copied.
-/

namespace StreamQuery

/-- A state whose relations have not been read, and are read as under a protocol. -/
def Execution.readingAs (execution : Execution) (mode : Mode) : Execution :=
  { execution with
    world :=
      { execution.world with
        catalog := { execution.world.catalog with access := { mode } } } }

/-- A configuration without concurrency control. -/
def SchedulerConfig.uncontrolled (config : SchedulerConfig) : SchedulerConfig :=
  { config with mode := .uncontrolled }

/-- A schedule without concurrency control. -/
def Schedule.uncontrolled (schedule : Schedule) : Schedule :=
  { schedule with mode := .uncontrolled }

/-! ## Reads -/

namespace Catalog

/-- If nothing is read from copies, a read shows the current rows and version. -/
theorem IsOrderly.shown?_eq_current {catalog : Catalog} (orderly : catalog.IsOrderly)
    (uncopied : catalog.access.mode ≠ .snapshot)
    (places : ∀ place id, catalog.idAt? place = some id → place = id) (place : Nat) :
    catalog.shown? place = catalog.relations[place]?.map Relation.snapshot := by
  cases found : catalog.relations[place]? with
  | none => rw [shown?, read?, found]; rfl
  | some relation =>
      rw [shown?, read?, found, Option.map_some, Option.map_some, Option.map_some]
      refine congrArg some ?_
      simp only [Catalog.readRelation]
      split
      · split
        · rename_i heldPlace held
          have place_eq := places place _ (idAt?_of_getElem? found)
          have held_eq := places heldPlace _ (orderly.found _ _ held)
          rw [held_eq, ← place_eq, found]
          rfl
        · rfl
      · exact absurd ‹_› uncopied
      · rfl
      · rfl

section

variable {relations : List Relation} {mode : Mode} {place : Nat} {id : RelationId}

/-- Nothing is kept of a relation that was not read. -/
theorem kept?_eq_none {uses : List RelationUse}
    (unread : ∀ place, .read place ∈ uses → (opened relations mode).idAt? place ≠ some id)
    (unended : ∀ use ∈ uses, ¬use.Ends (opened relations mode) id) :
    ((opened relations mode).useAll uses).kept? id = none := by
  induction uses using List.reverseRecOn with
  | nil => cases mode <;> rfl
  | append_singleton uses next induction =>
      have orderly := (isOrderly_opened relations mode).after_useAll uses
      rw [useAll_append_singleton, orderly.kept?_use]
      · exact induction (fun place member => unread place (List.mem_append_left _ member))
          fun use member => unended use (List.mem_append_left _ member)
      · rintro place rfl
        rw [idAt?_useAll]
        exact unread place (by simp)
      · rw [ends_useAll_iff]
        exact unended next (by simp)

theorem shown?_eq_none {catalog : Catalog} (missing : catalog.idAt? place = none) :
    catalog.shown? place = none := by
  rw [shown?, read?, Option.map_eq_none_iff.mp missing]
  rfl

/-- The first read of a relation shows its current rows and version. -/
theorem shown?_of_unread (pessimistic : mode.isPessimistic = true)
    (places : ∀ place id, (opened relations mode).idAt? place = some id → place = id)
    {uses : List RelationUse} (unread : .read place ∉ uses)
    (unended : ∀ use ∈ uses, ∀ id, ¬use.Ends (opened relations mode) id) :
    ((opened relations mode).useAll uses).shown? place =
      ((opened relations mode).useAll uses).relations[place]?.map Relation.snapshot := by
  cases found : ((opened relations mode).useAll uses).relations[place]? with
  | none => exact shown?_eq_none (Option.map_eq_none_iff.mpr found)
  | some relation =>
      have id_eq := idAt?_of_getElem? found
      rw [idAt?_useAll] at id_eq
      have nothing := kept?_eq_none (fun other member same => unread
        ((places place _ id_eq).trans (places other _ same).symm ▸ member))
        fun use member => unended use member relation.id
      rw [((isOrderly_opened relations mode).after_useAll uses).shown?_eq (by rwa [mode_useAll])
        found, nothing]
      rfl

/-- If no transaction ends, each read shows what the relation was at its first read. -/
theorem exists_first_read (pessimistic : mode.isPessimistic = true)
    (places : ∀ place id, (opened relations mode).idAt? place = some id → place = id)
    (place : Nat) (earlier later : List RelationUse)
    (unended : ∀ use ∈ earlier, ∀ id, ¬use.Ends (opened relations mode) id) :
    ∃ past rest, earlier ++ .read place :: later = past ++ .read place :: rest ∧
      .read place ∉ past ∧
      ((opened relations mode).useAll earlier).shown? place =
        ((opened relations mode).useAll past).relations[place]?.map Relation.snapshot := by
  by_cases read_before : .read place ∈ earlier
  · obtain ⟨past, between, rfl, unread⟩ := List.eq_append_cons_of_mem read_before
    refine ⟨past, between ++ .read place :: later, by simp, unread, ?_⟩
    rw [← shown?_of_unread pessimistic places unread fun use member =>
      unended use (List.mem_append_left _ member)]
    cases found : (opened relations mode).idAt? place with
    | none =>
        rw [shown?_eq_none (by rwa [idAt?_useAll]), shown?_eq_none (by rwa [idAt?_useAll])]
    | some id =>
        have goes_on : ∀ use ∈ between, ¬use.Ends (opened relations mode) id :=
          fun use member => unended use (by simp [member]) id
        obtain ⟨snapshot, first_shown, shown, _⟩ :
            ∃ snapshot, ((opened relations mode).useAll past).shown? place = some snapshot ∧
              ((opened relations mode).useAll (past ++ .read place :: between)).shown? place =
                some snapshot ∧
              (opened relations mode).WasCurrent past id snapshot :=
          exists_repeated_read pessimistic found found goes_on
        rw [first_shown, shown]
  · exact ⟨earlier, later, rfl, read_before,
      shown?_of_unread pessimistic places read_before unended⟩

end

end Catalog

/-! ## The scheduler -/

theorem Step.isSignal_eq_false_of_isAllowed {step : Step} (allowed : step.IsAllowed .none) :
    step.isSignal = false := by
  cases step with
  | lostConsistency committed? => cases allowed
  | commit mark => cases allowed
  | pendingAbort waiting => exact allowed.elim
  | _ => rfl

namespace Schedule

variable {schedule other : Schedule} {operator : QueryTree}

/-- The part of each operator in concurrency control if there is no commit operator. -/
theorem role_eq_none (schedule : Schedule) (none_commits : schedule.commit? = none) (id : Nat) :
    schedule.role id = .none := by
  rw [role, none_commits]
  cases schedule.mode <;> rfl

theorem evaluateBatch_congr (role_eq : schedule.role operator.id = other.role operator.id)
    (count : Nat) (execution : Execution) :
    schedule.evaluateBatch operator count execution =
      other.evaluateBatch operator count execution := by
  induction count generalizing execution with
  | zero => rfl
  | succ count induction => simp only [evaluateBatch, role_eq, induction]

/-- Nothing has been committed or repeated, and no commit is open. -/
structure IsUncommitted (schedule : Schedule) (execution : Execution) : Prop where
  /-- No operator has an open commit. -/
  settled : ∀ operator ∈ schedule.order, execution.world.hasPendingCommit operator.id = false
  /-- No commit was counted. -/
  commits_eq : execution.metrics.commits = 0
  /-- No transaction has ended. -/
  afterCommits_eq : execution.metrics.afterCommits = 0
  /-- Nothing was repeated. -/
  redoCount_eq : execution.metrics.redoCount = 0

namespace IsUncommitted

variable {execution : Execution}

/-- Without a commit operator a batch leaves no commit open and reports nothing that the scheduler
reacts to. -/
theorem evaluateBatch (uncommitted : schedule.IsUncommitted execution)
    (none_commits : schedule.commit? = none) {operator : QueryTree}
    (member : operator ∈ schedule.order) (count : Nat) :
    schedule.IsUncommitted (schedule.evaluateBatch operator count execution).1 ∧
      ∀ step, (schedule.evaluateBatch operator count execution).2 = .ok step →
        step.isSignal = false := by
  have settled := uncommitted.settled operator member
  have role_eq := schedule.role_eq_none none_commits operator.id
  have continues := schedule.evaluateBatch_continues operator count execution
  -- No operator has a part in concurrency control, so the scheduler has nothing to react to.
  have quiet (step : Step)
      (step_eq : (schedule.evaluateBatch operator count execution).2 = .ok step) :
      step.isSignal = false :=
    Step.isSignal_eq_false_of_isAllowed
      (role_eq ▸ (evaluateBatch_reports settled schedule count).allowed step step_eq)
  refine ⟨⟨fun other other_mem => Bool.eq_false_iff.mpr fun opened => ?_,
    continues.commits_eq.trans uncommitted.commits_eq,
    continues.afterCommits_eq.trans uncommitted.afterCommits_eq,
    continues.redoCount_eq.trans uncommitted.redoCount_eq⟩, quiet⟩
  rcases pending_or_reported settled schedule count _ opened with before | ⟨_, mark, step_eq⟩
  · cases (uncommitted.settled other other_mem).symm.trans before
  · cases quiet _ step_eq

/-- Without a commit operator a turn is one without concurrency control. -/
theorem wakeUp (uncommitted : schedule.IsUncommitted execution)
    (none_commits : schedule.commit? = none) :
    schedule.wakeUp execution = schedule.uncontrolled.wakeUp execution ∧
      schedule.IsUncommitted (schedule.wakeUp execution).1 := by
  cases next : schedule.order[execution.cursor]? with
  | none =>
      have plain_next : schedule.uncontrolled.order[execution.cursor]? = none := next
      rw [Schedule.wakeUp, Schedule.wakeUp, next, plain_next]
      exact ⟨rfl, uncommitted⟩
  | some operator =>
      have plain_next : schedule.uncontrolled.order[execution.cursor]? = some operator := next
      have role_eq := schedule.role_eq_none none_commits operator.id
      have batch_eq := evaluateBatch_congr
        (role_eq.trans (schedule.uncontrolled.role_eq_none none_commits _).symm)
        execution.batchCount (schedule.advanceCursor execution)
      have advanced : schedule.IsUncommitted (schedule.advanceCursor execution) :=
        ⟨uncommitted.settled, uncommitted.commits_eq, uncommitted.afterCommits_eq,
          uncommitted.redoCount_eq⟩
      obtain ⟨after_uncommitted, quiet⟩ := advanced.evaluateBatch none_commits
        (List.mem_of_getElem? next) execution.batchCount
      rcases batch : schedule.evaluateBatch operator execution.batchCount
        (schedule.advanceCursor execution) with ⟨after, outcome⟩
      rw [batch] at after_uncommitted quiet
      have plain_batch : schedule.uncontrolled.evaluateBatch operator execution.batchCount
          (schedule.uncontrolled.advanceCursor execution) = (after, outcome) :=
        batch_eq.symm.trans batch
      cases outcome with
      | error error =>
          rw [wakeUp_of_error next batch, wakeUp_of_error plain_next plain_batch]
          exact ⟨rfl, after_uncommitted⟩
      | ok step =>
          rw [wakeUp_of_ok next batch, wakeUp_of_ok plain_next plain_batch,
            react_eq_self_of_isSignal_eq_false _ _ _ (quiet step rfl),
            react_eq_self_of_isSignal_eq_false _ _ _ (quiet step rfl)]
          exact ⟨rfl, after_uncommitted⟩

theorem perform (uncommitted : schedule.IsUncommitted execution)
    (none_commits : schedule.commit? = none) (action : Action) :
    schedule.perform execution action = schedule.uncontrolled.perform execution action ∧
      schedule.IsUncommitted (schedule.perform execution action) := by
  by_cases is_turn : action.IsTurn
  · cases action with
    | wakeUp =>
        obtain ⟨wakeUp_eq, after_uncommitted⟩ := uncommitted.wakeUp none_commits
        exact ⟨congrArg Prod.fst wakeUp_eq, after_uncommitted⟩
    | _ => cases is_turn
  · have metrics_eq := schedule.metrics_perform execution is_turn
    refine ⟨?_, ⟨fun operator member => ?_, ?_, ?_, ?_⟩⟩
    · cases action <;> first | rfl | exact absurd trivial is_turn
    · rw [hasPendingCommit_perform _ _ is_turn]
      exact uncommitted.settled operator member
    · exact metrics_eq ▸ uncommitted.commits_eq
    · exact metrics_eq ▸ uncommitted.afterCommits_eq
    · exact metrics_eq ▸ uncommitted.redoCount_eq

/-- Without a commit operator a run is one without concurrency control. -/
theorem performAll (uncommitted : schedule.IsUncommitted execution)
    (none_commits : schedule.commit? = none) (actions : List Action) :
    schedule.performAll execution actions = schedule.uncontrolled.performAll execution actions ∧
      schedule.IsUncommitted (schedule.performAll execution actions) := by
  simp only [Schedule.performAll]
  induction actions generalizing execution with
  | nil => simpa only [List.foldl_nil, true_and] using uncommitted
  | cons action actions induction =>
      obtain ⟨perform_eq, after_uncommitted⟩ := uncommitted.perform none_commits action
      obtain ⟨rest_eq, finally_uncommitted⟩ := induction after_uncommitted
      rw [perform_eq] at rest_eq finally_uncommitted
      simp only [List.foldl_cons, perform_eq]
      exact ⟨rest_eq, finally_uncommitted⟩

end IsUncommitted

end Schedule

namespace Deployment

variable {deployment : Deployment} {actions : List Action}

theorem isUncommitted_start (deployment : Deployment) :
    deployment.schedule.IsUncommitted deployment.start :=
  ⟨fun _ member => deployment.hasPendingCommit_start (deployment.order_eq ▸ member), rfl, rfl, rfl⟩

/-- A plan without a commit operator can be scheduled without concurrency control, and does the
same. -/
theorem ofTree_uncontrolled (deployment : Deployment)
    (uncommitted : deployment.tree.commitOperator? = none) :
    Schedule.ofTree deployment.tree deployment.config.uncontrolled =
      .ok deployment.schedule.uncontrolled := by
  obtain ⟨accepted, validated, schedule_eq⟩ := deployment.schedule_spec
  rw [QueryTree.validatedCommitOperator, uncommitted] at validated
  cases validated
  rw [schedule_eq, Schedule.ofTree, QueryTree.validatedCommitOperator, uncommitted]
  rfl

theorem start_eq (deployment : Deployment)
    (uncommitted : deployment.tree.commitOperator? = none) :
    deployment.start =
      (deployment.schedule.uncontrolled.start deployment.query
        deployment.config.uncontrolled).readingAs deployment.config.mode := by
  obtain ⟨accepted, validated, schedule_eq⟩ := deployment.schedule_spec
  rw [QueryTree.validatedCommitOperator, uncommitted] at validated
  cases validated
  rw [start, schedule_eq]
  simp [Schedule.start, Schedule.uncontrolled, Execution.readingAs, World.modifyOutputs,
    World.initial, SchedulerConfig.uncontrolled]

theorem schedule_commit?_eq_none (uncommitted : deployment.tree.commitOperator? = none) :
    deployment.schedule.commit? = none := by
  rw [commit?_eq, uncommitted]
  rfl

theorem isUncommitted_run (uncommitted : deployment.tree.commitOperator? = none)
    (actions : List Action) : deployment.schedule.IsUncommitted (deployment.run actions) :=
  (deployment.isUncommitted_start.performAll (schedule_commit?_eq_none uncommitted) actions).2

/-! ## Relations -/

/-- Without a commit operator no transaction of a relation ends. -/
theorem not_ends_of_mem_uses (uncommitted : deployment.tree.commitOperator? = none)
    {use : RelationUse} (member : use ∈ deployment.uses actions) (catalog : Catalog)
    (id : RelationId) : ¬use.Ends catalog id := by
  induction actions using List.reverseRecOn with
  | nil => cases member
  | append_singleton actions action induction =>
      rw [uses_append_singleton] at member
      rcases List.mem_append.mp member with earlier | now
      · exact induction earlier
      · cases action with
        | wakeUp =>
            have before_eq := (isUncommitted_run uncommitted actions).afterCommits_eq
            have after_eq := (isUncommitted_run uncommitted (actions ++ [.wakeUp])).afterCommits_eq
            rw [run_append_singleton] at after_eq
            have unended : ¬(deployment.run actions).metrics.afterCommits <
                (deployment.schedule.wakeUp (deployment.run actions)).1.metrics.afterCommits :=
              before_eq ▸ after_eq ▸ Nat.lt_irrefl 0
            rw [Schedule.actionUses, Schedule.turnUses, if_neg unended, List.append_nil] at now
            obtain ⟨firing, _, used⟩ := List.mem_flatMap.mp now
            obtain ⟨reference, _, rfl, _⟩ := World.read_of_mem_uses used
            exact not_false
        | load place row => exact List.mem_singleton.mp now ▸ not_false
        | update place change => exact List.mem_singleton.mp now ▸ not_false
        | _ => cases now

/-- An evaluation that reads a relation finds it as earlier uses have left it. -/
theorem exists_uses_of_read {firing : Firing} (member : firing ∈ deployment.trace actions)
    {place : Nat} (reads : .read place ∈ firing.uses) :
    ∃ earlier later, deployment.uses actions = earlier ++ .read place :: later ∧
      firing.before.catalog = deployment.openedCatalog.useAll earlier := by
  have mode_eq : deployment.start.world.catalog.access.mode = deployment.schedule.mode := by
    rw [start_catalog]
    rfl
  obtain ⟨earlier, later, uses_eq, before_eq⟩ :=
    Schedule.exists_uses_of_mem_trace mode_eq member
  obtain ⟨reference, _, _, read_eq⟩ := World.read_of_mem_uses reads
  refine ⟨earlier, later, ?_, before_eq.trans (by rw [start_catalog_eq])⟩
  rw [uses, uses_eq, Firing.uses, read_eq, List.append_assoc]
  rfl

theorem eq_of_idAt? (deployment : Deployment) {place : Nat} {id : RelationId}
    (found : deployment.openedCatalog.idAt? place = some id) : place = id := by
  rw [← start_catalog_eq] at found
  obtain ⟨relation, relation_found, rfl⟩ := Catalog.exists_relation_of_idAt? found
  exact (deployment.start_isCoherent.id_eq place relation relation_found).symm

/-- Unless copies are read, a read shows the current rows and version. -/
theorem shown?_eq_current_of_read (uncopied : deployment.config.mode ≠ .snapshot)
    {firing : Firing} (member : firing ∈ deployment.trace actions) {place : Nat}
    (reads : .read place ∈ firing.uses) :
    firing.before.catalog.shown? place =
      firing.before.catalog.relations[place]?.map Relation.snapshot := by
  obtain ⟨earlier, later, _, before_eq⟩ := exists_uses_of_read member reads
  rw [before_eq]
  refine ((Catalog.isOrderly_opened _ _).after_useAll earlier).shown?_eq_current ?_ ?_ place
  · rw [Catalog.mode_useAll]
    exact uncopied
  · intro other id found
    rw [Catalog.idAt?_useAll] at found
    exact deployment.eq_of_idAt? found

/-- If copies are read and no transaction ends, a read shows the rows and the version at the first
read. -/
theorem exists_first_read_of_uncommitted (uncommitted : deployment.tree.commitOperator? = none)
    (copies : deployment.config.mode = .snapshot) {firing : Firing}
    (member : firing ∈ deployment.trace actions) {place : Nat}
    (reads : .read place ∈ firing.uses) :
    ∃ past later, deployment.uses actions = past ++ .read place :: later ∧
      .read place ∉ past ∧
      firing.before.catalog.shown? place =
        (deployment.openedCatalog.useAll past).relations[place]?.map Relation.snapshot := by
  obtain ⟨earlier, later, uses_eq, before_eq⟩ := exists_uses_of_read member reads
  have unended (use : RelationUse) (earlier_mem : use ∈ earlier) (id : RelationId) :
      ¬use.Ends deployment.openedCatalog id := by
    have used : use ∈ deployment.uses actions := by simp [uses_eq, earlier_mem]
    exact not_ends_of_mem_uses uncommitted used deployment.openedCatalog id
  obtain ⟨past, rest, split_eq, unread, shown⟩ := Catalog.exists_first_read
    (by rw [copies]; rfl) (fun _ _ => deployment.eq_of_idAt?) place earlier later unended
  exact ⟨past, rest, uses_eq.trans split_eq, unread, before_eq ▸ shown⟩

/-- If no transaction ends, the locks of all relations that were read are held. -/
theorem mem_held_iff_of_uncommitted (uncommitted : deployment.tree.commitOperator? = none)
    (actions : List Action) (id : RelationId) :
    id ∈ (deployment.run actions).world.catalog.access.held.map Prod.fst ↔
      deployment.config.mode = .twoPhaseLocking ∧
        ∃ place, .read place ∈ deployment.uses actions ∧
          deployment.openedCatalog.idAt? place = some id := by
  rw [deployment.run_catalog, openedCatalog, Catalog.mem_held_iff_readSince]
  refine and_congr_right fun _ => ⟨?_, ?_⟩
  · rintro ⟨past, place, later, uses_eq, id_eq, _⟩
    exact ⟨place, by simp [uses_eq], id_eq⟩
  · rintro ⟨place, member, id_eq⟩
    obtain ⟨past, later, uses_eq⟩ := List.append_of_mem member
    refine ⟨past, place, later, uses_eq, id_eq, fun use later_mem => ?_⟩
    have used : use ∈ deployment.uses actions := by simp [uses_eq, later_mem]
    exact not_ends_of_mem_uses uncommitted used deployment.openedCatalog id

/-- If no transaction ends, a relation is locked from its first read on. -/
theorem isLocked_iff_of_uncommitted (uncommitted : deployment.tree.commitOperator? = none)
    {place : Nat} {relation : Relation}
    (found : (deployment.run actions).world.catalog.relations[place]? = some relation) :
    relation.isLocked = true ↔
      deployment.config.mode = .twoPhaseLocking ∧ .read place ∈ deployment.uses actions := by
  have orderly := deployment.isOrderly_run actions
  have held_iff := mem_held_iff_of_uncommitted uncommitted actions
  have id_eq := Catalog.idAt?_of_getElem? found
  rw [deployment.run_catalog, Catalog.idAt?_useAll] at id_eq
  obtain rfl := deployment.eq_of_idAt? id_eq
  rw [orderly.locked_iff _ relation found]
  constructor
  · intro held
    obtain ⟨mode, place, member, place_id⟩ :=
      (held_iff _).mp (Catalog.mem_held_iff.mpr ⟨relation.id, held⟩)
    exact ⟨mode, deployment.eq_of_idAt? place_id ▸ member⟩
  · rintro ⟨mode, member⟩
    obtain ⟨heldPlace, held⟩ :=
      Catalog.mem_held_iff.mp ((held_iff _).mpr ⟨mode, relation.id, member, id_eq⟩)
    have held_id := orderly.found _ _ held
    rw [deployment.run_catalog, Catalog.idAt?_useAll] at held_id
    rw [held, deployment.eq_of_idAt? held_id]

/-- What a run without a commit operator does, and what it shows of relations. -/
structure RunsUncommitted (deployment : Deployment) (actions : List Action) : Prop where
  /-- The run is that of the same tree without concurrency control, where only relations are read
  as under the protocol. -/
  run_eq : ∃ plain,
    Schedule.ofTree deployment.tree deployment.config.uncontrolled = .ok plain ∧
      deployment.run actions =
        plain.performAll
          ((plain.start deployment.query deployment.config.uncontrolled).readingAs
            deployment.config.mode) actions
  /-- Nothing is committed or repeated, and no transaction ends. -/
  uncommitted : (deployment.run actions).metrics.commits = 0 ∧
    (deployment.run actions).metrics.afterCommits = 0 ∧
    (deployment.run actions).metrics.redoCount = 0
  /-- Unless copies are read, each read shows the current rows and version. -/
  current : deployment.config.mode ≠ .snapshot → ∀ firing ∈ deployment.trace actions,
    ∀ place, .read place ∈ firing.uses →
      firing.before.catalog.shown? place =
        firing.before.catalog.relations[place]?.map Relation.snapshot
  /-- If copies are read, each read shows the rows and the version at the first read. -/
  copied : deployment.config.mode = .snapshot → ∀ firing ∈ deployment.trace actions,
    ∀ place, .read place ∈ firing.uses →
      ∃ past later, deployment.uses actions = past ++ .read place :: later ∧
        .read place ∉ past ∧
        firing.before.catalog.shown? place =
          (deployment.openedCatalog.useAll past).relations[place]?.map Relation.snapshot
  /-- Under two-phase locking a relation is locked from its first read on; no other is. -/
  locked_iff : ∀ (place : Nat) (relation : Relation),
    (deployment.run actions).world.catalog.relations[place]? = some relation →
      (relation.isLocked = true ↔
        deployment.config.mode = .twoPhaseLocking ∧ .read place ∈ deployment.uses actions)
  /-- The locks that are held are those of the relations that were read. -/
  held_iff : ∀ id : RelationId,
    id ∈ (deployment.run actions).world.catalog.access.held.map Prod.fst ↔
      deployment.config.mode = .twoPhaseLocking ∧
        ∃ place, .read place ∈ deployment.uses actions ∧
          deployment.openedCatalog.idAt? place = some id

end Deployment

/-- Without a commit operator a run is one without concurrency control, except for the reads of
relations: under two-phase locking no lock is ever freed, and under snapshot isolation no copy is
ever renewed. -/
theorem runs_uncommitted (deployment : Deployment)
    (uncommitted : deployment.tree.commitOperator? = none) (actions : List Action) :
    deployment.RunsUncommitted actions := by
  have counts := Deployment.isUncommitted_run uncommitted actions
  refine ⟨⟨deployment.schedule.uncontrolled, deployment.ofTree_uncontrolled uncommitted, ?_⟩,
    ⟨counts.commits_eq, counts.afterCommits_eq, counts.redoCount_eq⟩,
    fun uncopied _ member _ => Deployment.shown?_eq_current_of_read uncopied member,
    fun copies _ member _ => Deployment.exists_first_read_of_uncommitted uncommitted copies member,
    fun _ _ => Deployment.isLocked_iff_of_uncommitted uncommitted,
    Deployment.mem_held_iff_of_uncommitted uncommitted actions⟩
  rw [← deployment.start_eq uncommitted]
  exact (deployment.isUncommitted_start.performAll
    (Deployment.schedule_commit?_eq_none uncommitted) actions).1

/-- Goods are given their prices under two-phase locking, and nothing is computed from them. -/
def listedLocked : Deployment :=
  (Deployment.ofDeclarations? ((pricedDeclarations (.rows 1 1)).take 3) "priced"
    (.ofMode .twoPhaseLocking)).get (by decide)

/-- Goods are given their prices under snapshot isolation. -/
def listedCopied : Deployment :=
  (Deployment.ofDeclarations? ((pricedDeclarations (.rows 1 1)).take 3) "priced"
    (.ofMode .snapshot)).get (by decide)

/-- A sale is priced before the price changes, and another one afterwards. -/
def relistedActions : List Action :=
  [.load 0 (.ofInts priceSchema [1, 10] 0), .arrive 0 (.ofInts goodsSchema [1] 1), .wakeUp,
    .wakeUp, .update 0 fun _ => [.ofInts priceSchema [1, 20] 0],
    .arrive 0 (.ofInts goodsSchema [1] 2), .wakeUp, .wakeUp]

theorem listedLocked_uncommitted :
    (listedLocked.tree.commitOperator? = none ∧
      (listedLocked.run (relistedActions.take 4)).world.catalog.access.held = [(0, 0)]) ∧
      listedLocked.RunsUncommitted (relistedActions.take 4) :=
  ⟨⟨rfl, by decide +kernel⟩, runs_uncommitted listedLocked rfl (relistedActions.take 4)⟩

theorem listedCopied_evaluates : 3 < (listedCopied.trace relistedActions).length := by
  decide +kernel

set_option maxRecDepth 10000 in
/-- Without a commit operator, two-phase locking holds a lock after a wake-up, and a read under
snapshot isolation shows an old version. -/
theorem uncommitted_reads_differ :
    (listedLocked.tree.commitOperator? = none ∧
      ¬(listedLocked.run (relistedActions.take 4)).world.catalog.IsFree) ∧
      listedCopied.tree.commitOperator? = none ∧
      ∃ firing ∈ listedCopied.trace relistedActions, firing.uses = [.read 0] ∧
        (firing.before.catalog.shown? 0).map Snapshot.version = some 0 ∧
        (firing.before.catalog.relations[0]?).map Relation.version = some 1 :=
  have held : (listedLocked.run (relistedActions.take 4)).world.catalog.access.held = [(0, 0)] := by
    decide +kernel
  ⟨⟨rfl, fun free => by cases held.symm.trans free.unheld⟩, rfl,
    (listedCopied.trace relistedActions).get ⟨3, listedCopied_evaluates⟩, List.get_mem _ _, rfl,
    by decide +kernel, by decide +kernel⟩

end StreamQuery
