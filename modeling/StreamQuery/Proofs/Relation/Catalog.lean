import StreamQuery.Engine.World

/-!
# Versions that reads show

Under two-phase locking and under snapshot isolation, a relation that was read stays at the version
that was read until the transaction ends: it is locked, or read from a copy. The version that a read
would show never decreases.
-/

namespace StreamQuery

/-! ## Association lists -/

section

variable {α : Type} {key other : Nat} {entries : List (Nat × α)}

theorem lookup_filter_self : (entries.filter (·.1 ≠ key)).lookup key = none := by
  rw [List.lookup_eq_none_iff]
  intro entry member
  have different : entry.1 ≠ key := by simpa using (List.mem_filter.mp member).2
  simpa using different.symm

theorem lookup_filter_of_ne (different : other ≠ key) :
    (entries.filter (·.1 ≠ key)).lookup other = entries.lookup other := by
  induction entries with
  | nil => rfl
  | cons entry entries induction =>
      obtain ⟨first, value⟩ := entry
      by_cases same : first = key
      · subst same
        have mismatch : (other == first) = false := by simpa using different
        simpa [List.lookup_cons, mismatch] using induction
      · by_cases hit : other = first
        · subst hit
          simp [same]
        · have mismatch : (other == first) = false := by simpa using hit
          simpa [same, List.lookup_cons, mismatch] using induction

end

/-- A later state of a relation. -/
structure Relation.Becomes (before after : Relation) : Prop where
  id_eq : after.id = before.id
  version_le : before.version ≤ after.version

theorem Relation.Becomes.refl (relation : Relation) : relation.Becomes relation :=
  ⟨rfl, Nat.le_refl _⟩

namespace Catalog

/-- The version at which the open transactions keep a relation. -/
def pinned? (catalog : Catalog) (relation : RelationId) : Option Nat :=
  match catalog.access.mode with
  | .twoPhaseLocking =>
    (catalog.access.held.lookup relation).bind fun place =>
      catalog.relations[place]?.map Relation.version
  | .snapshot => catalog.access.snapshotVersion? relation
  | .uncontrolled => none
  | .optimistic => none

/-- The version that a read of a relation would show. -/
def visible? (catalog : Catalog) (relation : RelationId) : Option Nat :=
  (catalog.pinned? relation).or (catalog.relations[relation]?.map Relation.version)

/-- Relations stand at their places, held relations are locked, and copies are not newer than their
relations. -/
structure IsCoherent (catalog : Catalog) : Prop where
  /-- The identity of a relation is its place. -/
  id_eq : ∀ place (relation : Relation), catalog.relations[place]? = some relation →
    relation.id = place
  /-- A lock that is held is the lock of the relation at the place noted with it. -/
  held : ∀ id place, catalog.access.held.lookup id = some place →
    place = id ∧ ∃ relation, catalog.relations[id]? = some relation ∧ relation.isLocked = true
  /-- A copy is a version that the relation has had. -/
  copied : ∀ id version, catalog.access.snapshotVersion? id = some version →
    ∃ relation, catalog.relations[id]? = some relation ∧ version ≤ relation.version

/-- No relation is shown at an older version than before. -/
def Advances (before after : Catalog) : Prop :=
  ∀ id version, before.visible? id = some version →
    ∃ later, after.visible? id = some later ∧ version ≤ later

namespace Advances

theorem refl (catalog : Catalog) : catalog.Advances catalog :=
  fun _ version shown => ⟨version, shown, Nat.le_refl version⟩

theorem trans {first second third : Catalog} (earlier : first.Advances second)
    (later : second.Advances third) : first.Advances third := by
  intro id version shown
  obtain ⟨middle, middle_shown, version_le⟩ := earlier id version shown
  obtain ⟨last, last_shown, middle_le⟩ := later id middle middle_shown
  exact ⟨last, last_shown, Nat.le_trans version_le middle_le⟩

end Advances

theorem visible?_of_pinned? {catalog : Catalog} {id : RelationId} {version : Nat}
    (pinned : catalog.pinned? id = some version) : catalog.visible? id = some version := by
  simp [visible?, pinned]

variable {catalog after : Catalog}

/-- A copy takes the place of an older one. -/
theorem lookup_keep_self (access : RelationAccess) (id : RelationId) (snapshot : Snapshot) :
    (access.keep id snapshot).snapshots.lookup id = some snapshot := by
  simp only [RelationAccess.keep, List.lookup_append, lookup_filter_self]
  simp

theorem lookup_keep_of_ne (access : RelationAccess) {id other : RelationId} (snapshot : Snapshot)
    (different : other ≠ id) :
    (access.keep id snapshot).snapshots.lookup other = access.snapshots.lookup other := by
  have mismatch : (other == id) = false := by simpa using different
  simp only [RelationAccess.keep, List.lookup_append, lookup_filter_of_ne different,
    List.lookup_cons, mismatch]
  simp

theorem snapshotVersion?_keep_self (access : RelationAccess) (id : RelationId)
    (snapshot : Snapshot) :
    (access.keep id snapshot).snapshotVersion? id = some snapshot.version := by
  rw [RelationAccess.snapshotVersion?, lookup_keep_self]
  rfl

theorem snapshotVersion?_keep_of_ne (access : RelationAccess) {id other : RelationId}
    (snapshot : Snapshot) (different : other ≠ id) :
    (access.keep id snapshot).snapshotVersion? other = access.snapshotVersion? other := by
  rw [RelationAccess.snapshotVersion?, lookup_keep_of_ne _ _ different]
  rfl

theorem visible?_of_twoPhaseLocking (coherent : catalog.IsCoherent)
    (mode : catalog.access.mode = .twoPhaseLocking) (id : RelationId) :
    catalog.visible? id = catalog.relations[id]?.map Relation.version := by
  simp only [visible?, pinned?, mode]
  cases held : catalog.access.held.lookup id with
  | none => rfl
  | some place =>
      obtain ⟨rfl, relation, found, _⟩ := coherent.held id place held
      simp [found]

theorem visible?_of_snapshot (mode : catalog.access.mode = .snapshot) (id : RelationId) :
    catalog.visible? id =
      (catalog.access.snapshotVersion? id).or (catalog.relations[id]?.map Relation.version) := by
  simp [visible?, pinned?, mode]

/-! ## Changes of one relation -/

section

variable {place : Nat} {change : Relation → Relation}

@[simp] theorem relations_modify_self :
    (catalog.modify place change).relations[place]? = catalog.relations[place]?.map change := by
  simp [modify]

theorem relations_modify_of_ne {other : Nat} (different : other ≠ place) :
    (catalog.modify place change).relations[other]? = catalog.relations[other]? := by
  simp [modify, List.getElem?_modify_ne _ _ different.symm]

/-- Each relation has a later state at its place. -/
theorem exists_relation_modify (becomes : ∀ relation : Relation, relation.Becomes (change relation))
    {id : Nat} {relation : Relation} (found : catalog.relations[id]? = some relation) :
    ∃ current, (catalog.modify place change).relations[id]? = some current ∧
      relation.Becomes current ∧ (change relation = relation → current = relation) := by
  by_cases same : id = place
  · subst same
    exact ⟨change relation, by simp [found], becomes relation, fun unchanged => unchanged⟩
  · exact ⟨relation, (relations_modify_of_ne same).trans found, .refl relation, fun _ => rfl⟩

/-- A later state of one relation, and other locks, leave a catalog coherent if those locks are
locks of their relations. -/
theorem IsCoherent.of_modify (coherent : catalog.IsCoherent)
    (relations_eq : after.relations = (catalog.modify place change).relations)
    (becomes : ∀ relation : Relation, relation.Becomes (change relation))
    (copies_eq : after.access.snapshots = catalog.access.snapshots)
    (held : ∀ id other, after.access.held.lookup id = some other → other = id ∧
      ∃ relation, (catalog.modify place change).relations[id]? = some relation ∧
        relation.isLocked = true) : after.IsCoherent := by
  refine ⟨fun other current current_found => ?_, relations_eq ▸ held, fun id version copied => ?_⟩
  · rw [relations_eq] at current_found
    by_cases same : other = place
    · subst same
      have changed := relations_modify_self.symm.trans current_found
      obtain ⟨old, old_found, rfl⟩ := Option.map_eq_some_iff.mp changed
      exact (becomes old).id_eq.trans (coherent.id_eq other old old_found)
    · exact coherent.id_eq other current ((relations_modify_of_ne same).symm.trans current_found)
  · rw [RelationAccess.snapshotVersion?, copies_eq] at copied
    obtain ⟨relation, found, version_le⟩ := coherent.copied id version copied
    obtain ⟨current, current_found, became, _⟩ := exists_relation_modify becomes found
    exact ⟨current, relations_eq ▸ current_found, Nat.le_trans version_le became.version_le⟩

/-- Under two-phase locking, a change of locks shows the same versions. -/
theorem advances_of_locks (coherent : catalog.IsCoherent) (after_coherent : after.IsCoherent)
    (mode : catalog.access.mode = .twoPhaseLocking)
    (after_mode : after.access.mode = .twoPhaseLocking)
    (relations_eq : after.relations = (catalog.modify place change).relations)
    (version_eq : ∀ relation : Relation, (change relation).version = relation.version) :
    catalog.Advances after := by
  intro id version shown
  refine ⟨version, ?_, Nat.le_refl version⟩
  rw [visible?_of_twoPhaseLocking coherent mode] at shown
  rw [visible?_of_twoPhaseLocking after_coherent after_mode, relations_eq, ← shown]
  by_cases same : id = place
  · subst same
    cases found : catalog.relations[id]? with
    | none => simp [found]
    | some relation => simp [found, version_eq]
  · exact congrArg _ (relations_modify_of_ne same)

end

/-- A copy of the current version is taken. -/
theorem keep_spec (coherent : catalog.IsCoherent) (mode : catalog.access.mode = .snapshot)
    {place : Nat} {relation : Relation} (found : catalog.relations[place]? = some relation)
    (after_eq : after =
      { catalog with access := catalog.access.keep relation.id relation.snapshot }) :
    after.IsCoherent ∧ catalog.Advances after := by
  have id_eq := coherent.id_eq place relation found
  have current : catalog.relations[relation.id]? = some relation := id_eq ▸ found
  have after_mode : after.access.mode = .snapshot := by simp [after_eq, RelationAccess.keep, mode]
  have copied_self : after.access.snapshotVersion? relation.id = some relation.version := by
    rw [after_eq, snapshotVersion?_keep_self]
    rfl
  have copied_of {id : RelationId} (different : id ≠ relation.id) :
      after.access.snapshotVersion? id = catalog.access.snapshotVersion? id := by
    rw [after_eq, snapshotVersion?_keep_of_ne _ _ different]
  have relations_eq : after.relations = catalog.relations := by rw [after_eq]
  refine ⟨⟨relations_eq ▸ coherent.id_eq, fun id place held => ?_, fun id version copied => ?_⟩,
    fun id version shown => ?_⟩
  · rw [relations_eq]
    exact coherent.held id place (by simpa [after_eq, RelationAccess.keep] using held)
  · rw [relations_eq]
    by_cases same : id = relation.id
    · subst same
      obtain rfl := Option.some.inj (copied_self.symm.trans copied)
      exact ⟨relation, current, Nat.le_refl _⟩
    · exact coherent.copied id version (copied_of same ▸ copied)
  · rw [visible?_of_snapshot mode] at shown
    by_cases same : id = relation.id
    · subst same
      refine ⟨relation.version, by simp [visible?_of_snapshot after_mode, copied_self], ?_⟩
      cases copied : catalog.access.snapshotVersion? relation.id with
      | none =>
          rw [copied, current] at shown
          exact Nat.le_of_eq (Option.some.inj shown).symm
      | some copy =>
          rw [copied] at shown
          obtain rfl := Option.some.inj shown
          obtain ⟨relation', found', version_le⟩ := coherent.copied _ _ copied
          obtain rfl := Option.some.inj (current.symm.trans found')
          exact version_le
    · refine ⟨version, ?_, Nat.le_refl version⟩
      rw [visible?_of_snapshot after_mode, copied_of same, relations_eq, shown]

/-- A relation is locked for the first time. -/
theorem lock_spec (coherent : catalog.IsCoherent) (mode : catalog.access.mode = .twoPhaseLocking)
    {place : Nat} {relation : Relation} (found : catalog.relations[place]? = some relation)
    (unheld : catalog.access.held.lookup relation.id = none)
    (after_eq : after =
      { (catalog.modify place (·.lock .transaction)) with
        access := { catalog.access with
          held := catalog.access.held ++ [(relation.id, place)] } }) :
    after.IsCoherent ∧ catalog.Advances after ∧ after.pinned? relation.id = some relation.version ∧
      ∀ other version, catalog.pinned? other = some version →
        after.pinned? other = some version := by
  have id_eq := coherent.id_eq place relation found
  subst id_eq
  subst after_eq
  have held_self : (catalog.access.held ++ [(relation.id, relation.id)]).lookup relation.id =
      some relation.id := by
    simp [List.lookup_append, unheld]
  have held_of {other : RelationId} (different : other ≠ relation.id) :
      (catalog.access.held ++ [(relation.id, relation.id)]).lookup other =
        catalog.access.held.lookup other := by
    have mismatch : (other == relation.id) = false := by simpa using different
    simp [List.lookup_append, List.lookup_cons, mismatch]
  have after_coherent : IsCoherent
      { (catalog.modify relation.id (·.lock .transaction)) with
        access := { catalog.access with
          held := catalog.access.held ++ [(relation.id, relation.id)] } } := by
    refine coherent.of_modify rfl (fun _ => ⟨rfl, Nat.le_refl _⟩) rfl fun id other held => ?_
    by_cases same : id = relation.id
    · subst same
      obtain rfl := Option.some.inj (held_self.symm.trans held)
      exact ⟨rfl, relation.lock .transaction, by simp [found], rfl⟩
    · rw [relations_modify_of_ne same]
      exact coherent.held id other ((held_of same).symm.trans held)
  refine ⟨after_coherent, advances_of_locks coherent after_coherent mode mode rfl fun _ => rfl, ?_,
    fun other version pinned => ?_⟩
  · simp [pinned?, mode, held_self, found, Relation.lock]
  · have different : other ≠ relation.id := by
      rintro rfl
      simp [pinned?, mode, unheld] at pinned
    simp only [pinned?, mode, held_of different] at pinned ⊢
    obtain ⟨heldPlace, held, version_eq⟩ := Option.bind_eq_some_iff.mp pinned
    obtain ⟨rfl, _⟩ := coherent.held _ _ held
    rw [held, Option.bind_some, relations_modify_of_ne different]
    exact version_eq

/-! ## Reads -/

/-- What a read leaves behind, under a protocol that prevents conflicts: the version that it showed
is pinned, and what was pinned before still is. -/
structure ReadSpec (before after : Catalog) (id : RelationId) (version : Nat) : Prop where
  /-- The catalog stays coherent. -/
  coherent : after.IsCoherent
  /-- The protocol stays. -/
  mode : after.access.mode = before.access.mode
  /-- The version that was shown is pinned. -/
  pinned : after.pinned? id = some version
  /-- Pinned versions stay pinned. -/
  extends_pinned : ∀ other pinned, before.pinned? other = some pinned →
    after.pinned? other = some pinned
  /-- No relation is shown at an older version. -/
  advances : before.Advances after

theorem readRelation_spec (coherent : catalog.IsCoherent)
    (pessimistic : catalog.access.mode.isPessimistic = true) {place : Nat} {relation : Relation}
    (found : catalog.relations[place]? = some relation) {snapshot : Snapshot}
    (read : catalog.readRelation place relation = (snapshot, after)) :
    ReadSpec catalog after relation.id snapshot.version := by
  have id_eq := coherent.id_eq place relation found
  simp only [readRelation] at read
  split at read
  · rename_i mode
    split at read
    · rename_i heldPlace held
      obtain ⟨rfl, _⟩ := coherent.held _ _ held
      cases read
      refine ⟨coherent, rfl, ?_, fun _ _ pinned => pinned, .refl catalog⟩
      have current : catalog.relations[relation.id]? = some relation := id_eq ▸ found
      simp [pinned?, mode, held, current, Relation.snapshot]
    · rename_i unheld
      have after_eq := (Prod.mk.inj read).2.symm
      obtain rfl := (Prod.mk.inj read).1
      obtain ⟨after_coherent, advances, pinned, extends_pinned⟩ :=
        lock_spec coherent mode found unheld after_eq
      exact ⟨after_coherent, by rw [after_eq], pinned, extends_pinned, advances⟩
  · rename_i mode
    split at read
    · rename_i copy copied
      cases read
      refine ⟨coherent, rfl, ?_, fun _ _ pinned => pinned, .refl catalog⟩
      simp [pinned?, mode, RelationAccess.snapshotVersion?, copied]
    · rename_i uncopied
      cases read
      obtain ⟨after_coherent, advances⟩ := keep_spec coherent mode found rfl
      refine ⟨after_coherent, rfl, ?_, fun other version pinned => ?_, advances⟩
      · simp only [pinned?, RelationAccess.keep, mode]
        exact snapshotVersion?_keep_self _ _ _
      · have different : other ≠ relation.id := by
          rintro rfl
          simp [pinned?, mode, RelationAccess.snapshotVersion?, uncopied] at pinned
        simp only [pinned?, mode] at pinned
        simp only [pinned?, RelationAccess.keep, mode]
        exact (snapshotVersion?_keep_of_ne _ _ different).trans pinned
  · rename_i mode
    simp [mode, Mode.isPessimistic] at pessimistic
  · rename_i mode
    simp [mode, Mode.isPessimistic] at pessimistic

/-! ## Ends of transactions -/

/-- A lock that was held is freed. -/
theorem unlock_spec (coherent : catalog.IsCoherent) (mode : catalog.access.mode = .twoPhaseLocking)
    {id : RelationId}
    (after_eq : after =
      { (catalog.modify id Relation.unlock) with
        access := { catalog.access with held := catalog.access.held.filter (·.1 ≠ id) } }) :
    after.IsCoherent ∧ catalog.Advances after := by
  subst after_eq
  have after_coherent : IsCoherent
      { (catalog.modify id Relation.unlock) with
        access := { catalog.access with held := catalog.access.held.filter (·.1 ≠ id) } } := by
    refine coherent.of_modify rfl (fun _ => ⟨rfl, Nat.le_refl _⟩) rfl fun other place held => ?_
    by_cases same : other = id
    · subst same
      have unheld := lookup_filter_self.symm.trans held
      cases unheld
    · rw [relations_modify_of_ne same]
      exact coherent.held other place ((lookup_filter_of_ne same).symm.trans held)
  exact ⟨after_coherent, advances_of_locks coherent after_coherent mode mode rfl fun _ => rfl⟩

theorem endTransactionAt_spec (coherent : catalog.IsCoherent)
    (pessimistic : catalog.access.mode.isPessimistic = true) (place : Nat) :
    (catalog.endTransactionAt place catalog.access.mode).IsCoherent ∧
      (catalog.endTransactionAt place catalog.access.mode).access.mode = catalog.access.mode ∧
      catalog.Advances (catalog.endTransactionAt place catalog.access.mode) := by
  rw [endTransactionAt]
  split
  · rename_i relation found
    have id_eq := coherent.id_eq place relation found
    cases mode : catalog.access.mode with
    | twoPhaseLocking =>
        simp only [endTransaction]
        split
        · rename_i heldPlace held
          obtain ⟨rfl, _⟩ := coherent.held _ _ held
          obtain ⟨after_coherent, advances⟩ := unlock_spec coherent mode rfl
          exact ⟨after_coherent, mode, advances⟩
        · exact ⟨coherent, mode, .refl catalog⟩
    | snapshot =>
        obtain ⟨after_coherent, advances⟩ := keep_spec coherent mode found rfl
        exact ⟨after_coherent, mode, advances⟩
    | uncontrolled => simp [mode, Mode.isPessimistic] at pessimistic
    | optimistic => simp [mode, Mode.isPessimistic] at pessimistic
  · exact ⟨coherent, rfl, .refl catalog⟩

/-! ## Changes from outside -/

/-- A relation that changes only while it is not locked leaves alone what is pinned. -/
theorem changeRelation_spec (coherent : catalog.IsCoherent) {place : Nat}
    {change : Relation → Relation}
    (becomes : ∀ relation : Relation, relation.Becomes (change relation))
    (guarded : ∀ relation : Relation, relation.isLocked = true → change relation = relation) :
    (catalog.modify place change).IsCoherent ∧
      catalog.Advances (catalog.modify place change) ∧
      (catalog.modify place change).pinned? = catalog.pinned? := by
  have access_eq : (catalog.modify place change).access = catalog.access := rfl
  have held {id other : Nat} (is_held : catalog.access.held.lookup id = some other) :
      other = id ∧ ∃ relation, catalog.relations[id]? = some relation ∧
        (catalog.modify place change).relations[id]? = some relation ∧
        relation.isLocked = true := by
    obtain ⟨place_eq, relation, found, locked⟩ := coherent.held id other is_held
    obtain ⟨current, current_found, _, unchanged⟩ := exists_relation_modify becomes found
    obtain rfl := unchanged (guarded relation locked)
    exact ⟨place_eq, current, found, current_found, locked⟩
  have pinned_eq : (catalog.modify place change).pinned? = catalog.pinned? := by
    funext id
    simp only [pinned?, access_eq]
    split
    · cases is_held : catalog.access.held.lookup id with
      | none => rfl
      | some other =>
          obtain ⟨rfl, relation, found, current_found, _⟩ := held is_held
          rw [Option.bind_some, Option.bind_some, current_found, found]
    · rfl
    · rfl
    · rfl
  refine ⟨coherent.of_modify rfl becomes rfl fun id other is_held => ?_, fun id version shown => ?_,
    pinned_eq⟩
  · obtain ⟨place_eq, relation, _, current_found, locked⟩ := held is_held
    exact ⟨place_eq, relation, current_found, locked⟩
  · rw [visible?] at shown ⊢
    rw [pinned_eq]
    cases pinned : catalog.pinned? id with
    | some kept =>
        rw [pinned] at shown
        exact ⟨kept, rfl, Nat.le_of_eq (Option.some.inj shown).symm⟩
    | none =>
        rw [pinned, Option.none_or] at shown
        obtain ⟨relation, found, rfl⟩ := Option.map_eq_some_iff.mp shown
        obtain ⟨current, current_found, became, _⟩ := exists_relation_modify becomes found
        exact ⟨current.version, by rw [Option.none_or, current_found]; rfl, became.version_le⟩

end Catalog

end StreamQuery
