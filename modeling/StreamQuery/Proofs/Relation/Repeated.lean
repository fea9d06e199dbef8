import StreamQuery.Proofs.Relation.Uses

/-!
# Repeated reads

Until its transaction ends, every read of a relation under two-phase locking or snapshot isolation
shows the same rows and the same version: those that the relation had at one moment since its
transaction began.
-/

namespace StreamQuery

namespace Catalog

variable {catalog after : Catalog} {place : Nat} {id : RelationId} {use : RelationUse}
  {uses : List RelationUse} {snapshot : Snapshot}

/-! ## One use -/

/-- A read shows what is kept, or the current rows if nothing is kept. -/
theorem IsOrderly.shown?_eq (orderly : catalog.IsOrderly)
    (pessimistic : catalog.access.mode.isPessimistic = true) {relation : Relation}
    (found : catalog.relations[place]? = some relation) :
    catalog.shown? place = some ((catalog.kept? relation.id).getD relation.snapshot) := by
  rcases read : catalog.readRelation place relation with ⟨snapshot, after⟩
  rw [← (readRelation_kept? orderly.holdsLocks pessimistic found read).1, shown?, read?, found,
    Option.map_some, Option.map_some, read]

/-- What a read shows is kept. -/
theorem IsOrderly.kept?_read (orderly : catalog.IsOrderly)
    (pessimistic : catalog.access.mode.isPessimistic = true)
    (id_eq : catalog.idAt? place = some id) :
    (catalog.use (.read place)).kept? id = catalog.shown? place := by
  obtain ⟨relation, found, rfl⟩ := exists_relation_of_idAt? id_eq
  rcases read : catalog.readRelation place relation with ⟨snapshot, after⟩
  obtain ⟨snapshot_eq, kept_eq⟩ := readRelation_kept? orderly.holdsLocks pessimistic found read
  have use_eq : catalog.use (.read place) = after := by
    simp [Catalog.use, read?, found, read]
  rw [use_eq, kept_eq, orderly.shown?_eq pessimistic found, snapshot_eq]

theorem lookup_append_of_ne {entries : List (RelationId × Nat)} {other : RelationId}
    (different : other ≠ id) : (entries ++ [(other, place)]).lookup id = entries.lookup id := by
  have mismatch : (id == other) = false := by simpa using different.symm
  simp [List.lookup_append, List.lookup_cons, mismatch]

/-- What is kept of a relation depends on its own lock and its own copy. -/
theorem kept?_congr (agrees : catalog.Agrees after)
    (held_eq : after.access.held.lookup id = catalog.access.held.lookup id)
    (copies_eq : after.access.snapshots.lookup id = catalog.access.snapshots.lookup id) :
    after.kept? id = catalog.kept? id := by
  have snapshot_eq (place : Nat) : after.relations[place]?.map Relation.snapshot =
      catalog.relations[place]?.map Relation.snapshot :=
    agrees.getElem?_map_eq (fun _ => rfl) place
  simp only [kept?, agrees.mode_eq, held_eq, copies_eq, snapshot_eq]

theorem kept?_readRelation_of_ne {relation : Relation} (different : relation.id ≠ id) :
    (catalog.readRelation place relation).2.kept? id = catalog.kept? id := by
  refine kept?_congr (catalog.readRelation_agrees place relation) ?_ ?_
  · simp only [readRelation]
    split
    · split
      · rfl
      · exact lookup_append_of_ne different
    · split <;> rfl
    · rfl
    · rfl
  · simp only [readRelation]
    split
    · split <;> rfl
    · split
      · rfl
      · exact lookup_keep_of_ne _ _ different.symm
    · rfl
    · rfl

theorem kept?_endTransactionAt_of_ne (different : catalog.idAt? place ≠ some id) (mode : Mode) :
    (catalog.endTransactionAt place mode).kept? id = catalog.kept? id := by
  refine kept?_congr (catalog.endTransactionAt_agrees place mode) ?_ ?_
  all_goals
    rw [endTransactionAt]
    split
    · rename_i relation found
      rw [idAt?_of_getElem? found] at different
      have other : relation.id ≠ id := fun same => different (congrArg some same)
      cases mode with
      | twoPhaseLocking =>
          simp only [endTransaction]
          split
          · first | exact lookup_filter_of_ne other.symm | rfl
          · rfl
      | snapshot => first | rfl | exact lookup_keep_of_ne _ _ other.symm
      | uncontrolled => rfl
      | optimistic => rfl
    · rfl

/-- Reads of other relations, and changes, leave alone what is kept of a relation. -/
theorem IsOrderly.kept?_use (orderly : catalog.IsOrderly) {next : RelationUse}
    (unread : ∀ place, next = .read place → catalog.idAt? place ≠ some id)
    (unended : ¬next.Ends catalog id) : (catalog.use next).kept? id = catalog.kept? id := by
  cases next with
  | read place =>
      simp only [Catalog.use, read?]
      cases found : catalog.relations[place]? with
      | none => rfl
      | some relation =>
          refine kept?_readRelation_of_ne fun same => unread place rfl ?_
          rw [idAt?_of_getElem? found, same]
  | load place row => exact modify_kept? orderly.holdsLocks (fun _ locked => if_pos locked) id
  | update place change =>
      exact modify_kept? orderly.holdsLocks (fun _ locked => if_pos locked) id
  | endTransaction place => exact kept?_endTransactionAt_of_ne unended _
  | releaseAll =>
      refine kept?_congr catalog.releaseAll_agrees ?_ rfl
      rw [orderly.lookup_eq_none unended]
      rfl

/-! ## Histories -/

/-- A relation had these rows and this version at a moment since which its transaction has not
ended. -/
def WasCurrent (catalog : Catalog) (uses : List RelationUse) (id : RelationId)
    (snapshot : Snapshot) : Prop :=
  ∃ (past later : List RelationUse) (place : Nat) (relation : Relation), uses = past ++ later ∧
    (∀ use ∈ later, ¬use.Ends catalog id) ∧
    (catalog.useAll past).relations[place]? = some relation ∧ relation.id = id ∧
    relation.snapshot = snapshot

theorem WasCurrent.append (current : catalog.WasCurrent uses id snapshot) {next : RelationUse}
    (unended : ¬next.Ends catalog id) : catalog.WasCurrent (uses ++ [next]) id snapshot := by
  obtain ⟨past, later, place, relation, rfl, goes_on, found, id_eq, snapshot_eq⟩ := current
  refine ⟨past, later ++ [next], place, relation, List.append_assoc _ _ _, fun use member => ?_,
    found, id_eq, snapshot_eq⟩
  rcases List.mem_append.mp member with earlier | last
  · exact goes_on use earlier
  · exact List.mem_singleton.mp last ▸ unended

theorem wasCurrent_now {relation : Relation}
    (found : (catalog.useAll uses).relations[place]? = some relation) :
    catalog.WasCurrent uses relation.id relation.snapshot :=
  ⟨uses, [], place, relation, (List.append_nil uses).symm, by simp, found, rfl, rfl⟩

section

variable {relations : List Relation} {mode : Mode}

/-- What is kept at the end of a transaction is current at that moment. -/
theorem wasCurrent_of_ends {next : RelationUse}
    (ends : next.Ends (opened relations mode) id)
    (kept : (((opened relations mode).useAll uses).use next).kept? id = some snapshot) :
    (opened relations mode).WasCurrent (uses ++ [next]) id snapshot := by
  cases next with
  | endTransaction place =>
      have id_eq : ((opened relations mode).useAll uses).idAt? place = some id := by
        rwa [idAt?_useAll]
      obtain ⟨relation, found, rfl⟩ := exists_relation_of_idAt? id_eq
      rcases endTransactionAt_kept? found with nothing | current
      · cases nothing.symm.trans kept
      · obtain rfl := Option.some.inj (current.symm.trans kept)
        obtain ⟨later, later_found, unlocked_eq⟩ :=
          (endTransactionAt_agrees _ place _).exists_relation found
        have later_found : ((opened relations mode).useAll
            (uses ++ [.endTransaction place])).relations[place]? = some later := by
          rw [useAll_append_singleton]
          exact later_found
        have now := wasCurrent_now later_found
        rwa [(Relation.Remains.of_unlock_eq unlocked_eq).id_eq,
          Relation.snapshot_eq unlocked_eq] at now
  | releaseAll =>
      have locking : mode = .twoPhaseLocking := ends
      have nothing : (((opened relations mode).useAll uses).use .releaseAll).kept? id = none := by
        simp only [kept?, mode_use, mode_useAll]
        rw [show (opened relations mode).access.mode = .twoPhaseLocking from locking]
        rfl
      cases nothing.symm.trans kept
  | _ => exact ends.elim

/-- A read shows what is current, if what is kept was current. -/
theorem wasCurrent_of_shown? (pessimistic : mode.isPessimistic = true)
    (kept_current : ∀ kept, ((opened relations mode).useAll uses).kept? id = some kept →
      (opened relations mode).WasCurrent uses id kept)
    (id_eq : ((opened relations mode).useAll uses).idAt? place = some id)
    (shown : ((opened relations mode).useAll uses).shown? place = some snapshot) :
    (opened relations mode).WasCurrent uses id snapshot := by
  obtain ⟨relation, found, rfl⟩ := exists_relation_of_idAt? id_eq
  have orderly := (isOrderly_opened relations mode).after_useAll uses
  rw [orderly.shown?_eq (by rwa [mode_useAll]) found] at shown
  obtain rfl := Option.some.inj shown
  cases kept : ((opened relations mode).useAll uses).kept? relation.id with
  | none => exact wasCurrent_now found
  | some copy => exact kept_current copy kept

/-- What is kept of a relation was current in the open transaction. -/
theorem wasCurrent_of_kept? (pessimistic : mode.isPessimistic = true)
    (kept : ((opened relations mode).useAll uses).kept? id = some snapshot) :
    (opened relations mode).WasCurrent uses id snapshot := by
  induction uses using List.reverseRecOn generalizing snapshot with
  | nil =>
      have nothing : (opened relations mode).kept? id = none := by
        cases mode <;> rfl
      cases nothing.symm.trans kept
  | append_singleton uses next induction =>
      have orderly := (isOrderly_opened relations mode).after_useAll uses
      have still_pessimistic :
          ((opened relations mode).useAll uses).access.mode.isPessimistic = true := by
        rwa [mode_useAll]
      rw [useAll_append_singleton] at kept
      by_cases ends : next.Ends (opened relations mode) id
      · exact wasCurrent_of_ends ends kept
      · refine WasCurrent.append ?_ ends
        by_cases reads : ∃ place, next = .read place ∧
            ((opened relations mode).useAll uses).idAt? place = some id
        · obtain ⟨place, rfl, id_eq⟩ := reads
          rw [orderly.kept?_read still_pessimistic id_eq] at kept
          exact wasCurrent_of_shown? pessimistic (fun _ => induction) id_eq kept
        · rw [orderly.kept?_use (fun place same id_eq => reads ⟨place, same, id_eq⟩)
            (by rwa [ends_useAll_iff])] at kept
          exact induction kept

/-- What is kept stays, until the transaction of the relation ends. -/
theorem IsOrderly.kept?_useAll (orderly : catalog.IsOrderly)
    (pessimistic : catalog.access.mode.isPessimistic = true)
    (kept : catalog.kept? id = some snapshot) (unended : ∀ use ∈ uses, ¬use.Ends catalog id) :
    (catalog.useAll uses).kept? id = some snapshot := by
  induction uses generalizing catalog with
  | nil => exact kept
  | cons next uses induction =>
      refine induction (orderly.after_use next) (by rwa [mode_use]) ?_ fun use member => ?_
      · by_cases reads : ∃ place, next = .read place ∧ catalog.idAt? place = some id
        · obtain ⟨place, rfl, id_eq⟩ := reads
          obtain ⟨relation, found, rfl⟩ := exists_relation_of_idAt? id_eq
          rw [orderly.kept?_read pessimistic id_eq, orderly.shown?_eq pessimistic found, kept]
          rfl
        · rw [orderly.kept?_use (fun place same id_eq => reads ⟨place, same, id_eq⟩)
            (unended next List.mem_cons_self), kept]
      · exact fun ends => unended use (List.mem_cons_of_mem _ member)
          ((catalog.ends_useAll_iff [next] use id).mp ends)

/-- Two reads of a relation in one transaction show the same: the rows and the version that the
relation had at one moment of this transaction. -/
theorem exists_repeated_read (pessimistic : mode.isPessimistic = true) {first second : Nat}
    (first_eq : (opened relations mode).idAt? first = some id)
    (second_eq : (opened relations mode).idAt? second = some id)
    {earlier between : List RelationUse}
    (unended : ∀ use ∈ between, ¬use.Ends (opened relations mode) id) :
    ∃ snapshot, ((opened relations mode).useAll earlier).shown? first = some snapshot ∧
      ((opened relations mode).useAll (earlier ++ .read first :: between)).shown? second =
        some snapshot ∧
      (opened relations mode).WasCurrent earlier id snapshot := by
  have orderly := (isOrderly_opened relations mode).after_useAll earlier
  have still_pessimistic :
      ((opened relations mode).useAll earlier).access.mode.isPessimistic = true := by
    rwa [mode_useAll]
  have first_id : ((opened relations mode).useAll earlier).idAt? first = some id := by
    rwa [idAt?_useAll]
  obtain ⟨relation, found, rfl⟩ := exists_relation_of_idAt? first_id
  have shown := orderly.shown?_eq still_pessimistic found
  have kept := (orderly.kept?_read still_pessimistic first_id).trans shown
  rw [← useAll_append_singleton] at kept
  have during := (isOrderly_opened relations mode).after_useAll (earlier ++ [.read first])
  have kept_later := during.kept?_useAll (by rwa [mode_useAll]) kept fun use member ends =>
    unended use member ((ends_useAll_iff _ _ use _).mp ends)
  rw [← useAll_append, List.append_assoc, List.singleton_append] at kept_later
  have finally_orderly :=
    (isOrderly_opened relations mode).after_useAll (earlier ++ .read first :: between)
  have second_id : ((opened relations mode).useAll (earlier ++ .read first :: between)).idAt?
      second = some relation.id := by rwa [idAt?_useAll]
  obtain ⟨other, other_found, other_eq⟩ := exists_relation_of_idAt? second_id
  refine ⟨_, shown, ?_, wasCurrent_of_shown? pessimistic
    (fun _ => wasCurrent_of_kept? pessimistic) first_id shown⟩
  rw [finally_orderly.shown?_eq (by rwa [mode_useAll]) other_found, other_eq, kept_later]
  rfl

end

end Catalog

end StreamQuery
