import Mathlib.Data.List.Induction
import StreamQuery.Proofs.Engine.Updates
import StreamQuery.Proofs.Relation.Kept

/-!
# Uses of relations

Relations are read through an access while others change them, in any order, and now and then the
transaction of a relation ends. Which relations are locked, and what a read shows, depends on the
reads since their transactions ended, and on nothing else.
-/

namespace StreamQuery

/-- What happens to relations and to the access through which they are read. -/
inductive RelationUse where
  /-- A relation is read. -/
  | read (place : Nat)
  /-- Someone loads a row into a relation, which keeps its version. -/
  | load (place : Nat) (row : Tuple)
  /-- Someone updates a relation. -/
  | update (place : Nat) (change : List Tuple → List Tuple)
  /-- The transaction of a relation ends. -/
  | endTransaction (place : Nat)
  /-- All locks that the access holds are freed. -/
  | releaseAll

namespace Catalog

/-- Relations that nobody has locked, with an access that has not been used. -/
def opened (relations : List Relation) (mode : Mode) : Catalog where
  relations := relations.map Relation.unlock
  access := { mode }

/-- Changes a relation, unless its lock is held. -/
def changeUnlocked (catalog : Catalog) (place : Nat) (change : Relation → Relation) : Catalog :=
  catalog.modify place fun relation => if relation.isLocked then relation else change relation

/-- What a use makes of a catalog. -/
def use (catalog : Catalog) : RelationUse → Catalog
  | .read place =>
    match catalog.read? place with
    | some (_, after) => after
    | none => catalog
  | .load place row =>
    catalog.changeUnlocked place fun relation => { relation with rows := relation.rows ++ [row] }
  | .update place change => catalog.changeUnlocked place (·.update change)
  | .endTransaction place => catalog.endTransactionAt place catalog.access.mode
  | .releaseAll => catalog.releaseAll

/-- What several uses make of a catalog. -/
def useAll (catalog : Catalog) (uses : List RelationUse) : Catalog :=
  uses.foldl use catalog

/-- The rows and the version that a read of the relation at a place shows. -/
def shown? (catalog : Catalog) (place : Nat) : Option Snapshot :=
  (catalog.read? place).map Prod.fst

/-- The identity of the relation at a place. -/
def idAt? (catalog : Catalog) (place : Nat) : Option RelationId :=
  catalog.relations[place]?.map Relation.id

end Catalog

/-- Whether a use of a catalog ends the transaction of a relation. -/
def RelationUse.Ends (catalog : Catalog) (id : RelationId) : RelationUse → Prop
  | endTransaction place => catalog.idAt? place = some id
  | releaseAll => catalog.access.mode = .twoPhaseLocking
  | _ => False

/-- A relation was read, and its transaction has not ended since. -/
def ReadSince (catalog : Catalog) (uses : List RelationUse) (id : RelationId) : Prop :=
  ∃ past place later, uses = past ++ .read place :: later ∧ catalog.idAt? place = some id ∧
    ∀ use ∈ later, ¬use.Ends catalog id

namespace Catalog

variable {catalog after : Catalog} {place : Nat} {id : RelationId} {use : RelationUse}
  {uses : List RelationUse}

theorem useAll_append (catalog : Catalog) (earlier later : List RelationUse) :
    catalog.useAll (earlier ++ later) = (catalog.useAll earlier).useAll later :=
  List.foldl_append

theorem useAll_append_singleton (catalog : Catalog) (uses : List RelationUse)
    (use : RelationUse) : catalog.useAll (uses ++ [use]) = (catalog.useAll uses).use use :=
  catalog.useAll_append uses [use]

/-! ## Identities -/

theorem idAt?_of_getElem? {relation : Relation}
    (found : catalog.relations[place]? = some relation) :
    catalog.idAt? place = some relation.id := by
  rw [idAt?, found]
  rfl

theorem exists_relation_of_idAt? (found : catalog.idAt? place = some id) :
    ∃ relation, catalog.relations[place]? = some relation ∧ relation.id = id :=
  Option.map_eq_some_iff.mp found

theorem idAt?_changeUnlocked (catalog : Catalog) (change : Relation → Relation)
    (id_eq : ∀ relation : Relation, (change relation).id = relation.id) (changed other : Nat) :
    (catalog.changeUnlocked changed change).idAt? other = catalog.idAt? other := by
  by_cases same : other = changed
  · subst same
    rw [idAt?, idAt?, changeUnlocked, relations_modify_self, Option.map_map]
    refine congrArg (catalog.relations[other]?.map ·) (funext fun relation => ?_)
    simp only [Function.comp_apply]
    split
    · rfl
    · exact id_eq relation
  · rw [idAt?, idAt?, changeUnlocked, relations_modify_of_ne same]

/-- The locks that are held are those that are freed. -/
theorem getElem?_releaseAll (catalog : Catalog) (place : Nat) :
    catalog.releaseAll.relations[place]? =
      catalog.relations[place]?.map fun relation =>
        if place ∈ catalog.access.held.map Prod.snd then relation.unlock else relation := by
  simp only [releaseAll]
  generalize catalog.access.held = entries
  generalize catalog.relations = relations
  induction entries generalizing relations with
  | nil => simp
  | cons entry entries induction =>
      rw [List.foldl_cons, induction, List.getElem?_modify, List.map_cons]
      cases relations[place]? with
      | none => rfl
      | some relation =>
          by_cases same : place = entry.2
          · simp [same, Relation.unlock]
          · simp only [List.mem_cons, same, Ne.symm same, false_or, if_false, Option.map_eq_map,
              Option.map_some]

theorem releaseAll_agrees (catalog : Catalog) : catalog.Agrees catalog.releaseAll := by
  refine ⟨List.ext_getElem? fun place => ?_, rfl⟩
  rw [unlocked, unlocked, List.getElem?_map, List.getElem?_map, getElem?_releaseAll,
    Option.map_map]
  refine congrArg (catalog.relations[place]?.map ·) (funext fun relation => ?_)
  simp only [Function.comp_apply]
  split <;> rfl

/-- Relations differ at most in what depends on their locks. -/
theorem Agrees.getElem?_map_eq (agrees : catalog.Agrees after) {α : Type} {view : Relation → α}
    (unlocked_eq : ∀ relation : Relation, view relation.unlock = view relation) (place : Nat) :
    after.relations[place]?.map view = catalog.relations[place]?.map view := by
  have of_unlocked (catalog : Catalog) :
      catalog.relations[place]?.map view = catalog.unlocked[place]?.map view := by
    rw [unlocked, List.getElem?_map, Option.map_map]
    exact congrArg (catalog.relations[place]?.map ·) (funext fun _ => (unlocked_eq _).symm)
  rw [of_unlocked, of_unlocked, agrees.unlocked_eq]

theorem Agrees.idAt?_eq (agrees : catalog.Agrees after) (place : Nat) :
    after.idAt? place = catalog.idAt? place :=
  agrees.getElem?_map_eq (fun _ => rfl) place

theorem use_read_agrees (catalog : Catalog) (place : Nat) :
    catalog.Agrees (catalog.use (.read place)) := by
  simp only [Catalog.use, read?]
  cases catalog.relations[place]? with
  | none => exact .refl catalog
  | some relation => exact catalog.readRelation_agrees place relation

/-- No use changes which relation lies where. -/
@[simp] theorem idAt?_use (catalog : Catalog) (use : RelationUse) (other : Nat) :
    (catalog.use use).idAt? other = catalog.idAt? other := by
  cases use with
  | read place => exact (catalog.use_read_agrees place).idAt?_eq other
  | load place row =>
      exact catalog.idAt?_changeUnlocked
        (fun relation => { relation with rows := relation.rows ++ [row] })
        (fun _ => rfl) place other
  | update place change =>
      exact catalog.idAt?_changeUnlocked (·.update change) (fun _ => rfl) place other
  | endTransaction place => exact (catalog.endTransactionAt_agrees place _).idAt?_eq other
  | releaseAll => exact catalog.releaseAll_agrees.idAt?_eq other

/-- The protocol stays the same. -/
@[simp] theorem mode_use (catalog : Catalog) (use : RelationUse) :
    (catalog.use use).access.mode = catalog.access.mode := by
  cases use with
  | read place => exact (catalog.use_read_agrees place).mode_eq
  | endTransaction place => exact (catalog.endTransactionAt_agrees place _).mode_eq
  | _ => rfl

@[simp] theorem idAt?_useAll (catalog : Catalog) (uses : List RelationUse) (other : Nat) :
    (catalog.useAll uses).idAt? other = catalog.idAt? other := by
  induction uses generalizing catalog with
  | nil => rfl
  | cons use uses induction => exact (induction _).trans (catalog.idAt?_use use other)

@[simp] theorem mode_useAll (catalog : Catalog) (uses : List RelationUse) :
    (catalog.useAll uses).access.mode = catalog.access.mode := by
  induction uses generalizing catalog with
  | nil => rfl
  | cons use uses induction => exact (induction _).trans (catalog.mode_use use)

/-- The same uses end a transaction before and afterwards. -/
@[simp] theorem ends_useAll_iff (catalog : Catalog) (uses : List RelationUse) (use : RelationUse)
    (id : RelationId) : use.Ends (catalog.useAll uses) id ↔ use.Ends catalog id := by
  cases use <;> simp [RelationUse.Ends]

/-! ## Locks -/

theorem mem_held_iff : id ∈ catalog.access.held.map Prod.fst ↔
    ∃ place, catalog.access.held.lookup id = some place := by
  constructor
  · intro member
    obtain ⟨entry, entry_mem, rfl⟩ := List.mem_map.mp member
    refine Option.ne_none_iff_exists'.mp fun unheld => ?_
    simpa using List.lookup_eq_none_iff.mp unheld entry entry_mem
  · rintro ⟨place, held⟩
    obtain ⟨earlier, later, held_eq, _⟩ := List.lookup_eq_some_iff.mp held
    simp [held_eq]

/-- The locks of the relations are those that the access holds. -/
structure IsOrderly (catalog : Catalog) : Prop where
  /-- A relation is locked if and only if its lock is held. -/
  locked_iff : ∀ place (relation : Relation), catalog.relations[place]? = some relation →
    (relation.isLocked = true ↔ catalog.access.held.lookup relation.id = some place)
  /-- What is held is the lock of a relation that is there. -/
  found : ∀ id place, catalog.access.held.lookup id = some place →
    catalog.idAt? place = some id
  /-- No lock is held twice. -/
  nodup : (catalog.access.held.map Prod.fst).Nodup
  /-- Locks are held only under two-phase locking. -/
  unheld : catalog.access.mode ≠ .twoPhaseLocking → catalog.access.held = []

theorem isOrderly_opened (relations : List Relation) (mode : Mode) :
    (opened relations mode).IsOrderly := by
  refine ⟨fun place relation found => ?_, nofun, List.nodup_nil, fun _ => rfl⟩
  obtain ⟨old, _, rfl⟩ := Option.map_eq_some_iff.mp (List.getElem?_map .. ▸ found)
  exact ⟨nofun, nofun⟩

namespace IsOrderly

variable {relation : Relation}

theorem holdsLocks (orderly : catalog.IsOrderly) : catalog.HoldsLocks := by
  intro id place held
  obtain ⟨relation, found, rfl⟩ := exists_relation_of_idAt? (orderly.found id place held)
  exact ⟨relation, found, rfl, (orderly.locked_iff place relation found).mpr held⟩

theorem lookup_eq_none (orderly : catalog.IsOrderly)
    (unlocking : catalog.access.mode ≠ .twoPhaseLocking) (id : RelationId) :
    catalog.access.held.lookup id = none := by
  rw [orderly.unheld unlocking]
  rfl

theorem changeUnlocked (orderly : catalog.IsOrderly) (change : Relation → Relation)
    (id_eq : ∀ relation : Relation, (change relation).id = relation.id)
    (holder_eq : ∀ relation : Relation, (change relation).holder? = relation.holder?)
    (place : Nat) : (catalog.changeUnlocked place change).IsOrderly := by
  refine ⟨fun other relation found => ?_, fun id other held => ?_, orderly.nodup, orderly.unheld⟩
  · by_cases same : other = place
    · subst same
      rw [Catalog.changeUnlocked, relations_modify_self] at found
      obtain ⟨old, old_found, rfl⟩ := Option.map_eq_some_iff.mp found
      have old_iff := orderly.locked_iff other old old_found
      split
      · exact old_iff
      · rw [Relation.isLocked, holder_eq, id_eq]
        exact old_iff
    · rw [Catalog.changeUnlocked, relations_modify_of_ne same] at found
      exact orderly.locked_iff other relation found
  · rw [catalog.idAt?_changeUnlocked change id_eq]
    exact orderly.found id other held

/-- The first read of a relation in a transaction takes its lock. -/
theorem lock (orderly : catalog.IsOrderly) (mode : catalog.access.mode = .twoPhaseLocking)
    (found : catalog.relations[place]? = some relation)
    (unheld : catalog.access.held.lookup relation.id = none)
    (after_eq : after =
      { (catalog.modify place (·.lock .transaction)) with
        access :=
          { catalog.access with held := catalog.access.held ++ [(relation.id, place)] } }) :
    after.IsOrderly := by
  have agrees : catalog.Agrees after :=
    after_eq ▸ ⟨catalog.unlocked_modify place fun _ => rfl, rfl⟩
  have relations_eq (other : Nat) : after.relations[other]? =
      (catalog.modify place (·.lock .transaction)).relations[other]? := by rw [after_eq]
  have held_eq : after.access.held = catalog.access.held ++ [(relation.id, place)] := by
    rw [after_eq]
  have lookup_eq (id : RelationId) : after.access.held.lookup id =
      (catalog.access.held.lookup id).or (if id = relation.id then some place else none) := by
    rw [held_eq, List.lookup_append]
    by_cases same : id = relation.id
    · simp [same]
    · have mismatch : (id == relation.id) = false := by simpa using same
      simp [same, mismatch, List.lookup_cons]
  refine ⟨fun other current current_found => ?_, fun id other held => ?_, ?_, fun unlocking => ?_⟩
  · rw [relations_eq] at current_found
    by_cases same : other = place
    · subst same
      rw [relations_modify_self, found] at current_found
      obtain rfl := Option.some.inj current_found
      simp [lookup_eq, unheld, Relation.lock, Relation.isLocked]
    · rw [relations_modify_of_ne same] at current_found
      rw [orderly.locked_iff other current current_found, lookup_eq]
      by_cases same_id : current.id = relation.id
      · simp [same_id, unheld, Ne.symm same]
      · simp [same_id]
  · rw [agrees.idAt?_eq]
    rw [lookup_eq] at held
    by_cases same_id : id = relation.id
    · subst same_id
      rw [unheld, if_pos rfl] at held
      obtain rfl := Option.some.inj held
      exact idAt?_of_getElem? found
    · rw [if_neg same_id, Option.or_none] at held
      exact orderly.found id other held
  · rw [held_eq, List.map_append, List.nodup_append]
    refine ⟨orderly.nodup, List.nodup_singleton _, fun id member other other_mem same => ?_⟩
    obtain rfl := List.mem_singleton.mp other_mem
    obtain ⟨heldPlace, held⟩ := mem_held_iff.mp member
    rw [same, unheld] at held
    cases held
  · exact absurd (agrees.mode_eq.trans mode) unlocking

/-- The end of a transaction frees the lock of the relation. -/
theorem unlock (orderly : catalog.IsOrderly) {heldPlace : Nat}
    (held : catalog.access.held.lookup id = some heldPlace)
    (after_eq : after =
      { (catalog.modify heldPlace Relation.unlock) with
        access := { catalog.access with held := catalog.access.held.filter (·.1 ≠ id) } }) :
    after.IsOrderly := by
  have agrees : catalog.Agrees after :=
    after_eq ▸ ⟨catalog.unlocked_modify heldPlace fun _ => rfl, rfl⟩
  have relations_eq (other : Nat) : after.relations[other]? =
      (catalog.modify heldPlace Relation.unlock).relations[other]? := by rw [after_eq]
  have held_eq : after.access.held = catalog.access.held.filter (·.1 ≠ id) := by rw [after_eq]
  have idAt?_eq := orderly.found id heldPlace held
  refine ⟨fun other current current_found => ?_, fun other_id other other_held => ?_, ?_,
    fun unlocking => ?_⟩
  · rw [relations_eq] at current_found
    by_cases same : other = heldPlace
    · subst same
      rw [relations_modify_self] at current_found
      obtain ⟨old, old_found, rfl⟩ := Option.map_eq_some_iff.mp current_found
      have id_eq : old.id = id :=
        Option.some.inj ((idAt?_of_getElem? old_found).symm.trans idAt?_eq)
      have unheld : after.access.held.lookup old.unlock.id = none := by
        rw [held_eq, ← id_eq]
        exact lookup_filter_self
      rw [unheld]
      simp [Relation.unlock, Relation.isLocked]
    · rw [relations_modify_of_ne same] at current_found
      rw [orderly.locked_iff other current current_found, held_eq]
      by_cases same_id : current.id = id
      · rw [same_id, held, lookup_filter_self]
        simp [Ne.symm same]
      · rw [lookup_filter_of_ne same_id]
  · rw [agrees.idAt?_eq]
    rw [held_eq] at other_held
    by_cases same_id : other_id = id
    · rw [same_id, lookup_filter_self] at other_held
      cases other_held
    · rw [lookup_filter_of_ne same_id] at other_held
      exact orderly.found other_id other other_held
  · rw [held_eq]
    exact orderly.nodup.sublist (List.filter_sublist.map _)
  · rw [agrees.mode_eq] at unlocking
    rw [orderly.lookup_eq_none unlocking] at held
    cases held

theorem readRelation (orderly : catalog.IsOrderly)
    (found : catalog.relations[place]? = some relation) :
    (catalog.readRelation place relation).2.IsOrderly := by
  simp only [Catalog.readRelation]
  split
  · rename_i mode
    split
    · exact orderly
    · rename_i unheld
      exact orderly.lock mode found unheld rfl
  · split
    · exact orderly
    · exact ⟨orderly.locked_iff, orderly.found, orderly.nodup, orderly.unheld⟩
  · exact orderly
  · exact orderly

theorem endTransactionAt (orderly : catalog.IsOrderly) (place : Nat) (mode : Mode) :
    (catalog.endTransactionAt place mode).IsOrderly := by
  rw [Catalog.endTransactionAt]
  split
  · cases mode with
    | twoPhaseLocking =>
        simp only [endTransaction]
        split
        · rename_i held
          exact orderly.unlock held rfl
        · exact orderly
    | snapshot => exact ⟨orderly.locked_iff, orderly.found, orderly.nodup, orderly.unheld⟩
    | uncontrolled => exact orderly
    | optimistic => exact orderly
  · exact orderly

/-- No relation is locked after all locks were freed. -/
theorem isLocked_releaseAll (orderly : catalog.IsOrderly)
    (found : catalog.releaseAll.relations[place]? = some relation) :
    relation.isLocked = false := by
  rw [getElem?_releaseAll] at found
  obtain ⟨old, old_found, rfl⟩ := Option.map_eq_some_iff.mp found
  split
  · rfl
  · rename_i unnoted
    refine Bool.eq_false_iff.mpr fun locked => unnoted ?_
    have held := (orderly.locked_iff place old old_found).mp locked
    obtain ⟨earlier, later, held_eq, _⟩ := List.lookup_eq_some_iff.mp held
    simp [held_eq]

theorem releaseAll (orderly : catalog.IsOrderly) : catalog.releaseAll.IsOrderly := by
  refine ⟨fun place relation found => ?_, nofun, List.nodup_nil, fun _ => rfl⟩
  rw [orderly.isLocked_releaseAll found]
  exact ⟨nofun, nofun⟩

/-- The locks stay in order, whatever happens. -/
theorem after_use (orderly : catalog.IsOrderly) (next : RelationUse) :
    (catalog.use next).IsOrderly := by
  cases next with
  | read place =>
      simp only [Catalog.use, read?]
      cases found : catalog.relations[place]? with
      | none => exact orderly
      | some relation => exact orderly.readRelation found
  | load place row =>
      exact orderly.changeUnlocked
        (fun relation => { relation with rows := relation.rows ++ [row] })
        (fun _ => rfl) (fun _ => rfl) place
  | update place change =>
      exact orderly.changeUnlocked (·.update change) (fun _ => rfl) (fun _ => rfl) place
  | endTransaction place => exact orderly.endTransactionAt place _
  | releaseAll => exact orderly.releaseAll

theorem after_useAll (orderly : catalog.IsOrderly) (uses : List RelationUse) :
    (catalog.useAll uses).IsOrderly := by
  induction uses generalizing catalog with
  | nil => exact orderly
  | cons next uses induction => exact induction (orderly.after_use next)

end IsOrderly

/-- No read has to wait for a lock. -/
theorem IsOrderly.mustWait_eq_false (orderly : catalog.IsOrderly) {relation : Relation}
    (found : catalog.relations[place]? = some relation) : catalog.mustWait relation = false := by
  cases locked : relation.isLocked with
  | false => simp [mustWait, locked]
  | true =>
      have held := (orderly.locked_iff place relation found).mp locked
      have mode : catalog.access.mode = .twoPhaseLocking := by
        by_contra unlocking
        rw [orderly.lookup_eq_none unlocking] at held
        cases held
      simp [mustWait, mode, held]

theorem mem_held_readRelation_iff {relation : Relation} :
    id ∈ (catalog.readRelation place relation).2.access.held.map Prod.fst ↔
      (catalog.access.mode = .twoPhaseLocking ∧ relation.id = id) ∨
        id ∈ catalog.access.held.map Prod.fst := by
  simp only [readRelation]
  split
  · rename_i mode
    split
    · rename_i heldPlace held
      refine ⟨.inr, ?_⟩
      rintro (⟨_, rfl⟩ | member)
      · exact mem_held_iff.mpr ⟨heldPlace, held⟩
      · exact member
    · simp [mode, or_comm, eq_comm]
  · rename_i mode
    split <;> simp [mode, RelationAccess.keep]
  · rename_i mode
    simp [mode]
  · rename_i mode
    simp [mode]

theorem IsOrderly.mem_held_endTransactionAt_iff (orderly : catalog.IsOrderly) :
    id ∈ (catalog.endTransactionAt place catalog.access.mode).access.held.map Prod.fst ↔
      id ∈ catalog.access.held.map Prod.fst ∧ catalog.idAt? place ≠ some id := by
  cases found : catalog.relations[place]? with
  | none => simp [Catalog.endTransactionAt, idAt?, found]
  | some relation =>
      rw [idAt?_of_getElem? found, Catalog.endTransactionAt, found]
      by_cases mode : catalog.access.mode = .twoPhaseLocking
      · simp only [mode, endTransaction]
        split
        · simp only [List.mem_map, List.mem_filter, decide_eq_true_eq, ne_eq, Option.some.injEq]
          constructor
          · rintro ⟨entry, ⟨member, different⟩, rfl⟩
            exact ⟨⟨entry, member, rfl⟩, fun same => different same.symm⟩
          · rintro ⟨⟨entry, member, rfl⟩, different⟩
            exact ⟨entry, ⟨member, fun same => different same.symm⟩, rfl⟩
        · rename_i unheld
          refine ⟨fun member => ⟨member, ?_⟩, And.left⟩
          rintro ⟨⟩
          obtain ⟨heldPlace, held⟩ := mem_held_iff.mp member
          rw [unheld] at held
          cases held
      · have nothing := orderly.unheld mode
        cases other : catalog.access.mode with
        | twoPhaseLocking => exact absurd other mode
        | _ => simp [endTransaction, RelationAccess.keep, nothing]

/-- After a use those locks are held that it takes, and those from before that it does not free. -/
theorem IsOrderly.mem_held_use_iff (orderly : catalog.IsOrderly) (next : RelationUse) :
    id ∈ (catalog.use next).access.held.map Prod.fst ↔
      (catalog.access.mode = .twoPhaseLocking ∧
          ∃ place, next = .read place ∧ catalog.idAt? place = some id) ∨
        (id ∈ catalog.access.held.map Prod.fst ∧ ¬next.Ends catalog id) := by
  cases next with
  | read place =>
      simp only [Catalog.use, read?]
      cases found : catalog.relations[place]? with
      | none => simp [idAt?, found, RelationUse.Ends]
      | some relation =>
          rw [Option.map_some]
          simp only [mem_held_readRelation_iff]
          simp [RelationUse.Ends, idAt?, found]
  | load place row => simp [Catalog.use, Catalog.changeUnlocked, modify, RelationUse.Ends]
  | update place change => simp [Catalog.use, Catalog.changeUnlocked, modify, RelationUse.Ends]
  | endTransaction place =>
      rw [Catalog.use, orderly.mem_held_endTransactionAt_iff]
      simp [RelationUse.Ends]
  | releaseAll =>
      by_cases mode : catalog.access.mode = .twoPhaseLocking
      · simp [Catalog.use, Catalog.releaseAll, RelationUse.Ends, mode]
      · simp [Catalog.use, Catalog.releaseAll, RelationUse.Ends, mode, orderly.unheld mode]

/-! ## Reads since a transaction ended -/

theorem readSince_append_singleton_iff (catalog : Catalog) (uses : List RelationUse)
    (next : RelationUse) (id : RelationId) :
    ReadSince catalog (uses ++ [next]) id ↔
      (∃ place, next = .read place ∧ catalog.idAt? place = some id) ∨
        (ReadSince catalog uses id ∧ ¬next.Ends catalog id) := by
  constructor
  · rintro ⟨past, place, later, uses_eq, id_eq, unended⟩
    rcases List.eq_nil_or_concat later with rfl | ⟨earlier, last, rfl⟩
    · obtain ⟨_, same⟩ := List.append_inj' uses_eq rfl
      exact .inl ⟨place, List.singleton_inj.mp same, id_eq⟩
    · rw [List.concat_eq_append, ← List.cons_append, ← List.append_assoc] at uses_eq
      obtain ⟨before_eq, same⟩ := List.append_inj' uses_eq rfl
      obtain rfl := List.singleton_inj.mp same
      exact .inr ⟨⟨past, place, earlier, before_eq, id_eq, fun use member =>
        unended use (by simp [member])⟩, unended next (by simp)⟩
  · rintro (⟨place, rfl, id_eq⟩ | ⟨⟨past, place, later, rfl, id_eq, unended⟩, goes_on⟩)
    · exact ⟨uses, place, [], rfl, id_eq, by simp⟩
    · refine ⟨past, place, later ++ [next], by simp, id_eq, fun use member => ?_⟩
      rcases List.mem_append.mp member with earlier | last
      · exact unended use earlier
      · exact List.mem_singleton.mp last ▸ goes_on

/-- Under two-phase locking the locks are held of those relations that were read since their
transactions ended. -/
theorem mem_held_iff_readSince (relations : List Relation) (mode : Mode)
    (uses : List RelationUse) (id : RelationId) :
    id ∈ ((opened relations mode).useAll uses).access.held.map Prod.fst ↔
      mode = .twoPhaseLocking ∧ ReadSince (opened relations mode) uses id := by
  induction uses using List.reverseRecOn with
  | nil =>
      have unused : ¬ReadSince (opened relations mode) [] id := by
        rintro ⟨past, place, later, uses_eq, _⟩
        simp at uses_eq
      exact ⟨nofun, fun reads => absurd reads.2 unused⟩
  | append_singleton uses next induction =>
      have orderly := (isOrderly_opened relations mode).after_useAll uses
      rw [useAll_append_singleton, orderly.mem_held_use_iff, induction,
        readSince_append_singleton_iff, mode_useAll, ends_useAll_iff]
      simp only [idAt?_useAll]
      rw [show (opened relations mode).access.mode = mode from rfl, and_or_left, and_assoc]

end Catalog

end StreamQuery
