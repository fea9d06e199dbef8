import StreamQuery.Proofs.Relation.Catalog

/-!
# What transactions keep

Under two-phase locking and under snapshot isolation, the first read of a relation in a transaction
shows its current rows, and all later reads show the same rows until the transaction ends. After its
end a relation is kept at most as it was at that moment.
-/

namespace StreamQuery

namespace Catalog

/-- The rows and the version at which the open transactions keep a relation. -/
def kept? (catalog : Catalog) (relation : RelationId) : Option Snapshot :=
  match catalog.access.mode with
  | .twoPhaseLocking =>
    (catalog.access.held.lookup relation).bind fun place =>
      catalog.relations[place]?.map Relation.snapshot
  | .snapshot => catalog.access.snapshots.lookup relation
  | .uncontrolled => none
  | .optimistic => none

/-- A lock that is held is the lock of the relation that it is noted for. -/
def HoldsLocks (catalog : Catalog) : Prop :=
  ∀ id place, catalog.access.held.lookup id = some place →
    ∃ relation, catalog.relations[place]? = some relation ∧ relation.id = id ∧
      relation.isLocked = true

variable {catalog after : Catalog} {place : Nat} {relation : Relation}

theorem IsCoherent.holdsLocks (coherent : catalog.IsCoherent) : catalog.HoldsLocks := by
  intro id place held
  obtain ⟨rfl, relation, found, locked⟩ := coherent.held id place held
  exact ⟨relation, found, coherent.id_eq place relation found, locked⟩

/-- A read shows what is kept, or the current rows if nothing is kept, and keeps what it shows. -/
theorem readRelation_kept? (holds : catalog.HoldsLocks)
    (pessimistic : catalog.access.mode.isPessimistic = true)
    (found : catalog.relations[place]? = some relation) {snapshot : Snapshot}
    (read : catalog.readRelation place relation = (snapshot, after)) :
    snapshot = (catalog.kept? relation.id).getD relation.snapshot ∧
      after.kept? relation.id = some snapshot := by
  simp only [readRelation] at read
  split at read
  · rename_i mode
    split at read
    · rename_i heldPlace held
      obtain ⟨other, other_found, _⟩ := holds _ _ held
      cases read
      simp [kept?, mode, held, other_found]
    · rename_i unheld
      cases read
      simp [kept?, mode, unheld, List.lookup_append, found, Relation.snapshot, Relation.lock]
  · rename_i mode
    split at read
    · rename_i copy copied
      cases read
      simp [kept?, mode, copied]
    · rename_i uncopied
      cases read
      have kept := lookup_keep_self catalog.access relation.id relation.snapshot
      simp [kept?, mode, uncopied, RelationAccess.keep] at kept ⊢
      exact kept
  · rename_i mode
    simp [mode, Mode.isPessimistic] at pessimistic
  · rename_i mode
    simp [mode, Mode.isPessimistic] at pessimistic

/-- After the end of its transaction a relation is kept as it is at that moment, if at all. -/
theorem endTransactionAt_kept? (found : catalog.relations[place]? = some relation) :
    (catalog.endTransactionAt place catalog.access.mode).kept? relation.id = none ∨
      (catalog.endTransactionAt place catalog.access.mode).kept? relation.id =
        some relation.snapshot := by
  simp only [endTransactionAt, found]
  cases mode : catalog.access.mode with
  | twoPhaseLocking =>
      left
      simp only [endTransaction]
      split
      · have unheld : (catalog.access.held.filter (·.1 ≠ relation.id)).lookup relation.id = none :=
          lookup_filter_self
        simp only [kept?, mode, modify]
        rw [unheld]
        rfl
      · rename_i unheld
        simp [kept?, mode, unheld]
  | snapshot =>
      right
      simp only [endTransaction, kept?, RelationAccess.keep, mode]
      exact lookup_keep_self catalog.access relation.id relation.snapshot
  | uncontrolled =>
      left
      simp [endTransaction, kept?, mode]
  | optimistic =>
      left
      simp [endTransaction, kept?, mode]

/-- Locks and copies stay in order if a relation grows while it is not locked. -/
theorem IsCoherent.modify_unlocked (coherent : catalog.IsCoherent) {change : Relation → Relation}
    (grows : ∀ relation : Relation, relation.Becomes (change relation)) (place : Nat) :
    (catalog.modify place fun relation =>
      if relation.isLocked then relation else change relation).IsCoherent := by
  have becomes (relation : Relation) :
      relation.Becomes (if relation.isLocked then relation else change relation) := by
    split
    · exact .refl relation
    · exact grows relation
  exact (changeRelation_spec coherent becomes fun _ locked => if_pos locked).1

/-- A relation that changes only while it is not locked leaves alone what is kept. -/
theorem modify_kept? (holds : catalog.HoldsLocks) {change : Relation → Relation}
    (guarded : ∀ relation : Relation, relation.isLocked = true → change relation = relation)
    (id : RelationId) : (catalog.modify place change).kept? id = catalog.kept? id := by
  simp only [kept?, show (catalog.modify place change).access = catalog.access from rfl]
  split
  · cases held : catalog.access.held.lookup id with
    | none => rfl
    | some other =>
        obtain ⟨relation, found, _, locked⟩ := holds id other held
        by_cases same : other = place
        · subst same
          rw [Option.bind_some, Option.bind_some, relations_modify_self, found, Option.map_some,
            guarded relation locked]
        · rw [Option.bind_some, Option.bind_some, relations_modify_of_ne same]
  · rfl
  · rfl
  · rfl

end Catalog

end StreamQuery
