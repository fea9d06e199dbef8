import StreamQuery.Proofs.Engine.Updates
import StreamQuery.Proofs.Relation.Catalog
import StreamQuery.Proofs.Tuple.Fits

/-!
# Rows that fit

If the rows of every relation are tuples of its schema, so are the rows that reads show: current
rows, those of a locked relation, and copies.
-/

namespace StreamQuery

namespace Catalog

/-- Every declared relation is at its place, with rows of its schema. -/
def RowsFit (relations : List RelationDeclaration) (catalog : Catalog) : Prop :=
  ∀ place declared, relations[place]? = some declared →
    ∃ relation : Relation, catalog.relations[place]? = some relation ∧ relation.id = place ∧
      ∀ row ∈ relation.rows, row.Fits declared.schema

/-- What a catalog shows are rows of the schemas of its relations. -/
structure IsTyped (relations : List RelationDeclaration) (catalog : Catalog) : Prop where
  /-- The current rows. -/
  rows : catalog.RowsFit relations
  /-- A lock that is held is noted with the relation that it is the lock of. -/
  held : ∀ id place, catalog.access.held.lookup id = some place → place = id
  /-- The copies. -/
  copies : ∀ id copy declared, (id, copy) ∈ catalog.access.snapshots →
    relations[id]? = some declared → ∀ row ∈ copy.rows, row.Fits declared.schema

variable {relations : List RelationDeclaration} {catalog after : Catalog}

/-- Locks say nothing about rows. -/
theorem RowsFit.of_agrees (fit : catalog.RowsFit relations) (agrees : catalog.Agrees after) :
    after.RowsFit relations := by
  intro place declared is_declared
  obtain ⟨relation, found, id_eq, rows_fit⟩ := fit place declared is_declared
  obtain ⟨later, later_found, same⟩ := agrees.exists_relation found
  have rows_eq : later.rows = relation.rows := congrArg Snapshot.rows (Relation.snapshot_eq same)
  exact ⟨later, later_found, (Relation.Remains.of_unlock_eq same).id_eq.trans id_eq,
    rows_eq ▸ rows_fit⟩

theorem mem_of_lookup {α : Type} {entries : List (RelationId × α)} {id : RelationId} {value : α}
    (found : entries.lookup id = some value) : (id, value) ∈ entries := by
  obtain ⟨earlier, later, split, _⟩ := List.lookup_eq_some_iff.mp found
  simp [split]

namespace IsTyped

variable {place : Nat} {relation : Relation} {declared : RelationDeclaration}

/-- A copy of the current rows is taken. -/
theorem keep (typed : catalog.IsTyped relations) (is_declared : relations[place]? = some declared)
    (found : catalog.relations[place]? = some relation) :
    IsTyped relations
      { catalog with access := catalog.access.keep relation.id relation.snapshot } := by
  obtain ⟨current, current_found, id_eq, rows_fit⟩ := typed.rows place declared is_declared
  obtain rfl := Option.some.inj (current_found.symm.trans found)
  refine ⟨typed.rows, typed.held, fun id copy declared' member is_declared' => ?_⟩
  rcases List.mem_append.mp member with old | newest
  · exact typed.copies id copy declared' (List.mem_filter.mp old).1 is_declared'
  · obtain ⟨rfl, rfl⟩ := Prod.mk.inj (List.mem_singleton.mp newest)
    obtain rfl := Option.some.inj ((id_eq ▸ is_declared).symm.trans is_declared')
    exact rows_fit

/-- A read shows rows of the schema of the relation. -/
theorem readRelation (typed : catalog.IsTyped relations)
    (is_declared : relations[place]? = some declared)
    (found : catalog.relations[place]? = some relation) {snapshot : Snapshot}
    (read : catalog.readRelation place relation = (snapshot, after)) :
    (∀ row ∈ snapshot.rows, row.Fits declared.schema) ∧ after.IsTyped relations := by
  obtain ⟨current, current_found, id_eq, rows_fit⟩ := typed.rows place declared is_declared
  obtain rfl := Option.some.inj (current_found.symm.trans found)
  have agrees := catalog.readRelation_agrees place current
  simp only [Catalog.readRelation] at read agrees
  cases mode : catalog.access.mode with
  | twoPhaseLocking =>
      simp only [mode] at read agrees
      split at read
      · rename_i heldPlace held
        cases read
        refine ⟨?_, typed⟩
        rw [typed.held _ _ held, id_eq, found]
        exact rows_fit
      · rename_i unheld
        simp only [unheld] at agrees
        cases read
        refine ⟨rows_fit, typed.rows.of_agrees agrees, fun id other held => ?_, typed.copies⟩
        rw [List.lookup_append, Option.or_eq_some_iff] at held
        rcases held with old | ⟨_, newest⟩
        · exact typed.held id other old
        · obtain ⟨rfl, rfl⟩ := Prod.mk.inj (List.mem_singleton.mp (mem_of_lookup newest))
          exact id_eq.symm
  | snapshot =>
      simp only [mode] at read
      split at read
      · rename_i copy copied
        cases read
        exact ⟨typed.copies _ _ declared (mem_of_lookup copied) (id_eq ▸ is_declared),
          typed⟩
      · cases read
        exact ⟨rows_fit, typed.keep is_declared found⟩
  | uncontrolled =>
      simp only [mode] at read
      cases read
      exact ⟨rows_fit, typed⟩
  | optimistic =>
      simp only [mode] at read
      cases read
      exact ⟨rows_fit, typed⟩

/-- The end of a transaction changes locks and copies only. -/
theorem endTransactionAt (typed : catalog.IsTyped relations)
    (is_declared : relations[place]? = some declared) (mode : Mode) :
    (catalog.endTransactionAt place mode).IsTyped relations := by
  have agrees := catalog.endTransactionAt_agrees place mode
  rw [Catalog.endTransactionAt] at agrees ⊢
  split
  · rename_i relation found
    simp only [found] at agrees
    cases mode with
    | twoPhaseLocking =>
        simp only [endTransaction] at agrees ⊢
        split
        · rename_i heldPlace held
          simp only [held] at agrees
          refine ⟨typed.rows.of_agrees agrees, fun id other other_held => ?_, typed.copies⟩
          by_cases same : id = relation.id
          · subst same
            cases lookup_filter_self.symm.trans other_held
          · exact typed.held id other ((lookup_filter_of_ne same).symm.trans other_held)
        · exact typed
    | snapshot => exact typed.keep is_declared found
    | uncontrolled => exact typed
    | optimistic => exact typed
  · exact typed

end IsTyped

end Catalog

end StreamQuery
