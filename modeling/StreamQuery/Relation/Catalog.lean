import StreamQuery.Control.Mode
import StreamQuery.Relation

/-!
# The relations of a query

A catalog holds the relations of a query together with the access through which its operators read
them. What a read does depends on the mode: two-phase locking locks the relation until its
transaction ends, snapshot isolation copies it once per transaction, and the other modes look at the
current rows.
-/

namespace StreamQuery

/-- How the operators of a query read relations, with what the open transactions hold. -/
structure RelationAccess where
  /-- The protocol of the reads. -/
  mode : Mode
  /-- The relations that are locked, each with its place in the catalog. -/
  held : List (RelationId × Nat) := []
  /-- The copies that reads go to. -/
  snapshots : List (RelationId × Snapshot) := []

namespace RelationAccess

/-- The number of locks held. -/
def heldCount (access : RelationAccess) : Nat :=
  access.held.length

/-- The version of the copy of a relation. -/
def snapshotVersion? (access : RelationAccess) (relation : RelationId) : Option Nat :=
  (access.snapshots.lookup relation).map Snapshot.version

/-- The access with a copy of a relation, in place of an older one. -/
def keep (access : RelationAccess) (relation : RelationId) (snapshot : Snapshot) :
    RelationAccess :=
  { access with
    snapshots := (access.snapshots.filter (·.1 ≠ relation)) ++ [(relation, snapshot)] }

/-- The text that describes an access, with its relations in order. -/
def render (access : RelationAccess) : String :=
  let held := (access.held.map (·.1)).mergeSort (· ≤ ·)
  let copies := (access.snapshots.map fun (id, copy) => (id, copy.version)).mergeSort
    fun left right => left.1 ≤ right.1
  "RelationAccess \x7b mode: " ++ access.mode.label ++
    ", held: [" ++ ", ".intercalate (held.map RelationId.render) ++
    "], snapshots: [" ++
    ", ".intercalate (copies.map fun (id, version) =>
      "(" ++ RelationId.render id ++ ", " ++ toString version ++ ")") ++
    "], .. \x7d"

end RelationAccess

/-- Relations and the access to them. -/
structure Catalog where
  /-- The relations, by their place in the catalog. -/
  relations : List Relation
  /-- The access of the query that reads them. -/
  access : RelationAccess

namespace Catalog

/-- Changes the relation at a place. -/
def modify (catalog : Catalog) (place : Nat) (change : Relation → Relation) : Catalog :=
  { catalog with relations := catalog.relations.modify place change }

/-- Whether a read of a relation would have to wait for its lock. -/
def mustWait (catalog : Catalog) (relation : Relation) : Bool :=
  relation.isLocked &&
    match catalog.access.mode with
    | .twoPhaseLocking => (catalog.access.held.lookup relation.id).isNone
    | .snapshot => (catalog.access.snapshots.lookup relation.id).isNone
    | .uncontrolled => true
    | .optimistic => true

/-- Reads a relation that lies at a place: the rows and the version that the mode shows, and the
catalog after the read. -/
def readRelation (catalog : Catalog) (place : Nat) (relation : Relation) : Snapshot × Catalog :=
  let access := catalog.access
  match access.mode with
  | .twoPhaseLocking =>
    match access.held.lookup relation.id with
    | some heldPlace =>
      (((catalog.relations[heldPlace]?).getD relation).snapshot, catalog)
    | none =>
      (relation.snapshot,
        { (catalog.modify place (·.lock .transaction)) with
          access := { access with held := access.held ++ [(relation.id, place)] } })
  | .snapshot =>
    match access.snapshots.lookup relation.id with
    | some copy => (copy, catalog)
    | none =>
      (relation.snapshot, { catalog with access := access.keep relation.id relation.snapshot })
  | .uncontrolled => (relation.snapshot, catalog)
  | .optimistic => (relation.snapshot, catalog)

/-- Reads the relation at a place. -/
def read? (catalog : Catalog) (place : Nat) : Option (Snapshot × Catalog) :=
  catalog.relations[place]?.map (catalog.readRelation place)

/-- Ends the transaction of a relation under a mode: its lock is freed, or its copy renewed. -/
def endTransaction (catalog : Catalog) (relation : Relation) (mode : Mode) : Catalog :=
  let access := catalog.access
  match mode with
  | .twoPhaseLocking =>
    match access.held.lookup relation.id with
    | some heldPlace =>
      { (catalog.modify heldPlace Relation.unlock) with
        access := { access with held := access.held.filter (·.1 ≠ relation.id) } }
    | none => catalog
  | .snapshot => { catalog with access := access.keep relation.id relation.snapshot }
  | .uncontrolled => catalog
  | .optimistic => catalog

/-- Ends the transaction of the relation at a place. -/
def endTransactionAt (catalog : Catalog) (place : Nat) (mode : Mode) : Catalog :=
  match catalog.relations[place]? with
  | some relation => catalog.endTransaction relation mode
  | none => catalog

/-- Frees all locks that the access holds. -/
def releaseAll (catalog : Catalog) : Catalog where
  relations := catalog.access.held.foldl
    (fun relations entry => relations.modify entry.2 Relation.unlock) catalog.relations
  access := { catalog.access with held := [] }

end Catalog

end StreamQuery
