/-!
# Version stamps

A tuple carries, for every relation whose rows went into it, the version of the relation that was
read. Stamps keep the order in which the relations were first read.
-/

namespace StreamQuery

/-- The identity of a relation within one query. -/
abbrev RelationId := Nat

/-- The text of a relation's identity. -/
def RelationId.render (relation : RelationId) : String :=
  "RelationId(" ++ toString relation ++ ")"

/-- The versions of the relations that a tuple has read. -/
structure Stamps where
  /-- The relations with their versions, each relation where it was first read. -/
  entries : List (RelationId × Nat) := []
  deriving DecidableEq

namespace Stamps

/-- The version of a relation, if it was read. -/
def version? (stamps : Stamps) (relation : RelationId) : Option Nat :=
  stamps.entries.lookup relation

/-- Replaces the entry of a relation, or adds one at the end. -/
def setEntry (relation : RelationId) (version : Nat) :
    List (RelationId × Nat) → List (RelationId × Nat)
  | [] => [(relation, version)]
  | entry :: entries =>
    if entry.1 = relation then
      (relation, version) :: entries
    else
      entry :: setEntry relation version entries

/-- Records that a relation was read at a version. -/
def set (stamps : Stamps) (relation : RelationId) (version : Nat) : Stamps where
  entries := setEntry relation version stamps.entries

/-- Adds an entry unless its relation already has one. -/
def adopt (stamps : Stamps) (entry : RelationId × Nat) : Stamps :=
  if (stamps.version? entry.1).isSome then
    stamps
  else
    { entries := stamps.entries ++ [entry] }

/-- Extends stamps by those of relations that they lack. -/
def union (left right : Stamps) : Stamps :=
  right.entries.foldl adopt left

/-- The union of several stamps; the first version of each relation stays. -/
def unions (all : List Stamps) : Stamps :=
  all.foldl union {}

end Stamps

end StreamQuery
