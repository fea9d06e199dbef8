import StreamQuery.Time
import StreamQuery.Tuple.Stamps

/-!
# Lineage

The lineage of a tuple says how it came about: which arrivals it was computed from, and which rows
of which relation versions were read on the way. It is a record for reasoning; no operator looks at
it.
-/

namespace StreamQuery

/-- How a tuple came about. -/
inductive Lineage where
  /-- It arrived from outside at a time. -/
  | arrival (time : Int)
  /-- A tuple met a row of a relation, found at a position in the rows of a version. -/
  | matched (input : Lineage) (relation : RelationId) (version : Nat) (row : Nat)
  /-- Two tuples were paired by a window join. -/
  | paired (left right : Lineage)
  /-- The tuples of a window were aggregated. -/
  | window (members : List Lineage)

namespace Lineage

mutual

/-- The times of the arrivals that a tuple was computed from. -/
def arrivals : Lineage → List Int
  | arrival time => [time]
  | matched input _ _ _ => input.arrivals
  | paired left right => left.arrivals ++ right.arrivals
  | window members => arrivalsOfAll members

/-- The arrivals of all members of a window. -/
def arrivalsOfAll : List Lineage → List Int
  | [] => []
  | member :: members => member.arrivals ++ arrivalsOfAll members

end

mutual

/-- The relation versions whose rows went into a tuple. -/
def reads : Lineage → List (RelationId × Nat)
  | arrival _ => []
  | matched input relation version _ => (relation, version) :: input.reads
  | paired left right => left.reads ++ right.reads
  | window members => readsOfAll members

/-- The reads of all members of a window. -/
def readsOfAll : List Lineage → List (RelationId × Nat)
  | [] => []
  | member :: members => member.reads ++ readsOfAll members

end

theorem arrivalsOfAll_eq_flatMap (members : List Lineage) :
    arrivalsOfAll members = members.flatMap arrivals := by
  induction members with
  | nil => rfl
  | cons member members induction => simp [arrivalsOfAll, induction]

theorem readsOfAll_eq_flatMap (members : List Lineage) :
    readsOfAll members = members.flatMap reads := by
  induction members with
  | nil => rfl
  | cons member members induction => simp [readsOfAll, induction]

end Lineage

end StreamQuery
