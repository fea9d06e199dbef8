import StreamQuery.Control.Error
import StreamQuery.Plan.Tree

/-!
# Commit operators

The commit operator is where transactions end: the windowed operator that encloses most of the
operators that read relations. Among aggregations with equally many reads the one nearest to the
sources is taken; an aggregation is preferred to a join.
-/

namespace StreamQuery

/-- What a search for the commit operator has found. -/
structure CommitSearch where
  /-- The number of reads that the candidate encloses. -/
  best : Nat := 0
  /-- The candidate. -/
  candidate? : Option QueryTree := none

namespace CommitSearch

/-- Whether an operator that encloses some reads is preferred to the candidate. -/
def isImprovedBy (search : CommitSearch) (reads : Nat) : Bool :=
  search.best < reads ||
    (reads = search.best && search.candidate?.any fun candidate => !candidate.isAggregation)

/-- Looks at an operator that encloses reads. -/
def consider (search : CommitSearch) (tree : QueryTree) : CommitSearch :=
  if search.isImprovedBy tree.reads then
    { best := tree.reads, candidate? := some tree }
  else
    search

/-- Searches a tree, inputs first. Aggregations over reads and joins with reads on both sides are
looked at. -/
def visit (search : CommitSearch) : QueryTree → CommitSearch
  | .source _ => search
  | .single header logic input =>
    let found := search.visit input
    if logic.isAggregation && 0 < input.reads then
      found.consider (.single header logic input)
    else
      found
  | .join header logic left right =>
    let found := (search.visit left).visit right
    if 0 < left.reads && 0 < right.reads then
      found.consider (.join header logic left right)
    else
      found

end CommitSearch

namespace QueryTree

/-- The commit operator, with its inputs, if a relation is read below a windowed operator. -/
def commitOperator? (tree : QueryTree) : Option QueryTree :=
  (CommitSearch.visit {} tree).candidate?

/-- Whether the root computes means. -/
def isMean : QueryTree → Bool
  | single _ (.aggregate _ (.mean _)) _ => true
  | _ => false

/-- The commit operator, which has to be a mean. -/
def validatedCommitOperator (tree : QueryTree) : Except ControlError (Option QueryTree) :=
  match tree.commitOperator? with
  | none => .ok none
  | some commit =>
    if commit.isMean then .ok (some commit)
    else .error (.unsupportedCommitOperator commit.name commit.kind)

/-- Whether rows of a relation reach the output of a tree without passing through a window. -/
def exposesRead : QueryTree → Bool
  | source _ => false
  | single _ logic input =>
    logic.readsRelation || (!logic.isAggregation && input.exposesRead)
  | join _ _ _ _ => false

/-- Whether the window of the commit operator itself covers reads of relations. -/
def commitOverlapsRead (tree : QueryTree) : Bool :=
  tree.commitOperator?.any fun commit => commit.inputs.any exposesRead

end QueryTree

end StreamQuery
