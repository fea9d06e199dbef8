import StreamQuery.Plan.Tree

/-!
# Traversals

The operators under a root can be visited without recursion: a stack holds the places of those that
are still to come. Every operator is taken from the stack twice, once before its inputs and once
after them, and is visited the second time.
-/

namespace StreamQuery

/-- How far a traversal has come. -/
structure Traversal where
  /-- The operators that have been visited. -/
  order : List Nat := []
  /-- The places to take next, each with whether it has been taken before. -/
  stack : List (Nat × Bool)

namespace Traversal

/-- A traversal of the operators under a root. -/
def start (root : Nat) : Traversal where
  stack := [(root, false)]

/-- Takes an operator from the stack. The first time it is put back below its inputs, of which the
left one comes first; the second time it is visited. A place without an operator is dropped. -/
def step (trees : List QueryTree) (traversal : Traversal) : Traversal :=
  match traversal.stack with
  | [] => traversal
  | (id, isExpanded) :: stack =>
    match trees[id]? with
    | none => { traversal with stack }
    | some tree =>
      if isExpanded then
        { order := traversal.order ++ [id], stack }
      else
        { traversal with stack := tree.inputs.map (·.id, false) ++ (id, true) :: stack }

/-- Takes operators from the stack a number of times. -/
def steps (trees : List QueryTree) : Nat → Traversal → Traversal
  | 0, traversal => traversal
  | count + 1, traversal => steps trees count (traversal.step trees)

end Traversal

end StreamQuery
