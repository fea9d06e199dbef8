import StreamQuery.Plan.Tree

/-!
# Listings of query trees

A listing shows a query tree with one operator on a line, each input indented below its consumer.
-/

namespace StreamQuery.QueryTree

/-- The line of the root in a listing, at a depth, marked if it is the commit operator. -/
def listingLine (commit? : Option Nat) (depth : Nat) (tree : QueryTree) : String :=
  String.ofList (List.replicate (2 * depth) ' ') ++ tree.name ++ " [" ++ tree.kind ++ "]" ++
    (match tree.window? with
      | some window => " " ++ window.render
      | none => "") ++
    (match tree.relation? with
      | some relation => " <- " ++ relation.name
      | none => "") ++
    (if commit? = some tree.id then " (commit)" else "") ++ "\n"

/-- The lines of a tree whose root is at a depth. -/
def listingFrom (commit? : Option Nat) (depth : Nat) : QueryTree → String
  | source header => listingLine commit? depth (source header)
  | single header logic input =>
    listingLine commit? depth (single header logic input) ++
      listingFrom commit? (depth + 1) input
  | join header logic left right =>
    listingLine commit? depth (join header logic left right) ++
      listingFrom commit? (depth + 1) left ++ listingFrom commit? (depth + 1) right

/-- The listing of a tree, with its commit operator marked. -/
def listing (commit? : Option Nat) (tree : QueryTree) : String :=
  listingFrom commit? 0 tree

end StreamQuery.QueryTree
