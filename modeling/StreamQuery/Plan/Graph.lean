import StreamQuery.Plan.Tree

/-!
# Graphs of query trees

A query tree as a directed graph in the DOT language: one node for every operator and relation, and
an edge from each to the operators that read it.
-/

namespace StreamQuery.QueryTree

/-- The shape that the root has in a graph. -/
def graphShape (tree : QueryTree) : String :=
  match tree with
  | source _ => "box"
  | single _ logic _ =>
    if logic.readsRelation then "house"
    else if logic.isAggregation then "doubleoctagon"
    else "ellipse"
  | join _ _ _ _ => "doubleoctagon"

/-- The name of the root in a graph. -/
def graphNode (tree : QueryTree) : String :=
  "n" ++ toString tree.id

/-- The node of a relation and its edge to the operator that reads it. -/
def graphRelation (reader : String) (relation : String) : String :=
  let node := "\"rel_" ++ relation ++ "\""
  "  " ++ node ++ " [label=\"" ++ relation ++ "\", shape=cylinder];\n" ++
    "  " ++ node ++ " -> " ++ reader ++ " [style=dashed];\n"

/-- The root as a node, drawn bold if it is the commit operator, with the edges that lead to it. -/
def graphLines (commit? : Option Nat) (tree : QueryTree) : String :=
  let style := if commit? = some tree.id then ", style=bold" else ""
  "  " ++ tree.graphNode ++ " [label=\"" ++ tree.name ++ "\\n" ++ tree.kind ++ "\", shape=" ++
    tree.graphShape ++ style ++ "];\n" ++
    (match tree.relation? with
      | some relation => graphRelation tree.graphNode relation.name
      | none => "") ++
    String.join (tree.inputs.map fun input =>
      "  " ++ input.graphNode ++ " -> " ++ tree.graphNode ++ ";\n")

/-- The graph of a tree, with its commit operator marked. -/
def graph (commit? : Option Nat) (tree : QueryTree) : String :=
  "digraph query \x7b\n  rankdir=BT;\n" ++
    String.join (tree.postOrder.map (graphLines commit?)) ++ "\x7d\n"

end StreamQuery.QueryTree
