import StreamQuery.Plan.Error
import StreamQuery.Plan.Tree

/-!
# Queries

A query is declared as a list of relations and operators, each operator after those it reads. From
the declarations `Query.ofDeclarations` builds a forest: one tree for every operator, made from
earlier trees, such that no tree is used twice.
-/

namespace StreamQuery

/-- The declaration of an operator. Operators and relations are referred to by name. -/
inductive OperatorDeclaration where
  | stream (schema : Schema)
  | select (input : String) (condition : Condition)
  | project (input : String) (names : List String)
  | combine (input relation : String) (condition : Condition)
  | join (left : String) (leftWindow : Window) (right : String) (rightWindow : Window)
    (condition : Condition)
  | mean (input name : String) (window : Window)
  | elect (input : String) (window : Window)

/-- A declared relation. -/
structure RelationDeclaration where
  /-- The name of the relation. -/
  name : String
  /-- The attributes of its rows. -/
  schema : Schema
  deriving DecidableEq

/-- A declaration. -/
inductive Declaration where
  | relation (declaration : RelationDeclaration)
  | operator (name : String) (declaration : OperatorDeclaration)

/-- A query, ready to be planned. -/
structure Query where
  /-- The relations, by place. -/
  relations : List RelationDeclaration
  /-- For every operator, by place, the tree that it is the root of. -/
  trees : List QueryTree

namespace Query

/-- The operator with a name, with its inputs. -/
def find? (query : Query) (name : String) : Option QueryTree :=
  query.trees.find? (·.name = name)

/-- The place of the relation with a name. -/
def relationPlace? (query : Query) (name : String) : Option Nat :=
  query.relations.findIdx? (·.name = name)

/-- The tree of a root operator. -/
def plan (query : Query) (root : String) : Except PlanError QueryTree :=
  match query.find? root with
  | some tree => .ok tree
  | none => .error (.unknownOperator root)

end Query

namespace OperatorDeclaration

/-- The places of the operators that have a consumer. -/
def consumed (trees : List QueryTree) : List Nat :=
  trees.flatMap fun tree => tree.inputs.map QueryTree.id

/-- The operator with a name, if it has no consumer yet. -/
def freeInput (trees : List QueryTree) (consumed : List Nat) (name : String) :
    Except PlanError QueryTree :=
  match trees.find? (·.name = name) with
  | none => .error (.unknownOperator name)
  | some tree => if tree.id ∈ consumed then .error (.alreadyConsumed name) else .ok tree

/-- The relation with a name, and its place. -/
def relation (relations : List RelationDeclaration) (name : String) :
    Except PlanError (RelationReference × RelationDeclaration) :=
  match relations.zipIdx.find? fun (declaration, _) => declaration.name = name with
  | none => .error (.unknownRelation name)
  | some (declaration, place) => .ok ({ place, name }, declaration)

/-- Fails if a condition of an operator has a name that cannot be found. -/
def ensureResolved (operator : String) : Option String → Except PlanError Unit
  | some name => .error (.unknownAttribute operator name)
  | none => .ok ()

/-- The position of an attribute in the input of an operator. -/
def position (operator : String) (schema : Schema) (name : String) : Except PlanError Nat :=
  match schema.indexOf? name with
  | some index => .ok index
  | none => .error (.unknownAttribute operator name)

/-- The tree of a declared operator over the trees declared before. -/
def link (relations : List RelationDeclaration) (trees : List QueryTree) (name : String) :
    OperatorDeclaration → Except PlanError QueryTree
  | stream schema => return .source { id := trees.length, name, schema }
  | select input condition => do
    let inputTree ← freeInput trees (consumed trees) input
    ensureResolved name (condition.unresolvedIn? inputTree.schema)
    return .single { id := trees.length, name, schema := inputTree.schema }
      (.select condition) inputTree
  | project input names => do
    let inputTree ← freeInput trees (consumed trees) input
    let indices ← names.mapM (position name inputTree.schema)
    return .single { id := trees.length, name, schema := inputTree.schema.project indices }
      (.project indices) inputTree
  | combine input relationName condition => do
    let inputTree ← freeInput trees (consumed trees) input
    let (reference, declaration) ← relation relations relationName
    ensureResolved name (condition.unresolvedInPair? inputTree.schema declaration.schema)
    return .single
      { id := trees.length, name, schema := inputTree.schema ++ declaration.schema }
      (.combine reference condition) inputTree
  | join left leftWindow right rightWindow condition => do
    let leftTree ← freeInput trees (consumed trees) left
    let rightTree ← freeInput trees (leftTree.id :: consumed trees) right
    ensureResolved name (condition.unresolvedInPair? leftTree.schema rightTree.schema)
    return .join { id := trees.length, name, schema := leftTree.schema ++ rightTree.schema }
      { leftWindow, rightWindow, condition } leftTree rightTree
  | mean input attributeName window => do
    let inputTree ← freeInput trees (consumed trees) input
    let index ← position name inputTree.schema attributeName
    unless (inputTree.schema.attribute? index).any (·.type.isNumeric) do
      throw (.nonNumericAttribute name attributeName)
    return .single
      { id := trees.length, name, schema := ⟨[{ name := attributeName, type := .float }]⟩ }
      (.aggregate window (.mean index)) inputTree
  | elect input window => do
    let inputTree ← freeInput trees (consumed trees) input
    return .single { id := trees.length, name, schema := inputTree.schema }
      (.aggregate window .election) inputTree

end OperatorDeclaration

namespace Query

/-- The first name that occurred before. -/
def firstRepeated? (seen : List String) : List String → Option String
  | [] => none
  | name :: names => if name ∈ seen then some name else firstRepeated? (name :: seen) names

/-- Adds the tree of a declared operator to a query. -/
def addOperator (query : Query) (name : String) (declaration : OperatorDeclaration) :
    Except PlanError Query := do
  if (query.find? name).isSome || (query.relationPlace? name).isSome then
    throw (.duplicateName name)
  let tree ← declaration.link query.relations query.trees name
  return { query with trees := query.trees ++ [tree] }

/-- The relations among declarations, in order. -/
def declaredRelations (declarations : List Declaration) : List RelationDeclaration :=
  declarations.filterMap fun
    | .relation declaration => some declaration
    | .operator _ _ => none

/-- The operators among declarations, in order. -/
def declaredOperators (declarations : List Declaration) : List (String × OperatorDeclaration) :=
  declarations.filterMap fun
    | .relation _ => none
    | .operator name declaration => some (name, declaration)

/-- The query that declarations describe. Relations can be declared anywhere; they are looked at
before the operators. -/
def ofDeclarations (declarations : List Declaration) : Except PlanError Query := do
  let relations := declaredRelations declarations
  let operators := declaredOperators declarations
  if operators.isEmpty then
    throw .emptyPlan
  if let some name := firstRepeated? [] (relations.map RelationDeclaration.name) then
    throw (.duplicateName name)
  operators.foldlM (fun query (name, declaration) => query.addOperator name declaration)
    { relations, trees := [] }

end Query

end StreamQuery
