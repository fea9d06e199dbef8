import StreamQuery.Operator.Cell
import StreamQuery.Plan.Query
import StreamQuery.Relation.Catalog

/-!
# Worlds

A world is everything that a running query works on: the cells of its operators and the relations
that they read. `World.evaluate` is one evaluation of one operator.
-/

namespace StreamQuery

/-- The changing parts of a query. -/
structure World where
  /-- The cells of the operators, by place. -/
  cells : List Cell
  /-- The relations and the access to them. -/
  catalog : Catalog

namespace World

/-- The world of a query before it runs, with empty relations. -/
def initial (query : Query) (mode : Mode) : World where
  cells := query.trees.map Cell.initial
  catalog :=
    { relations := query.relations.zipIdx.map fun (declaration, place) =>
        { id := place, name := declaration.name, schema := declaration.schema }
      access := { mode } }

/-- Changes the cell of an operator. -/
def modifyCell (world : World) (id : Nat) (change : Cell → Cell) : World :=
  { world with cells := world.cells.modify id change }

/-- Changes the output of an operator. -/
def modifyOutput (world : World) (id : Nat) (change : Channel → Channel) : World :=
  world.modifyCell id fun cell => { cell with output := change cell.output }

/-- The output of an operator. -/
def output (world : World) (id : Nat) : Channel :=
  match world.cells[id]? with
  | some cell => cell.output
  | none => {}

/-- Takes the oldest tuple out of the output of an operator. -/
def take (world : World) (id : Nat) : Option Tuple × World :=
  match (world.output id).dequeue? with
  | some (tuple, rest) => (some tuple, world.modifyOutput id fun _ => rest)
  | none => (none, world)

/-- Lets an operator act on its own cell. -/
def act (world : World) (header : OperatorHeader)
    (action : Cell → Cell × Except OperatorError Step) : World × Except OperatorError Step :=
  match world.cells[header.id]? with
  | some cell =>
    let (after, step) := action cell
    (world.modifyCell header.id fun _ => after, step)
  | none => (world, .error (.invalidShape header.name))

/-- Whether an operator has a commit that is still open. -/
def hasPendingCommit (world : World) (id : Nat) : Bool :=
  world.cells[id]?.any Cell.hasPendingCommit

/-- Processes a data tuple by an operator with one input. -/
def process (world : World) (role : CommitRole) (header : OperatorHeader) (logic : SingleLogic)
    (tuple : Tuple) : World × Except OperatorError Step :=
  match logic with
  | .select condition => world.act header (·.select header.name condition tuple)
  | .project indices =>
    world.act header (·.deliver ((projectTuple indices header.schema tuple).map ([·])))
  | .combine reference condition =>
    match world.catalog.relations[reference.place]? with
    | none => (world, .error (.missingRelation header.name))
    | some relation =>
      let (snapshot, catalog) := world.catalog.readRelation reference.place relation
      ({ world with catalog }).act header
        (·.deliver (matchSnapshot condition header.schema relation.id snapshot tuple))
  | .aggregate _ function => world.act header (·.aggregate header function role tuple)

/-- Evaluates an operator with one input: an open commit is closed when a tuple waits; otherwise one
tuple is taken and processed. End-of-stream markers are sent on as they are. -/
def evaluateSingle (world : World) (role : CommitRole) (header : OperatorHeader)
    (logic : SingleLogic) (input : Nat) : World × Except OperatorError Step :=
  if world.hasPendingCommit header.id then
    match (world.output input).peek? with
    | some waiting =>
      (world.modifyCell header.id Cell.closeCommit, .ok (.pendingAbort waiting.lowWater))
    | none => (world, .ok .idle)
  else
    match world.take input with
    | (none, _) => (world, .ok .idle)
    | (some tuple, rest) =>
      let counted := rest.modifyCell header.id (·.consume 1)
      if tuple.isEndOfStream then
        counted.act header (·.deliver (.ok [tuple]))
      else
        counted.process role header logic tuple

/-- Evaluates a window join: at most one tuple is taken from each side. -/
def evaluateJoin (world : World) (header : OperatorHeader) (logic : JoinLogic)
    (left right : Nat) : World × Except OperatorError Step :=
  let (leftTuple?, afterLeft) := world.take left
  let (rightTuple?, afterRight) := afterLeft.take right
  let arrivals := (leftTuple?.map (Side.left, ·)).toList ++
    (rightTuple?.map (Side.right, ·)).toList
  if arrivals.isEmpty then
    (world, .ok .idle)
  else
    afterRight.act header (·.joinArrivals header logic.condition arrivals)

/-- Evaluates the root of a tree once. -/
def evaluate (world : World) (role : CommitRole) : QueryTree → World × Except OperatorError Step
  | .source header => world.act header (·.passOn header.name)
  | .single header logic input => world.evaluateSingle role header logic input.id
  | .join header logic left right => world.evaluateJoin header logic left.id right.id

/-- Lets operators start over, without waiting results except those of an operator to be spared. -/
def restart (world : World) (spared? : Option Nat) (operators : List Nat) : World :=
  operators.foldl
    (fun current id => current.modifyCell id (·.restart (spared? = some id))) world

/-- Changes the outputs of several operators in the same way. -/
def modifyOutputs (world : World) (operators : List Nat) (change : Channel → Channel) : World :=
  operators.foldl (fun current id => current.modifyOutput id change) world

/-- Ends the transactions of the relations that some operators read. -/
def endTransactions (world : World) (mode : Mode) (operators : List QueryTree) : World :=
  { world with
    catalog := operators.foldl
      (fun catalog tree =>
        match tree.relation? with
        | some relation => catalog.endTransactionAt relation.place mode
        | none => catalog)
      world.catalog }

end World

end StreamQuery
