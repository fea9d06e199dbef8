import StreamQuery.Condition
import StreamQuery.Window.Synopsis

/-!
# Window joins

A window join buffers both inputs. Whenever a window of one side is completed, and both sides have
completed one before, all pairs of tuples of the two current windows that satisfy the condition are
sent on.
-/

namespace StreamQuery

/-- One of the inputs of a join. -/
inductive Side where
  | left
  | right
  deriving DecidableEq

/-- What a window join remembers of one input. -/
structure JoinSide where
  /-- The buffered input. -/
  synopsis : Synopsis
  /-- Whether a window was completed. -/
  isReady : Bool := false
  /-- Whether the end of the input was seen. -/
  hasEnded : Bool := false

namespace JoinSide

/-- Accepts a tuple and reports whether a window was completed. -/
def accept (side : JoinSide) (tuple : Tuple) : JoinSide × Bool :=
  let (synopsis, windows) := side.synopsis.enqueue tuple
  let completed := !windows.isEmpty
  ({ side with synopsis, isReady := side.isReady || completed }, completed)

/-- Forgets the buffered input. An end that was seen stays seen. -/
def reset (side : JoinSide) : JoinSide :=
  { side with synopsis := side.synopsis.reset, isReady := false }

end JoinSide

/-- What a window join remembers. -/
structure WindowJoin where
  /-- The left input. -/
  left : JoinSide
  /-- The right input. -/
  right : JoinSide

namespace WindowJoin

/-- One of the inputs. -/
def side (join : WindowJoin) : Side → JoinSide
  | .left => join.left
  | .right => join.right

/-- Replaces what is remembered of one input. -/
def setSide (join : WindowJoin) (side : Side) (state : JoinSide) : WindowJoin :=
  match side with
  | .left => { join with left := state }
  | .right => { join with right := state }

/-- Whether both inputs have ended. -/
def hasEnded (join : WindowJoin) : Bool :=
  join.left.hasEnded && join.right.hasEnded

/-- Records the end of one input. -/
def endSide (join : WindowJoin) (side : Side) : WindowJoin :=
  join.setSide side { join.side side with hasEnded := true }

/-- Accepts a tuple on one side and reports whether a window was completed. -/
def accept (join : WindowJoin) (side : Side) (tuple : Tuple) : WindowJoin × Bool :=
  let (state, completed) := (join.side side).accept tuple
  (join.setSide side state, completed)

/-- The smallest low-water mark of both current windows. -/
def lowWater? (join : WindowJoin) : Option Int :=
  ((join.left.synopsis.tuples ++ join.right.synopsis.tuples).map Tuple.lowWater).min?

/-- The tuple that a pair is joined into. It arrives with the later of the two. -/
def pair (schema : Schema) (lowWater : Int) (left right : Tuple) : Tuple where
  kind := .data
  schema := schema
  values := left.values ++ right.values
  arrival := max left.arrival right.arrival
  lowWater := lowWater
  stamps := left.stamps.union right.stamps
  lineage := .paired left.lineage right.lineage

/-- The pairs of the current windows, left tuples first, as tuples of a schema. -/
def candidates (join : WindowJoin) : List (Tuple × Tuple) :=
  join.left.synopsis.tuples.flatMap fun left =>
    join.right.synopsis.tuples.map fun right => (left, right)

/-- The joined tuples of those pairs that satisfy a condition. -/
def select (condition : Condition) (schema : Schema) (lowWater : Int) :
    List (Tuple × Tuple) → Except OperatorError (List Tuple)
  | [] => .ok []
  | (left, right) :: pairs => do
    let matched ← condition.checkPair left right
    let later ← select condition schema lowWater pairs
    return if matched then pair schema lowWater left right :: later else later

/-- The results of the current windows, none before both sides have completed one. -/
def results (join : WindowJoin) (condition : Condition) (schema : Schema) :
    Except OperatorError (List Tuple) :=
  if join.left.isReady && join.right.isReady then
    match join.lowWater? with
    | some lowWater => select condition schema lowWater join.candidates
    | none => .ok []
  else
    .ok []

/-- What became of a join in one evaluation, which takes at most one tuple from each side. -/
structure Turn where
  /-- The join afterwards. -/
  join : WindowJoin
  /-- Whether a window was completed. -/
  completed : Bool := false
  /-- The end-of-stream markers to be sent on: the marker that ended the second side. -/
  markers : List Tuple := []

namespace Turn

/-- Receives a tuple on one side. -/
def receive (turn : Turn) (arrival : Side × Tuple) : Turn :=
  let (side, tuple) := arrival
  if tuple.isEndOfStream then
    let join := turn.join.endSide side
    { turn with
      join
      markers := if join.hasEnded then turn.markers ++ [tuple] else turn.markers }
  else
    let (join, completed) := turn.join.accept side tuple
    { turn with join, completed := turn.completed || completed }

/-- The joined tuples that follow the markers. -/
def results (turn : Turn) (condition : Condition) (schema : Schema) :
    Except OperatorError (List Tuple) :=
  if turn.completed then turn.join.results condition schema else .ok []

end Turn

/-- Forgets the buffered inputs. -/
def reset (join : WindowJoin) : WindowJoin where
  left := join.left.reset
  right := join.right.reset

end WindowJoin

end StreamQuery
