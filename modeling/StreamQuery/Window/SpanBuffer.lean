import StreamQuery.Window
import StreamQuery.Window.Contents

/-!
# Windows of time

The first tuple opens the window. A tuple that arrives past the end of the window closes it: as long
as it holds tuples the window is reported and moves by its stride; an empty window moves at once to
the first place whose end is not before the new tuple.
-/

namespace StreamQuery

/-- The tuples of a window of logical time. -/
structure SpanBuffer where
  /-- Width and stride. -/
  window : Window
  /-- The first moment of the open window. -/
  beginning? : Option Int := none
  /-- The tuples of the open window, in order of arrival. -/
  tuples : List Tuple := []

namespace SpanBuffer

/-- An extent of time, at most the largest that can be represented. -/
def extent (length : Nat) : Int :=
  min length Time.latest

/-- The last moment of the window that begins at `beginning`. -/
def ending (window : Window) (beginning : Int) : Int :=
  Time.after beginning (extent window.width)

/-- Where the window after the one that begins at `beginning` begins. -/
def following (window : Window) (beginning : Int) : Int :=
  Time.after beginning (extent window.stride)

theorem lt_following (window : Window) {beginning : Int}
    (early : beginning < Time.latest) : beginning < following window beginning := by
  have positive := window.stride_pos
  simp only [following, Time.after, extent]
  simp only [Time.latest] at *
  omega

/-- The first beginning, in steps of the stride, of a window that reaches up to `time`. The distance
from the end of the window at `beginning` to `time` is taken to be at most `Time.latest`. It always
is if that window begins at zero or later, and a clock hands out no earlier times. -/
def skipTo (window : Window) (beginning time : Int) : Int :=
  let stride := extent window.stride
  let behind := time - ending window beginning
  let steps := min (behind + (stride - 1)) Time.latest / stride
  Time.after beginning (min (steps * stride) Time.latest)

/-- The windows that are over at `time`, where the window open at `time` begins, and the tuples that
it keeps. A window that begins at the last moment is never over. -/
def close (window : Window) (time beginning : Int) (tuples : List Tuple) :
    List Contents × Int × List Tuple :=
  if _ : beginning < Time.latest ∧ ending window beginning < time then
    if tuples.isEmpty then
      ([], skipTo window beginning time, [])
    else
      let next := following window beginning
      let (later, opened, kept) :=
        close window time next (tuples.filter fun tuple => next ≤ tuple.arrival)
      ({ tuples, mark := next } :: later, opened, kept)
  else
    ([], beginning, tuples)
termination_by (Time.latest - beginning).toNat
decreasing_by
  have := lt_following window (And.left ‹_›)
  omega

/-- Accepts a tuple and reports the windows that it closes. A tuple from before the open window is
left out. -/
def enqueue (buffer : SpanBuffer) (tuple : Tuple) : SpanBuffer × List Contents :=
  let (closed, beginning, kept) :=
    close buffer.window tuple.arrival (buffer.beginning?.getD tuple.arrival) buffer.tuples
  let tuples := if beginning ≤ tuple.arrival then kept ++ [tuple] else kept
  ({ buffer with beginning? := some beginning, tuples }, closed)

/-- The open window, with the beginning of the one after it. -/
def contents (buffer : SpanBuffer) : Contents where
  tuples := buffer.tuples
  mark := match buffer.beginning? with
    | some beginning => following buffer.window beginning
    | none => Time.earliest

/-- Forgets all tuples and the place of the window. -/
def reset (buffer : SpanBuffer) : SpanBuffer :=
  { buffer with beginning? := none, tuples := [] }

end SpanBuffer

end StreamQuery
