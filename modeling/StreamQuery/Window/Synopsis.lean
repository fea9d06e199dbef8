import StreamQuery.Window.RowBuffer
import StreamQuery.Window.SpanBuffer

/-!
# Synopses

A synopsis is what a windowed operator remembers of its input, for a window of either kind.
-/

namespace StreamQuery

/-- The buffered input of a windowed operator. -/
inductive Synopsis where
  | rows (buffer : RowBuffer)
  | time (buffer : SpanBuffer)

namespace Synopsis

/-- The synopsis of a window before any tuple. -/
def ofWindow (window : Window) : Synopsis :=
  match window.kind with
  | .rows => rows (.ofWindow window)
  | .time => time { window }

/-- Accepts a tuple and reports the windows that it completes, oldest first. -/
def enqueue : Synopsis → Tuple → Synopsis × List Contents
  | rows buffer, tuple => (buffer.enqueue tuple).map rows id
  | time buffer, tuple => (buffer.enqueue tuple).map time id

/-- The current window. -/
def contents : Synopsis → Contents
  | rows buffer => buffer.contents
  | time buffer => buffer.contents

/-- The tuples of the current window. -/
def tuples (synopsis : Synopsis) : List Tuple :=
  synopsis.contents.tuples

/-- The newcomers that wait for a window of rows to move. -/
def pending : Synopsis → List Tuple
  | rows buffer => buffer.pending
  | time _ => []

/-- Whether nothing is remembered, in the window or waiting for it. -/
def isEmpty (synopsis : Synopsis) : Bool :=
  synopsis.tuples.isEmpty && synopsis.pending.isEmpty

/-- Forgets everything. -/
def reset : Synopsis → Synopsis
  | rows buffer => rows buffer.reset
  | time buffer => time buffer.reset

end Synopsis

end StreamQuery
