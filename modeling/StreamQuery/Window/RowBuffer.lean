import StreamQuery.Window
import StreamQuery.Window.Contents

/-!
# Windows of rows

The first tuples fill the window. From then on newcomers wait until there are as many as the stride;
then they replace as many of the oldest tuples at once. Each filled or moved window is reported.
-/

namespace StreamQuery

/-- The tuples of a window of rows. -/
structure RowBuffer where
  /-- The number of tuples in a full window. -/
  width : Nat
  /-- The number of tuples replaced at once. -/
  stride : Nat
  /-- The visible window. -/
  tuples : List Tuple := []
  /-- The newcomers that wait for the window to move. -/
  pending : List Tuple := []

namespace RowBuffer

/-- The buffer of a window before any tuple. -/
def ofWindow (window : Window) : RowBuffer where
  width := window.width
  stride := window.stride

/-- The oldest low-water mark that stays when the window moves; if nothing stays, the moment after
the newest low-water mark. -/
def mark (buffer : RowBuffer) : Int :=
  let marks := buffer.tuples.map Tuple.lowWater
  if buffer.stride < buffer.tuples.length then
    (marks.drop buffer.stride).min?.getD Time.earliest
  else
    match marks.max? with
    | some newest => Time.after newest 1
    | none => Time.earliest

/-- The visible window with its mark. -/
def contents (buffer : RowBuffer) : Contents where
  tuples := buffer.tuples
  mark := buffer.mark

/-- Accepts a tuple and reports the window that it completes. -/
def enqueue (buffer : RowBuffer) (tuple : Tuple) : RowBuffer × List Contents :=
  if buffer.tuples.length < buffer.width then
    let filled := { buffer with tuples := buffer.tuples ++ [tuple] }
    (filled, if filled.tuples.length = buffer.width then [filled.contents] else [])
  else
    let pending := buffer.pending ++ [tuple]
    if pending.length = buffer.stride then
      let moved :=
        { buffer with tuples := buffer.tuples.drop buffer.stride ++ pending, pending := [] }
      (moved, [moved.contents])
    else
      ({ buffer with pending }, [])

/-- Forgets all tuples. -/
def reset (buffer : RowBuffer) : RowBuffer :=
  { buffer with tuples := [], pending := [] }

end RowBuffer

end StreamQuery
