/-!
# Windows

A window says how many of the latest tuples belong together and how far it moves between two
evaluations. Both are counted either in rows or in logical time.
-/

namespace StreamQuery

/-- What the width and the stride of a window count. -/
inductive WindowKind where
  | rows
  | time
  deriving DecidableEq

/-- The width and the stride of a sliding window. -/
structure Window where
  /-- The unit of width and stride. -/
  kind : WindowKind
  /-- The extent of the window. -/
  width : Nat
  /-- How far the window moves at once. -/
  stride : Nat
  /-- A window is never empty. -/
  width_pos : 0 < width
  /-- A window always moves. -/
  stride_pos : 0 < stride
  /-- A window of rows leaves no row out. -/
  stride_le : kind = .rows → stride ≤ width

namespace Window

/-- A window of rows, with the width raised to one and the stride brought into range. -/
def rows (width stride : Nat) : Window where
  kind := .rows
  width := max width 1
  stride := min (max stride 1) (max width 1)
  width_pos := by omega
  stride_pos := by omega
  stride_le := by omega

/-- A window of logical time, with width and stride raised to one. -/
def time (width stride : Nat) : Window where
  kind := .time
  width := max width 1
  stride := max stride 1
  width_pos := by omega
  stride_pos := by omega
  stride_le := by simp

/-- The text of a window. -/
def render (window : Window) : String :=
  let unit := match window.kind with
    | .rows => "rows"
    | .time => "ms"
  "[" ++ toString window.width ++ " " ++ unit ++ ", " ++ toString window.stride ++ "]"

end Window

end StreamQuery
