import StreamQuery.Proofs.Window.Sliding

/-!
# Tumbling windows of rows

A window that moves by its width has no tuple in common with the one before it. What a buffer has to
remember is therefore only the beginning of the next window.
-/

namespace StreamQuery

/-- A window of rows that moves by its width. -/
structure Window.IsTumbling (window : Window) : Prop where
  /-- The window is counted in rows. -/
  kind_eq : window.kind = .rows
  /-- Nothing stays when it moves. -/
  stride_eq : window.stride = window.width

theorem Window.IsTumbling.ofWindow_eq {window : Window} (tumbling : window.IsTumbling) :
    Synopsis.ofWindow window = .rows (.ofWindow window) := by
  rw [Synopsis.ofWindow, tumbling.kind_eq]

namespace RowBuffer

/-- A buffer for a window that moves by its width, in which the beginning of the next window waits.
-/
structure Gathers (window : Window) (buffer : RowBuffer) (fresh : List Tuple) : Prop where
  /-- The buffer is made for the window. -/
  width_eq : buffer.width = window.width
  /-- Nothing stays when the window moves. -/
  stride_eq : buffer.stride = window.width
  /-- The next window is not full yet. -/
  short : fresh.length < window.width
  /-- The first window fills while it is visible, the others next to the one before. -/
  place : (buffer.tuples = fresh ∧ buffer.pending = []) ∨
    (buffer.tuples.length = window.width ∧ buffer.pending = fresh)

variable {window : Window} {buffer : RowBuffer} {fresh : List Tuple}

theorem gathers_ofWindow (tumbling : window.stride = window.width) :
    (ofWindow window).Gathers window [] :=
  ⟨rfl, tumbling, window.width_pos, .inl ⟨rfl, rfl⟩⟩

theorem Gathers.reset (gathers : buffer.Gathers window fresh) :
    buffer.reset.Gathers window [] :=
  ⟨gathers.width_eq, gathers.stride_eq, window.width_pos, .inl ⟨rfl, rfl⟩⟩

/-- A tuple that is accepted belongs to the beginning of the next window, or it completes it. -/
theorem Gathers.enqueue (gathers : buffer.Gathers window fresh) (tuple : Tuple) :
    ((buffer.enqueue tuple).2 = [] ∧
        (buffer.enqueue tuple).1.Gathers window (fresh ++ [tuple])) ∨
      ((buffer.enqueue tuple).2 = [(buffer.enqueue tuple).1.contents] ∧
        (buffer.enqueue tuple).1.tuples = fresh ++ [tuple] ∧
        (fresh ++ [tuple]).length = window.width ∧
        (buffer.enqueue tuple).1.Gathers window []) := by
  obtain ⟨width_eq, stride_eq, short, place⟩ := gathers
  have width_pos := window.width_pos
  have short_of_ne (unfilled : (fresh ++ [tuple]).length ≠ window.width) :
      (fresh ++ [tuple]).length < window.width := by
    rw [List.length_append, List.length_singleton] at unfilled ⊢
    omega
  rw [RowBuffer.enqueue]
  rcases place with ⟨rfl, pending_eq⟩ | ⟨filled, rfl⟩
  · rw [if_pos (by omega)]
    simp only
    by_cases fills : (buffer.tuples ++ [tuple]).length = window.width
    · right
      rw [if_pos (by rw [fills, width_eq])]
      exact ⟨rfl, trivial, fills, width_eq, stride_eq, width_pos, .inr ⟨fills, pending_eq⟩⟩
    · left
      rw [if_neg (by rwa [width_eq])]
      exact ⟨rfl, width_eq, stride_eq, short_of_ne fills, .inl ⟨rfl, pending_eq⟩⟩
  · rw [if_neg (by omega)]
    simp only
    by_cases moves : (buffer.pending ++ [tuple]).length = window.width
    · right
      have left_behind : buffer.tuples.drop buffer.stride = [] :=
        List.drop_eq_nil_of_le (by omega)
      rw [if_pos (by rw [moves, stride_eq])]
      simp only [left_behind, List.nil_append]
      exact ⟨trivial, trivial, moves, width_eq, stride_eq, width_pos, .inr ⟨moves, rfl⟩⟩
    · left
      rw [if_neg (by rwa [stride_eq])]
      exact ⟨rfl, width_eq, stride_eq, short_of_ne moves, .inr ⟨filled, rfl⟩⟩

/-- While the next window fills next to a full one, the full one stays. -/
theorem enqueue_tuples_of_full (full : buffer.width ≤ buffer.tuples.length) {tuple : Tuple}
    (none_reported : (buffer.enqueue tuple).2 = []) :
    (buffer.enqueue tuple).1.tuples = buffer.tuples := by
  rw [enqueue, if_neg (Nat.not_lt.mpr full)] at none_reported ⊢
  simp only at none_reported ⊢
  split
  · rename_i moves
    rw [if_pos moves] at none_reported
    cases none_reported
  · rfl

end RowBuffer

end StreamQuery
