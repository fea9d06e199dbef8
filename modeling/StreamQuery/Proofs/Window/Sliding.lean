import Mathlib.Data.List.Pairwise
import Mathlib.Order.Nat
import StreamQuery.Proofs.Window.Held

/-!
# Sliding windows of rows

If tuples are numbered as they are accepted, the windows that a buffer reports begin at the
multiples of the stride. The mark of a window lies between the tuples that the next window leaves
behind and those that it still needs.
-/

namespace StreamQuery

namespace RowBuffer

/-- A buffer for a window that has reported `count` windows and remembers the tuples from number
`first` on. -/
inductive Stands (window : Window) (buffer : RowBuffer) : (first count : Nat) → Prop
  /-- The window number `count` is not full yet. -/
  | filling {count : Nat} (width_eq : buffer.width = window.width)
      (stride_eq : buffer.stride = window.stride) (unfilled : buffer.tuples.length < window.width)
      (pending_eq : buffer.pending = []) : Stands window buffer (count * window.stride) count
  /-- The window number `count` is visible, and newcomers wait for the next one. -/
  | full {count : Nat} (width_eq : buffer.width = window.width)
      (stride_eq : buffer.stride = window.stride) (filled : buffer.tuples.length = window.width)
      (pending_lt : buffer.pending.length < window.stride) :
      Stands window buffer (count * window.stride) (count + 1)

variable {window : Window} {buffer : RowBuffer} {first count : Nat}

theorem stands_ofWindow (window : Window) : Stands window (ofWindow window) 0 0 := by
  have filling : Stands window (ofWindow window) (0 * window.stride) 0 :=
    .filling rfl rfl window.width_pos rfl
  simpa using filling

theorem Stands.width_eq (stands : buffer.Stands window first count) :
    buffer.width = window.width := by
  cases stands <;> assumption

theorem Stands.stride_eq (stands : buffer.Stands window first count) :
    buffer.stride = window.stride := by
  cases stands <;> assumption

/-- A buffer that starts over can fill any window from its beginning. -/
theorem Stands.reset (stands : buffer.Stands window first count) (next : Nat) :
    buffer.reset.Stands window (next * window.stride) next :=
  .filling stands.width_eq stands.stride_eq window.width_pos rfl

/-- What a buffer becomes when it completes window number `count`. -/
structure Completes (window : Window) (before after : RowBuffer) (tuple : Tuple)
    (first count : Nat) : Prop where
  /-- The tuples before the window are forgotten. -/
  tuples_eq : after.tuples = (before.held ++ [tuple]).drop (count * window.stride - first)
  /-- The window is full. -/
  filled : after.tuples.length = window.width
  /-- No newcomer waits. -/
  pending_eq : after.pending = []
  /-- The next window is awaited. -/
  stands : after.Stands window (count * window.stride) (count + 1)

/-- A tuple that is accepted completes a window or is remembered. -/
theorem Stands.enqueue (stands : buffer.Stands window first count)
    (stride_le : window.stride ≤ window.width) (tuple : Tuple) :
    ((buffer.enqueue tuple).2 = [] ∧ (buffer.enqueue tuple).1.held = buffer.held ++ [tuple] ∧
        (buffer.enqueue tuple).1.Stands window first count) ∨
      ((buffer.enqueue tuple).2 = [(buffer.enqueue tuple).1.contents] ∧
        Completes window buffer (buffer.enqueue tuple).1 tuple first count) := by
  rw [RowBuffer.enqueue]
  cases stands with
  | filling width_eq stride_eq unfilled pending_eq =>
      rw [if_pos (by omega)]
      simp only
      by_cases fills : (buffer.tuples ++ [tuple]).length = window.width
      · right
        rw [if_pos (by rw [fills, width_eq])]
        have pending_lt : buffer.pending.length < window.stride := by
          rw [pending_eq]
          exact window.stride_pos
        exact ⟨rfl, by simp [held, pending_eq], fills, pending_eq,
          .full width_eq stride_eq fills pending_lt⟩
      · left
        rw [if_neg (by rwa [width_eq])]
        have still_short : (buffer.tuples ++ [tuple]).length < window.width := by
          rw [List.length_append, List.length_singleton] at fills ⊢
          omega
        exact ⟨rfl, by simp [held, pending_eq],
          .filling width_eq stride_eq still_short pending_eq⟩
  | @full count width_eq stride_eq filled pending_lt =>
      rw [if_neg (by omega)]
      simp only
      by_cases moves : (buffer.pending ++ [tuple]).length = window.stride
      · right
        rw [if_pos (by rw [moves, stride_eq])]
        have moved_length :
            (buffer.tuples.drop buffer.stride ++ (buffer.pending ++ [tuple])).length =
              window.width := by
          rw [List.length_append, List.length_drop, moves]
          omega
        have gap : (count + 1) * window.stride - count * window.stride = buffer.stride := by
          rw [Nat.add_one_mul, stride_eq]
          omega
        refine ⟨rfl, ?_, moved_length, rfl, .full width_eq stride_eq moved_length window.stride_pos⟩
        rw [gap, held, List.append_assoc, List.drop_append_of_le_length (by omega)]
      · left
        rw [if_neg (by rwa [stride_eq])]
        have still_few : (buffer.pending ++ [tuple]).length < window.stride := by
          rw [List.length_append, List.length_singleton] at moves ⊢
          omega
        exact ⟨rfl, by simp [held], .full width_eq stride_eq filled still_few⟩

/-! ## Marks -/

theorem mark_of_stride_lt (shorter : buffer.stride < buffer.tuples.length) :
    buffer.mark ∈ (buffer.tuples.map Tuple.lowWater).drop buffer.stride ∧
      ∀ time ∈ (buffer.tuples.map Tuple.lowWater).drop buffer.stride, buffer.mark ≤ time := by
  have nonempty : (buffer.tuples.map Tuple.lowWater).drop buffer.stride ≠ [] := by
    apply List.ne_nil_of_length_pos
    simpa using Nat.sub_pos_of_lt shorter
  obtain ⟨oldest, oldest_eq⟩ := Option.ne_none_iff_exists'.mp (mt List.min?_eq_none_iff.mp nonempty)
  have mark_eq : buffer.mark = oldest := by
    simp only [mark, if_pos shorter, oldest_eq, Option.getD_some]
  rw [mark_eq]
  exact List.min?_eq_some_iff.mp oldest_eq

theorem mark_of_length_le_stride (filled : 0 < buffer.tuples.length)
    (whole : buffer.tuples.length ≤ buffer.stride) :
    ∃ newest ∈ buffer.tuples.map Tuple.lowWater, buffer.mark = Time.after newest 1 ∧
      ∀ time ∈ buffer.tuples.map Tuple.lowWater, time ≤ newest := by
  have nonempty : buffer.tuples.map Tuple.lowWater ≠ [] := by
    apply List.ne_nil_of_length_pos
    simpa using filled
  obtain ⟨newest, newest_eq⟩ := Option.ne_none_iff_exists'.mp (mt List.max?_eq_none_iff.mp nonempty)
  obtain ⟨newest_mem, le_newest⟩ := List.max?_eq_some_iff.mp newest_eq
  refine ⟨newest, newest_mem, ?_, le_newest⟩
  simp only [mark, if_neg (Nat.not_lt.mpr whole), newest_eq]

/-- The mark lies above the times that the next window leaves behind and not above those that it
needs, unless the last moment has passed and no next window can come. -/
theorem mark_spec {later : List Int} (filled : 0 < buffer.tuples.length)
    (increasing : (buffer.tuples.map Tuple.lowWater ++ later).Pairwise (· < ·))
    (bounded : ∀ time ∈ buffer.tuples.map Tuple.lowWater ++ later, time ≤ Time.latest) :
    (∀ time ∈ (buffer.tuples.map Tuple.lowWater).drop buffer.stride ++ later,
        buffer.mark ≤ time) ∧
      ((∀ time ∈ (buffer.tuples.map Tuple.lowWater).take buffer.stride, time < buffer.mark) ∨
        (buffer.tuples.length ≤ buffer.stride ∧ later = [] ∧
          Time.latest ∈ buffer.tuples.map Tuple.lowWater)) := by
  obtain ⟨times_increasing, _, before_later⟩ := List.pairwise_append.mp increasing
  rcases Nat.lt_or_ge buffer.stride buffer.tuples.length with shorter | whole
  · obtain ⟨mark_mem, mark_le⟩ := mark_of_stride_lt shorter
    constructor
    · intro time member
      rcases List.mem_append.mp member with kept | comes_later
      · exact mark_le time kept
      · exact Int.le_of_lt (before_later _ (List.mem_of_mem_drop mark_mem) time comes_later)
    · left
      intro time left_behind
      rw [← List.take_append_drop buffer.stride (buffer.tuples.map Tuple.lowWater)]
        at times_increasing
      exact (List.pairwise_append.mp times_increasing).2.2 time left_behind _ mark_mem
  · obtain ⟨newest, newest_mem, mark_eq, le_newest⟩ := mark_of_length_le_stride filled whole
    have newest_le : newest ≤ Time.latest := bounded newest (List.mem_append_left _ newest_mem)
    rw [mark_eq, Time.after]
    constructor
    · intro time member
      rcases List.mem_append.mp member with kept | comes_later
      · rw [List.drop_of_length_le (by simpa using whole)] at kept
        cases kept
      · have := before_later newest newest_mem time comes_later
        omega
    · by_cases last : newest = Time.latest
      · right
        refine ⟨whole, List.eq_nil_iff_forall_not_mem.mpr fun time comes_later => ?_,
          last ▸ newest_mem⟩
        have after_newest := before_later newest newest_mem time comes_later
        have time_le := bounded time (List.mem_append_right _ comes_later)
        omega
      · left
        intro time left_behind
        have := le_newest time (List.mem_of_mem_take left_behind)
        omega

end RowBuffer

end StreamQuery
