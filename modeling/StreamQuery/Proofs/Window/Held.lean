import StreamQuery.Window.Synopsis

/-!
# Tuples in windows

A synopsis holds, in its window or waiting for it, only tuples that it has accepted, and the windows
that it reports consist of such tuples.
-/

namespace StreamQuery

/-- A window in which each relation has one version is consistent. -/
theorem Contents.isConsistent_of_versions {contents : Contents}
    (versions : RelationId → Option Nat)
    (agree : ∀ entry ∈ contents.stampEntries, versions entry.1 = some entry.2) :
    contents.isConsistent = true := by
  rw [isConsistent, List.all_eq_true]
  intro entry member
  rw [decide_eq_true_eq]
  cases found : contents.stampEntries.lookup entry.1 with
  | none =>
      have absent := List.lookup_eq_none_iff.mp found entry member
      simp at absent
  | some version =>
      obtain ⟨earlier, later, split, _⟩ := List.lookup_eq_some_iff.mp found
      have first_mem : (entry.1, version) ∈ contents.stampEntries := by simp [split]
      exact (agree _ first_mem).symm.trans (agree entry member)

namespace RowBuffer

/-- The tuples that are remembered, oldest first. -/
def held (buffer : RowBuffer) : List Tuple :=
  buffer.tuples ++ buffer.pending

theorem mem_enqueue_held {buffer : RowBuffer} {tuple other : Tuple}
    (member : other ∈ (buffer.enqueue tuple).1.held) : other ∈ buffer.held ∨ other = tuple := by
  simp only [enqueue] at member
  split at member
  · simp only [held, List.mem_append, List.mem_singleton] at member ⊢
    rcases member with (inside | rfl) | waiting
    · exact .inl (.inl inside)
    · exact .inr rfl
    · exact .inl (.inr waiting)
  · split at member
    · simp only [held, List.mem_append, List.append_nil, List.mem_singleton] at member ⊢
      rcases member with kept | waiting | rfl
      · exact .inl (.inl (List.mem_of_mem_drop kept))
      · exact .inl (.inr waiting)
      · exact .inr rfl
    · simp only [held, List.mem_append, List.mem_singleton] at member ⊢
      rcases member with inside | waiting | rfl
      · exact .inl (.inl inside)
      · exact .inl (.inr waiting)
      · exact .inr rfl

/-- A buffer reports the window that it holds, or nothing. -/
theorem enqueue_reports (buffer : RowBuffer) (tuple : Tuple) :
    (buffer.enqueue tuple).2 = [] ∨
      (buffer.enqueue tuple).2 = [(buffer.enqueue tuple).1.contents] := by
  rw [RowBuffer.enqueue]
  split
  · simp only
    split
    · exact .inr rfl
    · exact .inl rfl
  · simp only
    split
    · exact .inr rfl
    · exact .inl rfl

/-- A window that is reported is the one that is visible afterwards. -/
theorem eq_contents_of_mem_enqueue {buffer : RowBuffer} {tuple : Tuple} {window : Contents}
    (member : window ∈ (buffer.enqueue tuple).2) : window = (buffer.enqueue tuple).1.contents := by
  rcases buffer.enqueue_reports tuple with none_reported | reported
  · rw [none_reported] at member
    cases member
  · rw [reported] at member
    exact List.mem_singleton.mp member

theorem tuples_eq_of_mem_enqueue {buffer : RowBuffer} {tuple : Tuple} {window : Contents}
    (member : window ∈ (buffer.enqueue tuple).2) :
    window.tuples = (buffer.enqueue tuple).1.tuples :=
  congrArg Contents.tuples (eq_contents_of_mem_enqueue member)

theorem tuples_ne_nil_of_mem_enqueue {buffer : RowBuffer} {tuple : Tuple}
    {contents : Contents} (reported : contents ∈ (buffer.enqueue tuple).2) :
    contents.tuples ≠ [] := by
  rw [tuples_eq_of_mem_enqueue reported]
  simp only [enqueue] at reported ⊢
  split
  · simp
  · rename_i filled
    rw [if_neg filled] at reported
    split at reported
    · rename_i complete
      simp [complete]
    · cases reported

end RowBuffer

namespace SpanBuffer

theorem close_of_isEmpty (window : Window) {time beginning : Int} {tuples : List Tuple}
    (elapsed : beginning < Time.latest ∧ ending window beginning < time)
    (empty : tuples.isEmpty = true) :
    close window time beginning tuples = ([], skipTo window beginning time, []) := by
  rw [close, dif_pos elapsed, if_pos empty]

theorem close_of_filled (window : Window) {time beginning : Int} {tuples : List Tuple}
    (elapsed : beginning < Time.latest ∧ ending window beginning < time)
    (filled : ¬tuples.isEmpty = true) :
    close window time beginning tuples =
      (close window time (following window beginning)
        (tuples.filter fun tuple => following window beginning ≤ tuple.arrival)).map
          ({ tuples, mark := following window beginning } :: ·) id := by
  rw [close, dif_pos elapsed, if_neg filled]
  rfl

theorem close_of_open (window : Window) {time beginning : Int} {tuples : List Tuple}
    (still_open : ¬(beginning < Time.latest ∧ ending window beginning < time)) :
    close window time beginning tuples = ([], beginning, tuples) := by
  rw [close, dif_neg still_open]

/-- What holds when no window is over, holds when a window without tuples is over, and carries over
from the window after one with tuples holds of every window. -/
@[elab_as_elim]
theorem close_induction (window : Window) (time : Int) {motive : Int → List Tuple → Prop}
    (empty : ∀ beginning tuples, beginning < Time.latest ∧ ending window beginning < time →
      tuples.isEmpty = true → motive beginning tuples)
    (filled : ∀ beginning tuples, beginning < Time.latest ∧ ending window beginning < time →
      ¬tuples.isEmpty = true →
      motive (following window beginning)
        (tuples.filter fun tuple => following window beginning ≤ tuple.arrival) →
      motive beginning tuples)
    (still_open : ∀ beginning tuples,
      ¬(beginning < Time.latest ∧ ending window beginning < time) → motive beginning tuples)
    (beginning : Int) (tuples : List Tuple) : motive beginning tuples := by
  -- Each window that is over begins later than the one before it.
  induction gap_eq : (Time.latest - beginning).toNat using Nat.strongRecOn
    generalizing beginning tuples with
  | _ gap induction =>
      by_cases elapsed : beginning < Time.latest ∧ ending window beginning < time
      · by_cases is_empty : tuples.isEmpty = true
        · exact empty beginning tuples elapsed is_empty
        · have later_lt := lt_following window elapsed.1
          have shorter : (Time.latest - following window beginning).toNat < gap := by omega
          exact filled beginning tuples elapsed is_empty (induction _ shorter _ _ rfl)
      · exact still_open beginning tuples elapsed

/-- No tuple is kept, or part of a window that is over, unless it was in the window before. -/
theorem mem_close {window : Window} {time beginning : Int} {tuples : List Tuple} {other : Tuple}
    (member : other ∈ (close window time beginning tuples).2.2 ∨
      ∃ contents ∈ (close window time beginning tuples).1, other ∈ contents.tuples) :
    other ∈ tuples := by
  induction beginning, tuples using close_induction window time with
  | empty beginning tuples elapsed empty =>
      rw [close_of_isEmpty window elapsed empty] at member
      simp at member
  | filled beginning tuples elapsed filled induction =>
      rw [close_of_filled window elapsed filled] at member
      rcases member with is_kept | ⟨contents, reported, member⟩
      · exact (List.mem_filter.mp (induction (.inl is_kept))).1
      · rcases List.mem_cons.mp reported with rfl | is_later
        · exact member
        · exact (List.mem_filter.mp (induction (.inr ⟨contents, is_later, member⟩))).1
  | still_open beginning tuples still_open =>
      rw [close_of_open window still_open] at member
      simpa using member

/-- A window that is over is reported only if it holds a tuple. -/
theorem tuples_ne_nil_of_mem_close {window : Window} {time beginning : Int}
    {tuples : List Tuple} {contents : Contents}
    (reported : contents ∈ (close window time beginning tuples).1) : contents.tuples ≠ [] := by
  induction beginning, tuples using close_induction window time with
  | empty beginning tuples elapsed empty =>
      rw [close_of_isEmpty window elapsed empty] at reported
      cases reported
  | filled beginning tuples elapsed filled induction =>
      rw [close_of_filled window elapsed filled] at reported
      rcases List.mem_cons.mp reported with rfl | is_later
      · simpa using filled
      · exact induction is_later
  | still_open beginning tuples still_open =>
      rw [close_of_open window still_open] at reported
      cases reported

theorem mem_enqueue_tuples {buffer : SpanBuffer} {tuple other : Tuple}
    (member : other ∈ (buffer.enqueue tuple).1.tuples) : other ∈ buffer.tuples ∨ other = tuple := by
  simp only [enqueue] at member
  split at member
  · rcases List.mem_append.mp member with kept | newest
    · exact .inl (mem_close (.inl kept))
    · exact .inr (List.mem_singleton.mp newest)
  · exact .inl (mem_close (.inl member))

end SpanBuffer

namespace Synopsis

/-- The tuples that are remembered, in the window or waiting for it. -/
def held (synopsis : Synopsis) : List Tuple :=
  synopsis.tuples ++ synopsis.pending

theorem held_ofWindow (window : Window) : (ofWindow window).held = [] := by
  rw [ofWindow]
  cases window.kind <;> rfl

theorem held_reset (synopsis : Synopsis) : synopsis.reset.held = [] := by
  cases synopsis <;> rfl

theorem tuples_subset_held {synopsis : Synopsis} {tuple : Tuple}
    (member : tuple ∈ synopsis.tuples) : tuple ∈ synopsis.held :=
  List.mem_append_left _ member

theorem mem_enqueue_held {synopsis : Synopsis} {tuple other : Tuple}
    (member : other ∈ (synopsis.enqueue tuple).1.held) :
    other ∈ synopsis.held ∨ other = tuple := by
  cases synopsis with
  | rows buffer => exact RowBuffer.mem_enqueue_held member
  | time buffer =>
      rw [held, List.mem_append] at member ⊢
      rcases member with inside | waiting
      · exact (SpanBuffer.mem_enqueue_tuples inside).imp_left .inl
      · cases waiting

/-- The tuples of a window that is reported were remembered or have just arrived. -/
theorem mem_enqueue_window {synopsis : Synopsis} {tuple other : Tuple} {window : Contents}
    (reported : window ∈ (synopsis.enqueue tuple).2) (member : other ∈ window.tuples) :
    other ∈ synopsis.held ∨ other = tuple := by
  cases synopsis with
  | rows buffer =>
      rw [RowBuffer.tuples_eq_of_mem_enqueue reported] at member
      exact RowBuffer.mem_enqueue_held (List.mem_append_left _ member)
  | time buffer =>
      exact .inl (List.mem_append_left _ (SpanBuffer.mem_close (.inr ⟨window, reported, member⟩)))

/-- A window that is reported holds at least one tuple. -/
theorem tuples_ne_nil_of_mem_enqueue {synopsis : Synopsis} {tuple : Tuple}
    {contents : Contents} (reported : contents ∈ (synopsis.enqueue tuple).2) :
    contents.tuples ≠ [] := by
  cases synopsis with
  | rows buffer => exact RowBuffer.tuples_ne_nil_of_mem_enqueue reported
  | time buffer => exact SpanBuffer.tuples_ne_nil_of_mem_close reported

end Synopsis

end StreamQuery
