import StreamQuery.Proofs.Window.Held

/-!
# Completed windows

Which windows the newest of some tuples completes can be told from the tuples alone, without a
buffer. A window of rows consists of as many of the latest tuples as it is wide; it is complete
whenever the number of tuples has grown by the stride. A window of time that is over consists of all
tuples so far that did not arrive before it began. Synopses report exactly these windows.

Tuples that came before are given newest first throughout.
-/

namespace StreamQuery

namespace Window

/-- The window of rows that the newest tuple completes. -/
def completedRows (window : Window) (history : List Tuple) : List (List Tuple) :=
  if window.width ≤ history.length ∧ (history.length - window.width) % window.stride = 0 then
    [(history.take window.width).reverse]
  else
    []

/-- The tuples from a moment on, oldest first. -/
def since (moment : Int) (history : List Tuple) : List Tuple :=
  (history.filter fun tuple => moment ≤ tuple.arrival).reverse

theorem since_cons (moment : Int) (newest : Tuple) (history : List Tuple) :
    since moment (newest :: history) =
      if moment ≤ newest.arrival then since moment history ++ [newest]
      else since moment history := by
  by_cases reached : moment ≤ newest.arrival <;> simp [since, reached]

theorem since_filter {beginning next : Int} (later : beginning ≤ next) (history : List Tuple) :
    ((since beginning history).filter fun tuple => next ≤ tuple.arrival) = since next history := by
  rw [since, since, List.filter_reverse, List.filter_filter]
  congr 2
  funext tuple
  by_cases reached : next ≤ tuple.arrival
  · simp [reached, Int.le_trans later reached]
  · simp [reached]

/-- The beginnings of the windows of time that are over at a moment, from a window that begins at
`beginning` on, and where the window that is open then begins. A window without tuples is the last
one to be over. -/
def overAt (window : Window) (history : List Tuple) (time beginning : Int) : List Int × Int :=
  if _ : beginning < Time.latest ∧ SpanBuffer.ending window beginning < time then
    if (since beginning history).isEmpty then
      ([], SpanBuffer.skipTo window beginning time)
    else
      let (later, opened) := overAt window history time (SpanBuffer.following window beginning)
      (beginning :: later, opened)
  else
    ([], beginning)
termination_by (Time.latest - beginning).toNat
decreasing_by
  have := SpanBuffer.lt_following window (And.left ‹_›)
  omega

/-- Where the open window of time begins. The first tuple opens the first window. -/
def opening? (window : Window) : List Tuple → Option Int
  | [] => none
  | newest :: history =>
    some (window.overAt history newest.arrival
      ((window.opening? history).getD newest.arrival)).2

/-- The windows of time that are over when the newest tuple arrives. -/
def completedSpans (window : Window) : List Tuple → List (List Tuple)
  | [] => []
  | newest :: history =>
    (window.overAt history newest.arrival
      ((window.opening? history).getD newest.arrival)).1.map (since · history)

/-- The windows that the newest tuple completes, each with its tuples in order of arrival. -/
def completed (window : Window) (history : List Tuple) : List (List Tuple) :=
  match window.kind with
  | .rows => window.completedRows history
  | .time => window.completedSpans history

end Window

/-! ## Windows of rows -/

namespace RowBuffer

/-- A buffer that shows the latest full window of a history, or all of it as long as there is none;
as many newcomers wait as came after that window. -/
structure Shows (window : Window) (history : List Tuple) (buffer : RowBuffer) : Prop where
  /-- The buffer is made for the window. -/
  width_eq : buffer.width = window.width
  /-- It moves like the window. -/
  stride_eq : buffer.stride = window.stride
  /-- The visible window. -/
  tuples_eq : buffer.tuples =
    ((history.drop ((history.length - window.width) % window.stride)).take window.width).reverse
  /-- The newcomers. -/
  pending_eq : buffer.pending =
    (history.take ((history.length - window.width) % window.stride)).reverse

theorem shows_ofWindow (window : Window) : (ofWindow window).Shows window [] :=
  ⟨rfl, rfl, by simp [ofWindow], by simp [ofWindow]⟩

/-- One more newcomer makes as many as the stride, or one more. -/
theorem succ_mod (count : Nat) {stride : Nat} (stride_pos : 0 < stride) :
    (count % stride + 1 = stride ∧ (count + 1) % stride = 0) ∨
      (count % stride + 1 < stride ∧ (count + 1) % stride = count % stride + 1) := by
  have below := Nat.mod_lt count stride_pos
  rw [← Nat.mod_add_mod]
  rcases Nat.lt_or_ge (count % stride + 1) stride with fewer | enough
  · exact .inr ⟨fewer, Nat.mod_eq_of_lt fewer⟩
  · have whole : count % stride + 1 = stride := by omega
    exact .inl ⟨whole, by rw [whole, Nat.mod_self]⟩

variable {window : Window} {history : List Tuple} {buffer : RowBuffer}

/-- Until the first window is full, all tuples are visible. -/
theorem Shows.enqueue_filling (shows : buffer.Shows window history)
    (short : history.length < window.width) (tuple : Tuple) :
    (buffer.enqueue tuple).1.Shows window (tuple :: history) ∧
      (buffer.enqueue tuple).2.map Contents.tuples = window.completedRows (tuple :: history) := by
  obtain ⟨width_eq, stride_eq, tuples_eq, pending_eq⟩ := shows
  have none_before : (history.length - window.width) % window.stride = 0 := by
    rw [Nat.sub_eq_zero_of_le (Nat.le_of_lt short), Nat.zero_mod]
  have none_after : ((tuple :: history).length - window.width) % window.stride = 0 := by
    rw [List.length_cons, Nat.sub_eq_zero_of_le short, Nat.zero_mod]
  have visible : buffer.tuples = history.reverse := by
    rw [tuples_eq, none_before, List.drop_zero, List.take_of_length_le (Nat.le_of_lt short)]
  have filled : buffer.tuples ++ [tuple] = ((tuple :: history).take window.width).reverse := by
    rw [visible, List.take_of_length_le (by rw [List.length_cons]; exact short), List.reverse_cons]
  have enqueued : buffer.enqueue tuple =
      ({ buffer with tuples := buffer.tuples ++ [tuple] },
        if (buffer.tuples ++ [tuple]).length = buffer.width then
          [({ buffer with tuples := buffer.tuples ++ [tuple] } : RowBuffer).contents]
        else []) := by
    rw [RowBuffer.enqueue, if_pos (by rw [visible, List.length_reverse, width_eq]; exact short)]
  rw [enqueued]
  refine ⟨⟨width_eq, stride_eq, ?_, ?_⟩, ?_⟩
  · rw [none_after, List.drop_zero]
    exact filled
  · rw [none_after, pending_eq, none_before, List.take_zero, List.take_zero]
  · have length_eq : (buffer.tuples ++ [tuple]).length = (tuple :: history).length := by
      simp [visible]
    rw [Window.completedRows, length_eq, width_eq, List.length_cons]
    by_cases fills : history.length + 1 = window.width
    · rw [if_pos fills, if_pos ⟨Nat.le_of_eq fills.symm, none_after⟩]
      exact congrArg (fun tuples => [tuples]) filled
    · rw [if_neg fills, if_neg fun full => fills (Nat.le_antisymm short full.1)]
      rfl

/-- Once a window is full it moves when enough newcomers wait. -/
theorem Shows.enqueue_full (shows : buffer.Shows window history)
    (stride_le : window.stride ≤ window.width) (full : window.width ≤ history.length)
    (tuple : Tuple) :
    (buffer.enqueue tuple).1.Shows window (tuple :: history) ∧
      (buffer.enqueue tuple).2.map Contents.tuples = window.completedRows (tuple :: history) := by
  obtain ⟨width_eq, stride_eq, tuples_eq, pending_eq⟩ := shows
  have stride_pos := window.stride_pos
  have waiting_le := Nat.mod_le (history.length - window.width) window.stride
  have count_eq : (tuple :: history).length - window.width =
      history.length - window.width + 1 := by
    rw [List.length_cons]
    omega
  have shown : ((history.drop ((history.length - window.width) % window.stride)).take
      window.width).length = window.width := by
    rw [List.length_take, List.length_drop]
    omega
  have visible : buffer.tuples.length = window.width := by
    rw [tuples_eq, List.length_reverse, shown]
  have waiting : buffer.pending.length = (history.length - window.width) % window.stride := by
    rw [pending_eq, List.length_reverse, List.length_take]
    omega
  rw [RowBuffer.enqueue, if_neg (by omega), Window.completedRows, count_eq]
  simp only [List.length_append, List.length_singleton, waiting, stride_eq]
  have newcomers : buffer.pending ++ [tuple] =
      ((tuple :: history).take
        ((history.length - window.width) % window.stride + 1)).reverse := by
    rw [pending_eq, List.take_succ_cons, List.reverse_cons]
  rcases succ_mod (history.length - window.width) stride_pos with ⟨enough, whole⟩ | ⟨few, more⟩
  · -- The newcomers and what stays of the window are the latest tuples.
    have stays : buffer.tuples.drop window.stride =
        (((tuple :: history).drop window.stride).take (window.width - window.stride)).reverse := by
      rw [← enough, List.drop_succ_cons, enough, tuples_eq, List.drop_reverse, shown,
        List.take_take, Nat.min_eq_left (Nat.sub_le _ _)]
    have moved : buffer.tuples.drop window.stride ++ (buffer.pending ++ [tuple]) =
        ((tuple :: history).take window.width).reverse := by
      rw [stays, newcomers, enough, ← List.reverse_append, ← List.take_add,
        Nat.add_sub_cancel' stride_le]
    rw [if_pos enough, if_pos ⟨by rw [List.length_cons]; omega, whole⟩]
    refine ⟨⟨width_eq, rfl, ?_, ?_⟩, congrArg (fun tuples => [tuples]) moved⟩
    · rw [count_eq, whole, List.drop_zero]
      exact moved
    · rw [count_eq, whole, List.take_zero]
      rfl
  · rw [if_neg (by omega), if_neg (by omega)]
    refine ⟨⟨width_eq, rfl, ?_, ?_⟩, rfl⟩
    · rw [count_eq, more, List.drop_succ_cons]
      exact tuples_eq
    · rw [count_eq, more]
      exact newcomers

theorem Shows.enqueue (shows : buffer.Shows window history)
    (stride_le : window.stride ≤ window.width) (tuple : Tuple) :
    (buffer.enqueue tuple).1.Shows window (tuple :: history) ∧
      (buffer.enqueue tuple).2.map Contents.tuples = window.completedRows (tuple :: history) := by
  rcases Nat.lt_or_ge history.length window.width with short | full
  · exact shows.enqueue_filling short tuple
  · exact shows.enqueue_full stride_le full tuple

end RowBuffer

/-! ## Windows of time -/

namespace SpanBuffer

theorem extent_pos {length : Nat} (positive : 0 < length) : 0 < extent length := by
  rw [extent, Time.latest]
  omega

/-- The window after one that is not shorter than the stride begins before this one ends. -/
theorem following_le_ending {window : Window} (stride_le : window.stride ≤ window.width)
    (beginning : Int) : following window beginning ≤ ending window beginning := by
  simp only [following, ending, extent, Time.after]
  omega

theorem le_skipTo (window : Window) {beginning time : Int} (early : beginning < Time.latest)
    (ended : ending window beginning < time) : beginning ≤ skipTo window beginning time := by
  have stride_pos := extent_pos window.stride_pos
  have steps_nonneg : 0 ≤
      min (time - ending window beginning + (extent window.stride - 1)) Time.latest /
        extent window.stride := by
    refine Int.ediv_nonneg ?_ (Int.le_of_lt stride_pos)
    rw [Time.latest]
    omega
  have far := Int.mul_nonneg steps_nonneg (Int.le_of_lt stride_pos)
  simp only [skipTo, Time.after, Time.latest] at far early ⊢
  omega

/-- The windows that are closed are those that are over. -/
theorem close_since (window : Window) (history : List Tuple) (time beginning : Int) :
    close window time beginning (Window.since beginning history) =
      ((window.overAt history time beginning).1.map fun start =>
          { tuples := Window.since start history, mark := following window start },
        (window.overAt history time beginning).2,
        Window.since (window.overAt history time beginning).2 history) := by
  fun_induction Window.overAt window history time beginning with
  | case1 beginning elapsed empty =>
      have none_later := Window.since_filter (le_skipTo window elapsed.1 elapsed.2) history
      rw [List.isEmpty_iff.mp empty] at none_later
      rw [close_of_isEmpty window elapsed empty, ← none_later]
      rfl
  | case2 beginning elapsed filled later opened overAt_eq induction =>
      have next_le := Int.le_of_lt (lt_following window elapsed.1)
      rw [close_of_filled window elapsed filled, Window.since_filter next_le, induction, overAt_eq]
      rfl
  | case3 beginning still_open => exact close_of_open window still_open

/-- A buffer that remembers the tuples of the open window. -/
structure Shows (window : Window) (history : List Tuple) (buffer : SpanBuffer) : Prop where
  /-- The buffer is made for the window. -/
  window_eq : buffer.window = window
  /-- The open window. -/
  beginning_eq : buffer.beginning? = window.opening? history
  /-- The tuples that did not arrive before it began. -/
  tuples_eq : ∀ time, buffer.tuples = Window.since ((window.opening? history).getD time) history

theorem shows_start (window : Window) : ({ window } : SpanBuffer).Shows window [] :=
  ⟨rfl, rfl, fun _ => rfl⟩

/-- The windows that a tuple completes are reported with the beginnings of the following ones. -/
theorem Shows.reports_eq {window : Window} {history : List Tuple} {buffer : SpanBuffer}
    (shows : buffer.Shows window history) (tuple : Tuple) :
    (buffer.enqueue tuple).2 =
      (window.overAt history tuple.arrival ((window.opening? history).getD tuple.arrival)).1.map
        fun start => { tuples := Window.since start history, mark := following window start } := by
  obtain ⟨rfl, beginning_eq, tuples_eq⟩ := shows
  simp only [SpanBuffer.enqueue, beginning_eq, tuples_eq tuple.arrival, close_since]

theorem Shows.enqueue {window : Window} {history : List Tuple} {buffer : SpanBuffer}
    (shows : buffer.Shows window history) (tuple : Tuple) :
    (buffer.enqueue tuple).1.Shows window (tuple :: history) ∧
      (buffer.enqueue tuple).2.map Contents.tuples = window.completedSpans (tuple :: history) := by
  have reports_eq := shows.reports_eq tuple
  obtain ⟨rfl, beginning_eq, tuples_eq⟩ := shows
  refine ⟨⟨rfl, ?_, fun time => ?_⟩, ?_⟩
  · simp only [SpanBuffer.enqueue, beginning_eq, tuples_eq tuple.arrival, close_since]
    rfl
  · simp only [SpanBuffer.enqueue, beginning_eq, tuples_eq tuple.arrival, close_since]
    rw [Window.opening?, Option.getD_some, Window.since_cons]
  · rw [reports_eq, List.map_map]
    rfl

end SpanBuffer

/-! ## Synopses -/

namespace Synopsis

/-- A synopsis that remembers what the next windows need of a history. -/
inductive Shows (window : Window) (history : List Tuple) : Synopsis → Prop
  | rows {buffer : RowBuffer} (kind_eq : window.kind = .rows)
      (shows : buffer.Shows window history) : Shows window history (.rows buffer)
  | time {buffer : SpanBuffer} (kind_eq : window.kind = .time)
      (shows : buffer.Shows window history) : Shows window history (.time buffer)

theorem shows_ofWindow (window : Window) : (ofWindow window).Shows window [] := by
  rw [ofWindow]
  cases kind_eq : window.kind with
  | rows => exact .rows kind_eq (RowBuffer.shows_ofWindow window)
  | time => exact .time kind_eq (SpanBuffer.shows_start window)

/-- A synopsis reports the windows that the newest tuple completes. -/
theorem Shows.enqueue {window : Window} {history : List Tuple} {synopsis : Synopsis}
    (shows : synopsis.Shows window history) (tuple : Tuple) :
    (synopsis.enqueue tuple).1.Shows window (tuple :: history) ∧
      (synopsis.enqueue tuple).2.map Contents.tuples = window.completed (tuple :: history) := by
  rw [Window.completed]
  cases shows with
  | rows kind_eq shows =>
      obtain ⟨later, reported⟩ := shows.enqueue (window.stride_le kind_eq) tuple
      rw [kind_eq]
      exact ⟨.rows kind_eq later, reported⟩
  | time kind_eq shows =>
      obtain ⟨later, reported⟩ := shows.enqueue tuple
      rw [kind_eq]
      exact ⟨.time kind_eq later, reported⟩

end Synopsis

end StreamQuery
