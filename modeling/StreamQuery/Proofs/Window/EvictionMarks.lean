import StreamQuery.Channel
import StreamQuery.Proofs.Window.RowReports
import StreamQuery.Proofs.Window.SpanReports

/-!
# Eviction marks

A backup is evicted by low-water marks. The mark of a window of rows is a low-water mark as well, so
that eviction spares the tuples of all later windows. The mark of a window of time is the beginning
of the next window, which is a bound on arrivals only: a tuple whose low-water mark lies before its
arrival can be evicted although a later window holds it.
-/

namespace StreamQuery

/-- A mark before which a backup can be evicted without loss to another window. -/
structure Contents.Spares (earlier later : Contents) : Prop where
  /-- It does not lie after the low-water mark of a tuple of that window. -/
  mark_le : ∀ tuple ∈ later.tuples, earlier.mark ≤ tuple.lowWater
  /-- Eviction leaves such a tuple in every backup that holds it. -/
  kept : ∀ tuple ∈ later.tuples, ∀ channel : Channel, tuple ∈ channel.backup →
    tuple ∈ (channel.evictBefore earlier.mark).backup

theorem Contents.spares_of_mark_le {earlier later : Contents}
    (mark_le : ∀ tuple ∈ later.tuples, earlier.mark ≤ tuple.lowWater) : earlier.Spares later where
  mark_le := mark_le
  kept tuple inside _ backed_up :=
    List.mem_filter.mpr ⟨backed_up, decide_eq_true (mark_le tuple inside)⟩

namespace Window

variable {window : Window} {tuples : List Tuple}

/-! ### Windows of rows -/

/-- A window of rows holds only tuples from its beginning on. -/
theorem mem_drop_of_mem_nthRows {index start : Nat} {tuple : Tuple}
    (from_start : start ≤ index * window.stride) (inside : tuple ∈ window.nthRows tuples index) :
    tuple ∈ tuples.drop start := by
  obtain ⟨later, beginning_eq⟩ := Nat.exists_eq_add_of_le from_start
  have dropped := List.mem_of_mem_take inside
  rw [beginning_eq, ← List.drop_drop] at dropped
  exact List.mem_of_mem_drop dropped

/-- The mark of a window of rows does not lie after any tuple from the beginning of the next window
on. -/
theorem IsNthReport.mark_le {index : Nat} {contents : Contents} {tuple : Tuple}
    (report : window.IsNthReport tuples index contents) (stride_le : window.stride ≤ window.width)
    (increasing : tuples.Pairwise fun earlier later => earlier.lowWater < later.lowWater)
    (later : tuple ∈ tuples.drop ((index + 1) * window.stride)) :
    contents.mark ≤ tuple.lowWater := by
  rcases Nat.lt_or_eq_of_le stride_le with shorter | tumbling
  · -- The next window shares its first tuple, which has the oldest low-water mark from there on.
    have least := report.mark_of_lt shorter
    have rest_increasing := increasing.sublist (List.drop_sublist ((index + 1) * window.stride) _)
    obtain ⟨shared, shared_eq⟩ := Nat.exists_eq_add_of_lt (Nat.sub_pos_of_lt shorter)
    cases rest_eq : tuples.drop ((index + 1) * window.stride) with
    | nil =>
        rw [rest_eq] at later
        cases later
    | cons first rest =>
        rw [rest_eq] at later rest_increasing least
        have mark_le_first : contents.mark ≤ first.lowWater := by
          apply least.2
          rw [shared_eq, List.take_succ_cons, List.map_cons]
          exact List.mem_cons_self
        rcases List.mem_cons.mp later with rfl | in_rest
        · exact mark_le_first
        · exact Int.le_trans mark_le_first
            (Int.le_of_lt ((List.pairwise_cons.mp rest_increasing).1 tuple in_rest))
  · obtain ⟨newest, ⟨newest_mem, _⟩, mark_eq⟩ := report.mark_of_eq tumbling
    obtain ⟨last, last_mem, rfl⟩ := List.mem_map.mp newest_mem
    have last_before : last ∈ tuples.take ((index + 1) * window.stride) := by
      rw [nthRows, List.take_drop, ← tumbling, ← Nat.add_one_mul] at last_mem
      exact List.mem_of_mem_drop last_mem
    rw [← List.take_append_drop ((index + 1) * window.stride) tuples] at increasing
    have newer := (List.pairwise_append.mp increasing).2.2 last last_before tuple later
    rw [mark_eq, Time.after]
    omega

/-- The marks of windows of rows spare the tuples of all later windows. -/
theorem spares_of_rows (rows : window.kind = .rows)
    (increasing : tuples.Pairwise fun earlier later => earlier.lowWater < later.lowWater) :
    (window.contentsOf tuples).Pairwise Contents.Spares := by
  rw [contentsOf]
  obtain ⟨_, count_eq, reported⟩ := reportsRows_ofTuples rows tuples
  rw [List.pairwise_iff_getElem]
  intro first second first_lt second_lt before
  obtain ⟨earlier, earlier_report, earlier_eq, _⟩ := reported first (count_eq ▸ first_lt)
  obtain ⟨later, later_report, later_eq, _⟩ := reported second (count_eq ▸ second_lt)
  obtain ⟨_, rfl⟩ := List.getElem?_eq_some_iff.mp earlier_eq
  obtain ⟨_, rfl⟩ := List.getElem?_eq_some_iff.mp later_eq
  refine Contents.spares_of_mark_le fun tuple inside => ?_
  rw [later_report.tuples_eq] at inside
  exact earlier_report.mark_le (window.stride_le rows) increasing
    (mem_drop_of_mem_nthRows (Nat.mul_le_mul_right window.stride before) inside)

/-! ### Windows of time -/

theorem arrival_of_mem_since {moment : Int} {history : List Tuple} {tuple : Tuple}
    (inside : tuple ∈ since moment history) : moment ≤ tuple.arrival :=
  of_decide_eq_true (List.mem_filter.mp (List.mem_reverse.mp inside)).2

/-- The windows that are over follow one another, from the one that was open to the one that is open
then. -/
structure OverInTurn (window : Window) (beginning opened : Int) (starts : List Int) : Prop where
  /-- The open window does not move back. -/
  opened_le : beginning ≤ opened
  /-- No window begins before the one that was open. -/
  starts_le : ∀ start ∈ starts, beginning ≤ start
  /-- Each window moves on. -/
  moves : ∀ start ∈ starts, start ≤ SpanBuffer.following window start
  /-- Each window has moved on before the open one begins. -/
  following_le : ∀ start ∈ starts, SpanBuffer.following window start ≤ opened
  /-- Each window has moved on before the next one begins. -/
  in_turn : starts.Pairwise fun earlier later => SpanBuffer.following window earlier ≤ later

theorem overInTurn_overAt (window : Window) (history : List Tuple) (time beginning : Int) :
    window.OverInTurn beginning (window.overAt history time beginning).2
      (window.overAt history time beginning).1 := by
  fun_induction Window.overAt window history time beginning with
  | case1 beginning elapsed empty =>
      exact ⟨SpanBuffer.le_skipTo window elapsed.1 elapsed.2, List.forall_mem_nil _,
        List.forall_mem_nil _, List.forall_mem_nil _, .nil⟩
  | case2 beginning elapsed filled later opened overAt_eq induction =>
      rw [overAt_eq] at induction
      obtain ⟨opened_le, starts_le, moves, following_le, in_turn⟩ := induction
      have next_le := Int.le_of_lt (SpanBuffer.lt_following window elapsed.1)
      refine ⟨Int.le_trans next_le opened_le, ?_, List.forall_mem_cons.mpr ⟨next_le, moves⟩,
        List.forall_mem_cons.mpr ⟨opened_le, following_le⟩,
        List.pairwise_cons.mpr ⟨starts_le, in_turn⟩⟩
      refine List.forall_mem_cons.mpr ⟨Int.le_refl _, fun start member => ?_⟩
      exact Int.le_trans next_le (starts_le start member)
  | case3 beginning still_open =>
      exact ⟨Int.le_refl _, List.forall_mem_nil _, List.forall_mem_nil _, List.forall_mem_nil _,
        .nil⟩

theorem ending_lt_of_mem_overAt {history : List Tuple} {time beginning start : Int}
    (member : start ∈ (window.overAt history time beginning).1) :
    SpanBuffer.ending window start < time := by
  fun_induction Window.overAt window history time beginning with
  | case1 beginning elapsed empty => cases member
  | case2 beginning elapsed filled later opened overAt_eq induction =>
      rw [overAt_eq] at induction
      rcases List.mem_cons.mp member with rfl | later_mem
      · exact elapsed.2
      · exact induction later_mem
  | case3 beginning still_open => cases member

/-- A tuple has the windows reported that are over when it arrives. -/
theorem contentsOf_append_of_time (spans : window.kind = .time) (tuples : List Tuple)
    (tuple : Tuple) :
    window.contentsOf (tuples ++ [tuple]) =
      window.contentsOf tuples ++
        (window.overAt tuples.reverse tuple.arrival
          ((window.opening? tuples.reverse).getD tuple.arrival)).1.map fun start =>
            { tuples := since start tuples.reverse
              mark := SpanBuffer.following window start } := by
  obtain ⟨buffer, synopsis_eq, shows⟩ := exists_spanBuffer spans tuples
  rw [contentsOf_append_singleton, synopsis_eq, ← shows.reports_eq]
  rfl

/-- Windows that leave no gap are reported not before their marks. -/
theorem exists_mark_le_arrival (spans : window.kind = .time)
    (stride_le : window.stride ≤ window.width) {contents : Contents}
    (reported : contents ∈ window.contentsOf tuples) :
    ∃ tuple ∈ tuples, contents.mark ≤ tuple.arrival := by
  induction tuples using List.reverseRecOn with
  | nil => cases reported
  | append_singleton tuples tuple induction =>
      rw [contentsOf_append_of_time spans] at reported
      rcases List.mem_append.mp reported with is_old | is_new
      · obtain ⟨other, member, mark_le⟩ := induction is_old
        exact ⟨other, List.mem_append_left _ member, mark_le⟩
      · obtain ⟨start, start_mem, rfl⟩ := List.mem_map.mp is_new
        have mark_le := SpanBuffer.following_le_ending stride_le start
        have elapsed := ending_lt_of_mem_overAt start_mem
        exact ⟨tuple, by simp, Int.le_trans mark_le (Int.le_of_lt elapsed)⟩

/-- The marks of windows of time, after some tuples. -/
structure MarksArrivals (window : Window) (tuples : List Tuple) (windows : List Contents) :
    Prop where
  /-- No tuple of a later window arrives before the mark of an earlier one. -/
  mark_le_arrival : windows.Pairwise fun earlier later =>
    ∀ tuple ∈ later.tuples, earlier.mark ≤ tuple.arrival
  /-- No mark lies before that of an earlier window. -/
  mark_le_mark : windows.Pairwise fun earlier later => earlier.mark ≤ later.mark
  /-- The open window does not begin before a mark. -/
  mark_le_opening : ∀ opening ∈ window.opening? tuples.reverse, ∀ contents ∈ windows,
    contents.mark ≤ opening

theorem marksArrivals_contentsOf (spans : window.kind = .time) (tuples : List Tuple) :
    window.MarksArrivals tuples (window.contentsOf tuples) := by
  induction tuples using List.reverseRecOn with
  | nil => exact ⟨.nil, .nil, fun _ _ => List.forall_mem_nil _⟩
  | append_singleton tuples tuple induction =>
      have turn := window.overInTurn_overAt tuples.reverse tuple.arrival
        ((window.opening? tuples.reverse).getD tuple.arrival)
      have older_le : ∀ contents ∈ window.contentsOf tuples,
          contents.mark ≤ (window.opening? tuples.reverse).getD tuple.arrival := by
        intro contents member
        cases found : window.opening? tuples.reverse with
        | some opening => exact induction.mark_le_opening opening found contents member
        | none =>
            rw [List.reverse_eq_nil_iff.mp (eq_nil_of_opening? found)] at member
            cases member
      rw [contentsOf_append_of_time spans]
      refine ⟨?_, ?_, ?_⟩
      · refine List.pairwise_append.mpr ⟨induction.mark_le_arrival, ?_, ?_⟩
        · rw [List.pairwise_map]
          refine turn.in_turn.imp fun next_le other inside => ?_
          exact Int.le_trans next_le (arrival_of_mem_since inside)
        · intro earlier is_old later is_new other inside
          obtain ⟨start, start_mem, rfl⟩ := List.mem_map.mp is_new
          exact Int.le_trans (older_le earlier is_old)
            (Int.le_trans (turn.starts_le start start_mem) (arrival_of_mem_since inside))
      · refine List.pairwise_append.mpr ⟨induction.mark_le_mark, ?_, ?_⟩
        · rw [List.pairwise_map]
          refine turn.in_turn.imp_of_mem fun {first second} _ second_mem next_le => ?_
          exact Int.le_trans next_le (turn.moves second second_mem)
        · intro earlier is_old later is_new
          obtain ⟨start, start_mem, rfl⟩ := List.mem_map.mp is_new
          exact Int.le_trans (older_le earlier is_old)
            (Int.le_trans (turn.starts_le start start_mem) (turn.moves start start_mem))
      · intro opening opening_eq contents member
        rw [List.reverse_append, List.reverse_singleton, List.singleton_append, opening?,
          Option.mem_some_iff] at opening_eq
        rw [← opening_eq]
        rcases List.mem_append.mp member with is_old | is_new
        · exact Int.le_trans (older_le contents is_old) turn.opened_le
        · obtain ⟨start, start_mem, rfl⟩ := List.mem_map.mp is_new
          exact turn.following_le start start_mem

/-- What the marks of the windows that some tuples complete are good for. -/
structure MarksWindows (window : Window) (tuples : List Tuple) (windows : List Contents) :
    Prop where
  /-- Eviction before the mark of a window of rows spares all later windows. -/
  rows : window.kind = .rows → windows.Pairwise Contents.Spares
  /-- No tuple of a later window of time arrives before a mark. -/
  arrivals : window.kind = .time → windows.Pairwise fun earlier later =>
    ∀ tuple ∈ later.tuples, earlier.mark ≤ tuple.arrival
  /-- Eviction spares those windows of time whose tuples have their arrivals as low-water marks. -/
  direct : window.kind = .time → windows.Pairwise fun earlier later =>
    (∀ tuple ∈ later.tuples, tuple.lowWater = tuple.arrival) → earlier.Spares later

end Window

/-- For every window and all tuples with increasing low-water marks, eviction before the mark of a
window of rows spares all later windows; the mark of a window of time is a bound on the arrivals in
all later windows. -/
theorem marks_bound_later_windows (window : Window) (tuples : List Tuple)
    (increasing : tuples.Pairwise fun earlier later => earlier.lowWater < later.lowWater) :
    window.MarksWindows tuples (window.contentsOf tuples) where
  rows rows := Window.spares_of_rows rows increasing
  arrivals spans := (Window.marksArrivals_contentsOf spans tuples).mark_le_arrival
  direct spans := by
    refine (Window.marksArrivals_contentsOf spans tuples).mark_le_arrival.imp
      fun mark_le exact => ?_
    refine Contents.spares_of_mark_le fun tuple inside => ?_
    rw [exact tuple inside]
    exact mark_le tuple inside

/-- Tuples as an operator upstream sends them: their low-water marks lie before their arrivals. -/
def delayedTuples : List Tuple :=
  [(0, 0), (1, 3), (9, 10)].map fun (lowWater, arrival) =>
    { Tuple.blankAt arrival with lowWater }

/-- Tuples as a source sends them: their low-water marks are their arrivals. -/
def promptTuples : List Tuple :=
  [0, 3, 10].map Tuple.blankAt

/-- The mark of a window of rows spares the delayed tuples as well. Those of windows of time bound
their arrivals, and spare tuples that are not delayed. -/
theorem delayedTuples_marked :
    (delayedTuples.Pairwise fun earlier later => earlier.lowWater < later.lowWater) ∧
      (promptTuples.Pairwise fun earlier later => earlier.lowWater < later.lowWater) ∧
      ((Window.time 2 2).contentsOf promptTuples).length = 2 ∧
      (Window.rows 2 1).MarksWindows delayedTuples ((Window.rows 2 1).contentsOf delayedTuples) ∧
      (Window.time 2 2).MarksWindows delayedTuples ((Window.time 2 2).contentsOf delayedTuples) ∧
      (Window.time 2 2).MarksWindows promptTuples ((Window.time 2 2).contentsOf promptTuples) :=
  ⟨by decide, by decide, by decide +kernel,
    marks_bound_later_windows (.rows 2 1) delayedTuples (by decide),
    marks_bound_later_windows (.time 2 2) delayedTuples (by decide),
    marks_bound_later_windows (.time 2 2) promptTuples (by decide)⟩

/-- Windows of time can lose tuples: the window from 0 to 2 is reported with the mark 2, and the
next one holds a tuple whose low-water mark is 1. -/
theorem delayed_tuples_not_spared :
    ¬∀ (window : Window) (tuples : List Tuple),
      (tuples.Pairwise fun earlier later => earlier.arrival < later.arrival) →
      (tuples.Pairwise fun earlier later => earlier.lowWater < later.lowWater) →
      (∀ tuple ∈ tuples, tuple.lowWater ≤ tuple.arrival) →
      (window.contentsOf tuples).Pairwise Contents.Spares := by
  intro claim
  have spared := claim (.time 2 2) delayedTuples (by decide) (by decide) (by decide)
  have bounded : (SynopsisLog.ofTuples (.time 2 2) delayedTuples).reports.flatten.Pairwise
      fun earlier later => ∀ tuple ∈ later.tuples, earlier.mark ≤ tuple.lowWater :=
    spared.imp Contents.Spares.mark_le
  exact absurd bounded (by decide +kernel)

end StreamQuery
