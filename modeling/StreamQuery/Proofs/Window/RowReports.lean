import Mathlib.Algebra.Order.Group.Nat
import Mathlib.Data.Nat.Basic
import Mathlib.Order.Bounds.Basic
import StreamQuery.Proofs.Window.Calls
import StreamQuery.Proofs.Window.Completed
import StreamQuery.Proofs.Window.Sliding

/-!
# Reports of windows of rows

Number the tuples and the windows from zero. Window number `index` begins at the tuple with number
`index * stride` and is reported by its last tuple, so that the number of windows reported so far,
the visible window and the number of newcomers can be told from the number of tuples.
-/

namespace StreamQuery

namespace Window

/-- The number of windows of rows that are complete after some tuples. -/
def rowCount (window : Window) (count : Nat) : Nat :=
  if count < window.width then 0 else (count - window.width) / window.stride + 1

/-- The tuples of one window of rows, oldest first. -/
def nthRows (window : Window) (tuples : List Tuple) (index : Nat) : List Tuple :=
  (tuples.drop (index * window.stride)).take window.width

/-- What is reported of one window of rows. -/
structure IsNthReport (window : Window) (tuples : List Tuple) (index : Nat) (contents : Contents) :
    Prop where
  /-- The tuples of the window. -/
  tuples_eq : contents.tuples = window.nthRows tuples index
  /-- The mark is the oldest low-water mark that the next window shares. -/
  mark_of_lt : window.stride < window.width →
    IsLeast
      {time | time ∈ ((tuples.drop ((index + 1) * window.stride)).take
        (window.width - window.stride)).map Tuple.lowWater}
      contents.mark
  /-- If it shares none, the mark follows the newest low-water mark of the window. -/
  mark_of_eq : window.stride = window.width → ∃ newest,
    IsGreatest {time | time ∈ (window.nthRows tuples index).map Tuple.lowWater} newest ∧
      contents.mark = Time.after newest 1

/-- What a synopsis shows and has reported of a window of rows after some tuples. -/
structure SlidesOver (window : Window) (tuples : List Tuple) (log : SynopsisLog) : Prop where
  /-- As many windows were reported as are complete. -/
  count_eq : log.reports.flatten.length = window.rowCount tuples.length
  /-- Each window is reported in its turn, when its last tuple arrives. -/
  reported : ∀ index < window.rowCount tuples.length, ∃ contents,
    window.IsNthReport tuples index contents ∧ log.reports.flatten[index]? = some contents ∧
      log.reports[index * window.stride + window.width - 1]? = some [contents]
  /-- The last window that was completed is visible, or all tuples if there is none. -/
  tuples_eq : log.synopsis.tuples =
    if tuples.length < window.width then tuples
    else window.nthRows tuples (window.rowCount tuples.length - 1)
  /-- The newcomers are those that came after the last window. -/
  pending_length : log.synopsis.pending.length =
    if tuples.length < window.width then 0
    else (tuples.length - window.width) % window.stride

theorem lt_rowCount_iff (window : Window) {index count : Nat} :
    index < window.rowCount count ↔ index * window.stride + window.width ≤ count := by
  rw [rowCount]
  split
  · omega
  · rw [Nat.lt_succ_iff, Nat.le_div_iff_mul_le window.stride_pos]
    omega

theorem rowCount_pos_iff (window : Window) {count : Nat} :
    0 < window.rowCount count ↔ window.width ≤ count := by
  rw [lt_rowCount_iff, Nat.zero_mul, Nat.zero_add]

/-- The last of the windows that are complete ends among the tuples. -/
theorem last_complete (window : Window) {count : Nat} (full : window.width ≤ count) :
    (window.rowCount count - 1) * window.stride + window.width ≤ count :=
  window.lt_rowCount_iff.mp (Nat.sub_one_lt_of_lt (window.rowCount_pos_iff.mpr full))

theorem length_nthRows {window : Window} {tuples : List Tuple} {index : Nat}
    (complete : index * window.stride + window.width ≤ tuples.length) :
    (window.nthRows tuples index).length = window.width := by
  rw [nthRows, List.length_take, List.length_drop]
  omega

theorem nthRows_ne_nil {window : Window} {tuples : List Tuple} {index : Nat}
    (complete : index * window.stride + window.width ≤ tuples.length) :
    window.nthRows tuples index ≠ [] := by
  apply List.ne_nil_of_length_pos
  rw [length_nthRows complete]
  exact window.width_pos

/-- A window is completed if one more tuple makes the number of tuples grow by the stride. -/
theorem rowCount_succ_of_completes (window : Window) {count : Nat}
    (completes : window.width ≤ count + 1 ∧ (count + 1 - window.width) % window.stride = 0) :
    window.rowCount (count + 1) = window.rowCount count + 1 ∧
      count + 1 = window.rowCount count * window.stride + window.width := by
  obtain ⟨full, whole⟩ := completes
  rw [rowCount, rowCount, if_neg (Nat.not_lt.mpr full)]
  rcases Nat.lt_or_ge count window.width with short | filled
  · have first : count + 1 - window.width = 0 := by omega
    rw [if_pos short, first, Nat.zero_div]
    omega
  · have next : count + 1 - window.width = count - window.width + 1 := by omega
    rw [next] at whole ⊢
    have divides := Nat.dvd_of_mod_eq_zero whole
    have quotient : (count - window.width + 1) / window.stride =
        (count - window.width) / window.stride + 1 := by
      rw [Nat.succ_div, if_pos divides]
    have product := Nat.div_mul_cancel divides
    rw [quotient] at product ⊢
    rw [if_neg (Nat.not_lt.mpr filled)]
    omega

theorem rowCount_succ_of_not_completes (window : Window) {count : Nat}
    (waits : ¬(window.width ≤ count + 1 ∧ (count + 1 - window.width) % window.stride = 0)) :
    window.rowCount (count + 1) = window.rowCount count := by
  rw [rowCount, rowCount]
  rcases Nat.lt_or_ge count window.width with short | filled
  · have still_short : count + 1 < window.width := by
      refine Nat.lt_of_le_of_ne short fun first => waits ⟨Nat.le_of_eq first.symm, ?_⟩
      rw [first, Nat.sub_self, Nat.zero_mod]
    rw [if_pos still_short, if_pos short]
  · have next : count + 1 - window.width = count - window.width + 1 := by omega
    have indivisible : ¬window.stride ∣ count - window.width + 1 := fun divides =>
      waits ⟨by omega, by rw [next]; exact Nat.mod_eq_zero_of_dvd divides⟩
    rw [if_neg (by omega), if_neg (by omega), next, Nat.succ_div, if_neg indivisible, Nat.add_zero]

end Window

/-- A part of a list that is complete stays the same when the list grows. -/
theorem take_drop_append {tuples later : List Tuple} {start count : Nat}
    (complete : start + count ≤ tuples.length) :
    ((tuples ++ later).drop start).take count = (tuples.drop start).take count := by
  rw [List.drop_append_of_le_length (by omega),
    List.take_append_of_le_length (by rw [List.length_drop]; omega)]

/-- A window that is complete stays the same when more tuples arrive. -/
theorem Window.IsNthReport.append {window : Window} {tuples : List Tuple} {index : Nat}
    {contents : Contents} (report : window.IsNthReport tuples index contents)
    (complete : index * window.stride + window.width ≤ tuples.length) (later : List Tuple) :
    window.IsNthReport (tuples ++ later) index contents where
  tuples_eq := by rw [report.tuples_eq, nthRows, nthRows, take_drop_append complete]
  mark_of_lt shorter := by
    rw [take_drop_append (by rw [Nat.add_one_mul]; omega)]
    exact report.mark_of_lt shorter
  mark_of_eq tumbling := by
    rw [nthRows, take_drop_append complete]
    exact report.mark_of_eq tumbling

namespace RowBuffer

variable {window : Window} {tuples : List Tuple} {buffer : RowBuffer}

/-- Until the first window is complete, all tuples are visible. -/
theorem Shows.tuples_of_short (shows : buffer.Shows window tuples.reverse)
    (short : tuples.length < window.width) : buffer.tuples = tuples := by
  have none_waits : (tuples.length - window.width) % window.stride = 0 := by
    rw [Nat.sub_eq_zero_of_le (Nat.le_of_lt short), Nat.zero_mod]
  rw [shows.tuples_eq, List.length_reverse, none_waits, List.drop_zero,
    List.take_of_length_le (by rw [List.length_reverse]; omega), List.reverse_reverse]

/-- From then on the window that was completed last is visible. -/
theorem Shows.tuples_of_full (shows : buffer.Shows window tuples.reverse)
    (full : window.width ≤ tuples.length) :
    buffer.tuples = window.nthRows tuples (window.rowCount tuples.length - 1) := by
  have split := Nat.div_add_mod (tuples.length - window.width) window.stride
  have start_eq : tuples.length - (tuples.length - window.width) % window.stride - window.width =
      (window.rowCount tuples.length - 1) * window.stride := by
    rw [Window.rowCount, if_neg (Nat.not_lt.mpr full), Nat.add_sub_cancel, Nat.mul_comm]
    omega
  rw [shows.tuples_eq, List.length_reverse, List.drop_reverse, List.take_reverse,
    List.reverse_reverse, List.length_take, Nat.min_eq_left (Nat.sub_le _ _), start_eq,
    List.drop_take, Window.nthRows, ← start_eq]
  congr 1
  omega

theorem Shows.pending_length (shows : buffer.Shows window tuples.reverse) :
    buffer.pending.length = (tuples.length - window.width) % window.stride := by
  have waiting_le := Nat.mod_le (tuples.length - window.width) window.stride
  rw [shows.pending_eq, List.length_reverse, List.length_take, List.length_reverse]
  omega

/-- A window is reported if the newest tuple completes it. -/
theorem Shows.reports_eq (shows : buffer.Shows window tuples.reverse)
    (stride_le : window.stride ≤ window.width) (tuple : Tuple) :
    (buffer.enqueue tuple).2 =
      if window.width ≤ tuples.length + 1 ∧
          (tuples.length + 1 - window.width) % window.stride = 0 then
        [(buffer.enqueue tuple).1.contents]
      else [] := by
  have reported := (shows.enqueue stride_le tuple).2
  rw [Window.completedRows, List.length_cons, List.length_reverse] at reported
  split at reported
  · rename_i completes
    rw [if_pos completes]
    obtain ⟨contents, windows_eq, _⟩ := List.map_eq_singleton_iff.mp reported
    have contents_eq : contents = (buffer.enqueue tuple).1.contents :=
      eq_contents_of_mem_enqueue (windows_eq ▸ List.mem_singleton_self contents)
    rw [windows_eq, contents_eq]
  · rename_i waits
    rw [if_neg waits]
    exact List.map_eq_nil_iff.mp reported

/-- The visible window, once it is complete, is reported as it is. -/
theorem Shows.isNthReport (shows : buffer.Shows window tuples.reverse)
    (full : window.width ≤ tuples.length) :
    window.IsNthReport tuples (window.rowCount tuples.length - 1) buffer.contents := by
  have visible := shows.tuples_of_full full
  have length_eq : buffer.tuples.length = window.width := by
    rw [visible, Window.length_nthRows (window.last_complete full)]
  refine ⟨visible, fun shorter => ?_, fun tumbling => ?_⟩
  · have stride_lt : buffer.stride < buffer.tuples.length := by
      rw [shows.stride_eq, length_eq]
      exact shorter
    have marks := mark_of_stride_lt stride_lt
    rw [← List.map_drop, visible, shows.stride_eq, Window.nthRows, List.drop_take, List.drop_drop,
      ← Nat.add_one_mul] at marks
    exact marks
  · have length_pos : 0 < buffer.tuples.length := by
      rw [length_eq]
      exact window.width_pos
    have length_le : buffer.tuples.length ≤ buffer.stride := by
      rw [length_eq, shows.stride_eq, tumbling]
    obtain ⟨newest, newest_mem, mark_eq, le_newest⟩ :=
      mark_of_length_le_stride length_pos length_le
    rw [visible] at newest_mem le_newest
    exact ⟨newest, ⟨newest_mem, le_newest⟩, mark_eq⟩

end RowBuffer

namespace Window

variable {window : Window}

/-- The synopsis of a window of rows is a buffer of rows. -/
theorem exists_rowBuffer (rows : window.kind = .rows) (tuples : List Tuple) :
    ∃ buffer, (SynopsisLog.ofTuples window tuples).synopsis = .rows buffer ∧
      buffer.Shows window tuples.reverse := by
  have shows := SynopsisLog.shows_ofTuples window tuples
  generalize (SynopsisLog.ofTuples window tuples).synopsis = synopsis at shows ⊢
  cases shows with
  | rows _ shows => exact ⟨_, rfl, shows⟩
  | time is_time _ => cases rows.symm.trans is_time

/-- Each window is reported in its turn, when its last tuple arrives. -/
structure ReportsRows (window : Window) (tuples : List Tuple) (reports : List (List Contents)) :
    Prop where
  /-- There is one list of windows for each tuple. -/
  length_eq : reports.length = tuples.length
  /-- As many windows were reported as are complete. -/
  count_eq : reports.flatten.length = window.rowCount tuples.length
  /-- Each has its place among the windows and among the tuples. -/
  reported : ∀ index < window.rowCount tuples.length, ∃ contents,
    window.IsNthReport tuples index contents ∧ reports.flatten[index]? = some contents ∧
      reports[index * window.stride + window.width - 1]? = some [contents]

namespace ReportsRows

variable {tuples : List Tuple} {reports : List (List Contents)}

/-- Windows that were complete before stay where they are, and so do their reports. -/
theorem older (reported : window.ReportsRows tuples reports) (tuple : Tuple)
    (windows : List Contents) :
    ∀ index < window.rowCount tuples.length, ∃ contents,
      window.IsNthReport (tuples ++ [tuple]) index contents ∧
        (reports ++ [windows]).flatten[index]? = some contents ∧
        (reports ++ [windows])[index * window.stride + window.width - 1]? = some [contents] := by
  intro index complete
  obtain ⟨contents, report, turn, moment⟩ := reported.reported index complete
  refine ⟨contents, report.append (window.lt_rowCount_iff.mp complete) [tuple], ?_, ?_⟩
  · rw [List.flatten_append]
    exact List.getElem?_append_left (reported.count_eq ▸ complete) ▸ turn
  · exact List.getElem?_append_left (List.getElem?_eq_some_iff.mp moment).1 ▸ moment

/-- A tuple that completes no window waits for the next one. -/
theorem wait (reported : window.ReportsRows tuples reports) (tuple : Tuple)
    (waits : ¬(window.width ≤ tuples.length + 1 ∧
      (tuples.length + 1 - window.width) % window.stride = 0)) :
    window.ReportsRows (tuples ++ [tuple]) (reports ++ [[]]) := by
  have count_eq : window.rowCount (tuples ++ [tuple]).length = window.rowCount tuples.length := by
    rw [List.length_append]
    exact window.rowCount_succ_of_not_completes waits
  refine ⟨?_, ?_, ?_⟩
  · rw [List.length_append, List.length_append, reported.length_eq]
    rfl
  · rw [count_eq, List.flatten_append, List.length_append, reported.count_eq]
    rfl
  · rw [count_eq]
    exact reported.older tuple []

/-- A tuple that completes a window has the window reported. -/
theorem complete (reported : window.ReportsRows tuples reports) {tuple : Tuple}
    (completes : window.width ≤ tuples.length + 1 ∧
      (tuples.length + 1 - window.width) % window.stride = 0) {contents : Contents}
    (newest : window.IsNthReport (tuples ++ [tuple]) (window.rowCount tuples.length) contents) :
    window.ReportsRows (tuples ++ [tuple]) (reports ++ [[contents]]) := by
  obtain ⟨next_eq, place_eq⟩ := window.rowCount_succ_of_completes completes
  have count_eq : window.rowCount (tuples ++ [tuple]).length =
      window.rowCount tuples.length + 1 := by
    rw [List.length_append]
    exact next_eq
  refine ⟨?_, ?_, fun index is_complete => ?_⟩
  · rw [List.length_append, List.length_append, reported.length_eq]
    rfl
  · rw [count_eq, List.flatten_append, List.length_append, reported.count_eq]
    rfl
  · rw [count_eq] at is_complete
    rcases Nat.lt_succ_iff_lt_or_eq.mp is_complete with earlier | rfl
    · exact reported.older tuple [contents] index earlier
    · refine ⟨contents, newest, ?_, ?_⟩
      · rw [List.flatten_append, ← reported.count_eq]
        exact List.getElem?_concat_length
      · rw [← place_eq, Nat.add_sub_cancel, ← reported.length_eq]
        exact List.getElem?_concat_length

end ReportsRows

/-- Every run of tuples has its windows reported. -/
theorem reportsRows_ofTuples (rows : window.kind = .rows) (tuples : List Tuple) :
    window.ReportsRows tuples (SynopsisLog.ofTuples window tuples).reports := by
  have stride_le := window.stride_le rows
  induction tuples using List.reverseRecOn with
  | nil =>
      have none_complete : window.rowCount ([] : List Tuple).length = 0 := if_pos window.width_pos
      refine ⟨rfl, none_complete.symm, fun index complete => ?_⟩
      rw [none_complete] at complete
      exact absurd complete (Nat.not_lt_zero index)
  | append_singleton tuples tuple reported =>
      obtain ⟨buffer, synopsis_eq, shows⟩ := exists_rowBuffer rows tuples
      have enqueued := shows.reports_eq stride_le tuple
      rw [SynopsisLog.reports_ofTuples_append_singleton, synopsis_eq]
      change window.ReportsRows _ (_ ++ [(buffer.enqueue tuple).2])
      rw [enqueued]
      split
      · rename_i completes
        have later_shows : (buffer.enqueue tuple).1.Shows window (tuples ++ [tuple]).reverse := by
          rw [List.reverse_append]
          exact (shows.enqueue stride_le tuple).1
        have newest := later_shows.isNthReport (by rw [List.length_append]; exact completes.1)
        rw [List.length_append, List.length_singleton,
          (window.rowCount_succ_of_completes completes).1, Nat.add_sub_cancel] at newest
        exact reported.complete completes newest
      · exact reported.wait tuple ‹_›

/-- Every run of tuples is slid over. -/
theorem slidesOver_ofTuples (rows : window.kind = .rows) (tuples : List Tuple) :
    window.SlidesOver tuples (.ofTuples window tuples) := by
  obtain ⟨buffer, synopsis_eq, shows⟩ := exists_rowBuffer rows tuples
  obtain ⟨_, count_eq, reported⟩ := reportsRows_ofTuples rows tuples
  refine ⟨count_eq, reported, ?_, ?_⟩
  · rw [synopsis_eq]
    split
    · exact shows.tuples_of_short ‹_›
    · exact shows.tuples_of_full (Nat.not_lt.mp ‹_›)
  · rw [synopsis_eq]
    refine shows.pending_length.trans ?_
    split
    · rw [Nat.sub_eq_zero_of_le (Nat.le_of_lt ‹_›), Nat.zero_mod]
    · rfl

end Window

/-- A window of rows slides by its stride over all tuples since the last reset, whatever its width
and its stride are. -/
theorem row_windows_slide (width stride : Nat) (calls : List SynopsisCall) :
    (Window.rows width stride).SlidesOver (SynopsisCall.accepted calls)
      (.ofCalls (Window.rows width stride) calls) := by
  rw [SynopsisLog.ofCalls_eq]
  exact Window.slidesOver_ofTuples rfl _

end StreamQuery
