import Mathlib.Algebra.Order.Ring.Int
import Mathlib.Data.Nat.Find
import Mathlib.Order.Bounds.Basic
import StreamQuery.Proofs.Window.Calls
import StreamQuery.Proofs.Window.Completed

/-!
# Reports of windows of time

Number the windows from zero, each one stride after the one before, the first at the first arrival.
Of the windows that are over when a tuple arrives, those that hold earlier tuples are reported, each
once and in order. The window that is open then is the first that reaches up to the tuple.
-/

namespace StreamQuery

namespace Window

/-- Where a window of time begins, if the first one begins at `origin`. -/
def nthBeginning (window : Window) (origin : Int) (index : Nat) : Int :=
  Time.after origin (index * SpanBuffer.extent window.stride)

/-- The last moment of a window of time. -/
def nthEnding (window : Window) (origin : Int) (index : Nat) : Int :=
  window.nthBeginning origin index + SpanBuffer.extent window.width

/-- The tuples that arrive in a window of time, oldest first. -/
def nthSpan (window : Window) (origin : Int) (tuples : List Tuple) (index : Nat) : List Tuple :=
  tuples.filter fun tuple =>
    window.nthBeginning origin index ≤ tuple.arrival ∧
      tuple.arrival ≤ window.nthEnding origin index

variable {window : Window} {origin time : Int} {passed opened : Nat}

theorem nthBeginning_mono (window : Window) (origin : Int) {first second : Nat}
    (le : first ≤ second) :
    window.nthBeginning origin first ≤ window.nthBeginning origin second := by
  have stride_pos := SpanBuffer.extent_pos window.stride_pos
  have far : (first : Int) * SpanBuffer.extent window.stride ≤
      second * SpanBuffer.extent window.stride :=
    Int.mul_le_mul_of_nonneg_right (Int.ofNat_le.mpr le) (Int.le_of_lt stride_pos)
  simp only [nthBeginning, Time.after]
  omega

theorem nthEnding_mono (window : Window) (origin : Int) {first second : Nat}
    (le : first ≤ second) : window.nthEnding origin first ≤ window.nthEnding origin second :=
  Int.add_le_add_right (window.nthBeginning_mono origin le) _

theorem nthBeginning_zero (representable : origin ≤ Time.latest) :
    window.nthBeginning origin 0 = origin := by
  simp only [nthBeginning, Time.after]
  omega

theorem following_nthBeginning (window : Window) (origin : Int) (index : Nat) :
    SpanBuffer.following window (window.nthBeginning origin index) =
      window.nthBeginning origin (index + 1) := by
  have stride_pos := SpanBuffer.extent_pos window.stride_pos
  have product : ((index + 1 : Nat) : Int) * SpanBuffer.extent window.stride =
      index * SpanBuffer.extent window.stride + SpanBuffer.extent window.stride := by
    rw [Int.natCast_add, Int.add_mul, Int.natCast_one, Int.one_mul]
  simp only [SpanBuffer.following, nthBeginning, Time.after, product]
  omega

/-- A window is over when the time has passed its last moment. -/
theorem isOver_iff (representable : time ≤ Time.latest) (index : Nat) :
    (window.nthBeginning origin index < Time.latest ∧
        SpanBuffer.ending window (window.nthBeginning origin index) < time) ↔
      window.nthEnding origin index < time := by
  have width_pos := SpanBuffer.extent_pos window.width_pos
  simp only [SpanBuffer.ending, nthEnding, Time.after]
  omega

/-- The first window, from one window on, that reaches up to a moment. -/
def IsOpenAt (window : Window) (origin time : Int) (passed opened : Nat) : Prop :=
  IsLeast {index | passed ≤ index ∧ time ≤ window.nthEnding origin index} opened

theorem IsOpenAt.lt_iff (least : window.IsOpenAt origin time passed opened) {index : Nat}
    (from_passed : passed ≤ index) : index < opened ↔ window.nthEnding origin index < time := by
  constructor
  · intro before
    by_contra reaches
    exact absurd (least.2 ⟨from_passed, Int.not_lt.mp reaches⟩) (Nat.not_le.mpr before)
  · intro elapsed
    by_contra later
    have := window.nthBeginning_mono origin (Nat.not_lt.mp later)
    have reaches := least.1.2
    simp only [nthEnding] at elapsed reaches
    omega

/-- After a window that is over the next one begins later, even at the end of time. -/
theorem nthBeginning_lt_succ {index : Nat} (representable : time ≤ Time.latest)
    (elapsed : window.nthEnding origin index < time) :
    window.nthBeginning origin index < window.nthBeginning origin (index + 1) := by
  rw [← following_nthBeginning]
  exact SpanBuffer.lt_following window ((isOver_iff representable index).mpr elapsed).1

theorem exists_isOpenAt (window : Window) (origin : Int) {time : Int}
    (representable : time ≤ Time.latest) (passed : Nat) :
    ∃ opened, window.IsOpenAt origin time passed opened := by
  have reached : ∃ index, passed ≤ index ∧ time ≤ window.nthEnding origin index := by
    refine ⟨passed + (time - origin).toNat, Nat.le_add_right _ _, ?_⟩
    have width_pos := SpanBuffer.extent_pos window.width_pos
    have far := Int.mul_le_mul_of_nonneg_left (SpanBuffer.extent_pos window.stride_pos)
      (Int.natCast_nonneg (passed + (time - origin).toNat))
    simp only [nthEnding, nthBeginning, Time.after]
    omega
  exact ⟨Nat.find reached, Nat.find_spec reached, fun index => Nat.find_min' reached⟩

/-- The number of strides that cover a distance is computed within the range of 64 bits. -/
theorem coveringSteps_eq (behind stride steps : Int) (steps_pos : 0 < steps)
    (stride_pos : 0 < stride) (stride_le : stride ≤ Time.latest) (near : behind < 2 ^ 62)
    (covers : behind ≤ steps * stride) (tight : steps * stride - stride < behind) :
    min (behind + (stride - 1)) Time.latest / stride = steps ∧
      steps * stride ≤ Time.latest := by
  have representable : steps * stride ≤ Time.latest := by
    rcases Int.lt_or_eq_of_le (show 1 ≤ steps from steps_pos) with several | rfl
    · have twice := Int.mul_le_mul_of_nonneg_right (show 2 ≤ steps from several)
        (Int.le_of_lt stride_pos)
      simp only [Time.latest]
      omega
    · rwa [Int.one_mul]
  refine ⟨Int.le_antisymm (Int.lt_add_one_iff.mp ?_) ?_, representable⟩
  · refine Int.ediv_lt_of_lt_mul stride_pos ?_
    rw [Int.add_mul, Int.one_mul]
    omega
  · refine Int.le_ediv_of_mul_le stride_pos ?_
    omega

/-- A window without tuples moves at once to the first one that reaches up to a moment. -/
theorem skipTo_nthBeginning (early : -2 ^ 61 ≤ origin) (late : time ≤ 2 ^ 61)
    (least : window.IsOpenAt origin time passed opened) (later : passed < opened) :
    SpanBuffer.skipTo window (window.nthBeginning origin passed) time =
      window.nthBeginning origin opened := by
  obtain ⟨steps, rfl⟩ := Nat.exists_eq_add_of_lt later
  have reaches := least.1.2
  have before := (least.lt_iff (Nat.le_add_right passed steps)).mp (Nat.lt_succ_self _)
  have elapsed := (least.lt_iff (Nat.le_refl passed)).mp later
  have stride_pos := SpanBuffer.extent_pos window.stride_pos
  have width_pos := SpanBuffer.extent_pos window.width_pos
  have stride_le : SpanBuffer.extent window.stride ≤ Time.latest := Int.min_le_right _ _
  have passed_nonneg := Int.mul_nonneg (Int.natCast_nonneg passed) (Int.le_of_lt stride_pos)
  have steps_nonneg := Int.mul_nonneg (Int.natCast_nonneg steps) (Int.le_of_lt stride_pos)
  simp only [nthEnding, nthBeginning, Time.after, Time.latest, Int.natCast_add, Int.natCast_one,
    Int.add_mul, Int.one_mul] at reaches before elapsed
  have beginning_eq : window.nthBeginning origin passed =
      origin + passed * SpanBuffer.extent window.stride := by
    simp only [nthBeginning, Time.after, Time.latest]
    omega
  have ending_eq : SpanBuffer.ending window (window.nthBeginning origin passed) =
      origin + passed * SpanBuffer.extent window.stride + SpanBuffer.extent window.width := by
    rw [SpanBuffer.ending, beginning_eq]
    simp only [Time.after, Time.latest]
    omega
  obtain ⟨steps_eq, representable⟩ := coveringSteps_eq
    (time - SpanBuffer.ending window (window.nthBeginning origin passed))
    (SpanBuffer.extent window.stride) (steps + 1) (by omega) stride_pos stride_le
    (by rw [ending_eq]; omega) (by rw [ending_eq, Int.add_mul, Int.one_mul]; omega)
    (by rw [ending_eq, Int.add_mul, Int.one_mul]; omega)
  rw [SpanBuffer.skipTo]
  simp only [steps_eq]
  rw [Int.min_eq_left representable, beginning_eq, nthBeginning]
  simp only [Time.after, Int.natCast_add, Int.natCast_one, Int.add_mul, Int.one_mul]
  omega

/-- Later windows hold no more of the tuples so far. -/
theorem since_eq_nil_of_le {first second : Int} (le : first ≤ second) {history : List Tuple}
    (empty : since first history = []) : since second history = [] := by
  rw [← since_filter le, empty, List.filter_nil]

/-- Of the windows that are over those are reported that hold tuples, and the window that is open is
the first that reaches up to the moment. -/
theorem overAt_nthBeginning (early : -2 ^ 61 ≤ origin) (late : time ≤ 2 ^ 61)
    (history : List Tuple) (least : window.IsOpenAt origin time passed opened) :
    window.overAt history time (window.nthBeginning origin passed) =
      (((List.range' passed (opened - passed)).filter fun index =>
          !(since (window.nthBeginning origin index) history).isEmpty).map
        (window.nthBeginning origin),
      window.nthBeginning origin opened) := by
  have representable : time ≤ Time.latest := by
    simp only [Time.latest]
    omega
  obtain ⟨gap, gap_eq⟩ := Nat.exists_eq_add_of_le least.1.1
  rw [gap_eq, Nat.add_sub_cancel_left, ← gap_eq]
  -- Every window that is over and holds tuples brings the open window one step nearer.
  induction gap generalizing passed with
  | zero =>
      have still_open := mt (isOver_iff representable passed).mp
        (mt (least.lt_iff (Nat.le_refl passed)).mpr (by omega))
      rw [overAt, dif_neg still_open, gap_eq]
      rfl
  | succ gap induction =>
      have elapsed := (isOver_iff representable passed).mpr
        ((least.lt_iff (Nat.le_refl passed)).mp (by omega))
      rw [overAt, dif_pos elapsed]
      by_cases empty : since (window.nthBeginning origin passed) history = []
      · have none_filled : (List.range' passed (gap + 1)).filter (fun index =>
            !(since (window.nthBeginning origin index) history).isEmpty) = [] := by
          refine List.filter_eq_nil_iff.mpr fun index member => ?_
          have later := window.nthBeginning_mono origin (List.mem_range'_1.mp member).1
          rw [since_eq_nil_of_le later empty]
          simp
        rw [if_pos (List.isEmpty_iff.mpr empty), none_filled,
          skipTo_nthBeginning early late least (by omega)]
        rfl
      · have next_least : window.IsOpenAt origin time (passed + 1) opened :=
          ⟨⟨by omega, least.1.2⟩, fun index reaches =>
            least.2 ⟨Nat.le_of_succ_le reaches.1, reaches.2⟩⟩
        rw [if_neg (mt List.isEmpty_iff.mp empty), following_nthBeginning,
          induction next_least (by omega), List.range'_succ,
          List.filter_cons_of_pos (by simpa using empty)]
        rfl

end Window

/-- Where the open window of time begins. -/
def Synopsis.beginning? : Synopsis → Option Int
  | rows _ => none
  | time buffer => buffer.beginning?

namespace Window

variable {window : Window} {origin time : Int} {earlier : List Tuple} {tuple : Tuple}
  {passed opened : Nat}

/-- The windows from one number up to another that hold tuples, as they are reported. -/
def passedSpans (window : Window) (origin : Int) (earlier : List Tuple) (passed opened : Nat) :
    List Contents :=
  ((List.range' passed (opened - passed)).filter fun index =>
    !(window.nthSpan origin earlier index).isEmpty).map fun index =>
      { tuples := window.nthSpan origin earlier index
        mark := window.nthBeginning origin (index + 1) }

/-- What a synopsis of a window of time does with a tuple that comes after others. The windows
before number `passed` have been passed, and number `opened` is open afterwards. -/
structure Passes (window : Window) (origin : Int) (earlier : List Tuple) (tuple : Tuple)
    (before after : SynopsisLog) (passed opened : Nat) : Prop where
  /-- The window that was open, or the first one, which the first tuple opens. -/
  beginning_before : before.synopsis.beginning?.getD tuple.arrival =
    window.nthBeginning origin passed
  /-- The window that is open next is the first that reaches up to the tuple. -/
  opened_least : IsLeast
    {index | passed ≤ index ∧ tuple.arrival ≤ window.nthEnding origin index} opened
  /-- The windows before it are over. -/
  over_iff : ∀ index, passed ≤ index →
    (index < opened ↔ window.nthEnding origin index < tuple.arrival)
  /-- Those of them that hold earlier tuples are reported, in order. -/
  reports_eq : after.reports = before.reports ++ [window.passedSpans origin earlier passed opened]
  /-- No window is reported twice, nor one before an earlier one. -/
  increasing : (after.reports.flatten.map Contents.mark).Pairwise (· < ·)
  /-- The window that is open. -/
  beginning_after : after.synopsis.beginning? = some (window.nthBeginning origin opened)
  /-- All its tuples are kept, and no others. -/
  tuples_eq : after.synopsis.tuples = window.nthSpan origin (earlier ++ [tuple]) opened

/-- What holds of the reports of a window of time after some tuples. -/
structure StandsAt (window : Window) (origin : Int) (tuples : List Tuple) (passed : Nat) :
    Prop where
  /-- The open window, or the first one. -/
  opening_eq : (window.opening? tuples.reverse).getD origin = window.nthBeginning origin passed
  /-- It reaches up to all tuples. -/
  reaches : ∀ tuple ∈ tuples, tuple.arrival ≤ window.nthEnding origin passed
  /-- The marks of the windows that were reported do not lie after its beginning. -/
  marks_le : ∀ mark ∈ (SynopsisLog.ofTuples window tuples).reports.flatten.map Contents.mark,
    mark ≤ window.nthBeginning origin passed
  /-- The windows were reported in order. -/
  increasing :
    ((SynopsisLog.ofTuples window tuples).reports.flatten.map Contents.mark).Pairwise (· < ·)

/-! ### Spans -/

theorem since_reverse (moment : Int) (tuples : List Tuple) :
    since moment tuples.reverse = tuples.filter fun tuple => moment ≤ tuple.arrival := by
  rw [since, List.filter_reverse, List.reverse_reverse]

/-- As long as a window reaches up to all tuples, only its beginning matters. -/
theorem since_eq_nthSpan {tuples : List Tuple} {index : Nat}
    (reaches : ∀ tuple ∈ tuples, tuple.arrival ≤ window.nthEnding origin index) :
    since (window.nthBeginning origin index) tuples.reverse =
      window.nthSpan origin tuples index := by
  rw [since_reverse, nthSpan]
  refine List.filter_congr fun tuple member => ?_
  simp [reaches tuple member]

/-- The windows from one that reaches up to all tuples on are told apart by their beginnings. -/
theorem passedSpans_eq (reaches : ∀ tuple ∈ earlier, tuple.arrival ≤ window.nthEnding origin passed)
    (opened : Nat) :
    window.passedSpans origin earlier passed opened =
      (((List.range' passed (opened - passed)).filter fun index =>
          !(since (window.nthBeginning origin index) earlier.reverse).isEmpty).map
        (window.nthBeginning origin)).map fun start =>
          { tuples := since start earlier.reverse, mark := SpanBuffer.following window start } := by
  have span_eq {index : Nat} (member : index ∈ List.range' passed (opened - passed)) :
      since (window.nthBeginning origin index) earlier.reverse =
        window.nthSpan origin earlier index :=
    since_eq_nthSpan fun other other_mem => Int.le_trans (reaches other other_mem)
      (window.nthEnding_mono origin (List.mem_range'_1.mp member).1)
  rw [passedSpans, List.map_map, List.filter_congr fun index member => by rw [← span_eq member]]
  refine List.map_congr_left fun index member => ?_
  rw [Function.comp_apply, span_eq (List.mem_filter.mp member).1, following_nthBeginning]

/-! ### Marks -/

theorem mem_marks_passedSpans {mark : Int}
    (member : mark ∈ (window.passedSpans origin earlier passed opened).map Contents.mark) :
    ∃ index, passed ≤ index ∧ index < opened ∧ mark = window.nthBeginning origin (index + 1) := by
  rw [passedSpans, List.map_map] at member
  obtain ⟨index, index_mem, rfl⟩ := List.mem_map.mp member
  have inside := List.mem_range'_1.mp (List.mem_filter.mp index_mem).1
  exact ⟨index, inside.1, by omega, rfl⟩

/-- The marks of windows that are over increase. -/
theorem pairwise_marks_passedSpans (representable : time ≤ Time.latest)
    (elapsed : ∀ index, passed ≤ index → index < opened → window.nthEnding origin index < time) :
    ((window.passedSpans origin earlier passed opened).map Contents.mark).Pairwise (· < ·) := by
  rw [passedSpans, List.map_map, List.pairwise_map]
  have places : ((List.range' passed (opened - passed)).filter fun index =>
      !(window.nthSpan origin earlier index).isEmpty).Pairwise (· < ·) :=
    (List.pairwise_lt_range' 1).filter _
  refine places.imp_of_mem fun {first second} _ second_mem before => ?_
  have inside := List.mem_range'_1.mp (List.mem_filter.mp second_mem).1
  calc
    window.nthBeginning origin (first + 1) ≤ window.nthBeginning origin second :=
      window.nthBeginning_mono origin before
    _ < window.nthBeginning origin (second + 1) :=
      nthBeginning_lt_succ representable (elapsed second inside.1 (by omega))

/-- Marks that do not lie after the beginning of a window are continued by those of the windows from
it on that are over. -/
theorem pairwise_append_marks {marks : List Int} (increasing : marks.Pairwise (· < ·))
    (marks_le : ∀ mark ∈ marks, mark ≤ window.nthBeginning origin passed)
    (representable : time ≤ Time.latest)
    (elapsed : ∀ index, passed ≤ index → index < opened → window.nthEnding origin index < time) :
    (marks ++ (window.passedSpans origin earlier passed opened).map Contents.mark).Pairwise
      (· < ·) := by
  refine List.pairwise_append.mpr
    ⟨increasing, pairwise_marks_passedSpans representable elapsed, ?_⟩
  intro old old_mem new new_mem
  obtain ⟨index, from_passed, before, rfl⟩ := mem_marks_passedSpans new_mem
  calc
    old ≤ window.nthBeginning origin passed := marks_le old old_mem
    _ ≤ window.nthBeginning origin index := window.nthBeginning_mono origin from_passed
    _ < window.nthBeginning origin (index + 1) :=
      nthBeginning_lt_succ representable (elapsed index from_passed before)

theorem append_marks_le {marks : List Int}
    (marks_le : ∀ mark ∈ marks, mark ≤ window.nthBeginning origin passed) (le : passed ≤ opened) :
    ∀ mark ∈ marks ++ (window.passedSpans origin earlier passed opened).map Contents.mark,
      mark ≤ window.nthBeginning origin opened := by
  intro mark member
  rcases List.mem_append.mp member with old | new
  · exact Int.le_trans (marks_le mark old) (window.nthBeginning_mono origin le)
  · obtain ⟨index, _, before, rfl⟩ := mem_marks_passedSpans new
    exact window.nthBeginning_mono origin before

/-! ### One tuple after another -/

theorem eq_nil_of_opening? {history : List Tuple} (none_open : window.opening? history = none) :
    history = [] := by
  cases history with
  | nil => rfl
  | cons newest history => cases none_open

/-- The synopsis of a window of time is a buffer of time. -/
theorem exists_spanBuffer (spans : window.kind = .time) (tuples : List Tuple) :
    ∃ buffer, (SynopsisLog.ofTuples window tuples).synopsis = .time buffer ∧
      buffer.Shows window tuples.reverse := by
  have shows := SynopsisLog.shows_ofTuples window tuples
  generalize (SynopsisLog.ofTuples window tuples).synopsis = synopsis at shows ⊢
  cases shows with
  | rows is_rows _ => cases spans.symm.trans is_rows
  | time _ shows => exact ⟨_, rfl, shows⟩

namespace StandsAt

theorem start_eq (stands : window.StandsAt origin earlier passed)
    (origin_eq : (earlier.headD tuple).arrival = origin) :
    (window.opening? earlier.reverse).getD tuple.arrival = window.nthBeginning origin passed := by
  rw [← stands.opening_eq]
  cases found : window.opening? earlier.reverse with
  | some beginning => rfl
  | none =>
      obtain rfl := List.reverse_eq_nil_iff.mp (eq_nil_of_opening? found)
      exact origin_eq

theorem reaches_append (stands : window.StandsAt origin earlier passed)
    (least : window.IsOpenAt origin tuple.arrival passed opened) :
    ∀ other ∈ earlier ++ [tuple], other.arrival ≤ window.nthEnding origin opened := by
  intro other member
  rcases List.mem_append.mp member with older | newest
  · exact Int.le_trans (stands.reaches other older) (window.nthEnding_mono origin least.1.1)
  · rw [List.mem_singleton.mp newest]
    exact least.1.2

/-- A tuple passes the windows that are over, and the one that is open then is the first to reach up
to it. -/
theorem accept (stands : window.StandsAt origin earlier passed) (spans : window.kind = .time)
    (origin_eq : (earlier.headD tuple).arrival = origin) (early : -2 ^ 61 ≤ origin)
    (late : tuple.arrival ≤ 2 ^ 61) :
    ∃ opened, window.Passes origin earlier tuple (.ofTuples window earlier)
        (.ofTuples window (earlier ++ [tuple])) passed opened ∧
      window.StandsAt origin (earlier ++ [tuple]) opened := by
  have representable : tuple.arrival ≤ Time.latest := by
    simp only [Time.latest]
    omega
  obtain ⟨opened, least⟩ := window.exists_isOpenAt origin representable passed
  have over_iff (index : Nat) (from_passed : passed ≤ index) := least.lt_iff from_passed
  have elapsed (index : Nat) (from_passed : passed ≤ index) := (over_iff index from_passed).mp
  have start_eq := stands.start_eq origin_eq
  have reaches := stands.reaches_append least
  have overAt_eq := overAt_nthBeginning early late earlier.reverse least
  have opening_eq : window.opening? (earlier ++ [tuple]).reverse =
      some (window.nthBeginning origin opened) := by
    rw [List.reverse_append, List.reverse_singleton, List.singleton_append, opening?, start_eq,
      overAt_eq]
  obtain ⟨buffer, synopsis_eq, shows⟩ := exists_spanBuffer spans earlier
  obtain ⟨after, after_eq, after_shows⟩ := exists_spanBuffer spans (earlier ++ [tuple])
  have enqueued : (buffer.enqueue tuple).2 =
      window.passedSpans origin earlier passed opened := by
    rw [shows.reports_eq, start_eq, overAt_eq, passedSpans_eq stands.reaches]
  have reports_eq : (SynopsisLog.ofTuples window (earlier ++ [tuple])).reports =
      (SynopsisLog.ofTuples window earlier).reports ++
        [window.passedSpans origin earlier passed opened] := by
    rw [SynopsisLog.reports_ofTuples_append_singleton, synopsis_eq, ← enqueued]
    rfl
  have marks_eq : (SynopsisLog.ofTuples window (earlier ++ [tuple])).reports.flatten.map
      Contents.mark = (SynopsisLog.ofTuples window earlier).reports.flatten.map Contents.mark ++
        (window.passedSpans origin earlier passed opened).map Contents.mark := by
    rw [reports_eq, List.flatten_append, List.flatten_singleton, List.map_append]
  have increasing := marks_eq ▸
    pairwise_append_marks stands.increasing stands.marks_le representable elapsed
  refine ⟨opened, ⟨?_, least, over_iff, reports_eq, increasing, ?_, ?_⟩,
    ⟨?_, reaches, marks_eq ▸ append_marks_le stands.marks_le least.1.1, increasing⟩⟩
  · rw [synopsis_eq, ← start_eq, ← shows.beginning_eq]
    rfl
  · rw [after_eq, ← opening_eq]
    exact after_shows.beginning_eq
  · have kept := after_shows.tuples_eq tuple.arrival
    rw [opening_eq, Option.getD_some, since_eq_nthSpan reaches] at kept
    rw [after_eq]
    exact kept
  · rw [opening_eq, Option.getD_some]

end StandsAt

/-- Some tuples in any order, none of them too far from the others, make a window of time pass. -/
theorem exists_standsAt (window : Window) (spans : window.kind = .time)
    (early : -2 ^ 61 ≤ origin) (early_enough : origin ≤ 2 ^ 61) (tuples : List Tuple)
    (origin_eq : ∀ first ∈ tuples.head?, first.arrival = origin)
    (late : ∀ tuple ∈ tuples, tuple.arrival ≤ 2 ^ 61) :
    ∃ passed, window.StandsAt origin tuples passed := by
  induction tuples using List.reverseRecOn with
  | nil =>
      have origin_first : origin = window.nthBeginning origin 0 :=
        (nthBeginning_zero (by simp only [Time.latest]; omega)).symm
      exact ⟨0, origin_first, List.forall_mem_nil _, List.forall_mem_nil _, .nil⟩
  | append_singleton tuples tuple induction =>
      have head_eq : (tuples.headD tuple).arrival = origin := by
        cases tuples with
        | nil => exact origin_eq tuple rfl
        | cons first tuples => exact origin_eq first rfl
      obtain ⟨passed, stands⟩ := induction
        (fun first found => origin_eq first (by
          rw [List.head?_append, Option.mem_def.mp found]
          rfl))
        (fun other member => late other (List.mem_append_left _ member))
      obtain ⟨opened, _, later⟩ := stands.accept spans head_eq early
        (late tuple (List.mem_append_right _ (List.mem_singleton_self tuple)))
      exact ⟨opened, later⟩

end Window

/-- A window of time passes from each tuple to the next, whatever its width and its stride are and
in whatever order the tuples since the last reset arrive, if they are not too far apart. -/
theorem span_windows_pass (width stride : Nat) (calls : List SynopsisCall) (tuple : Tuple)
    (bounded : ∀ other ∈ SynopsisCall.accepted calls ++ [tuple], other.arrival.natAbs ≤ 2 ^ 61) :
    ∃ passed opened, (Window.time width stride).Passes
      ((SynopsisCall.accepted calls).headD tuple).arrival (SynopsisCall.accepted calls) tuple
      (.ofCalls (Window.time width stride) calls)
      (.ofCalls (Window.time width stride) (calls ++ [.accept tuple])) passed opened := by
  rw [SynopsisLog.ofCalls_eq, SynopsisLog.ofCalls_eq, SynopsisCall.accepted_append_accept]
  generalize SynopsisCall.accepted calls = tuples at bounded ⊢
  have origin_mem : tuples.headD tuple ∈ tuples ++ [tuple] := by
    cases tuples with
    | nil => exact List.mem_singleton_self tuple
    | cons first tuples => exact List.mem_cons_self
  have origin_bounded := bounded _ origin_mem
  have late : ∀ other ∈ tuples ++ [tuple], other.arrival ≤ 2 ^ 61 := fun other member => by
    have := bounded other member
    omega
  have origin_eq : ∀ first ∈ tuples.head?, first.arrival = (tuples.headD tuple).arrival := by
    intro first found
    rw [List.headD_eq_head?_getD, Option.mem_def.mp found, Option.getD_some]
  obtain ⟨passed, stands⟩ := (Window.time width stride).exists_standsAt rfl (by omega) (by omega)
    tuples origin_eq fun other member => late other (List.mem_append_left _ member)
  obtain ⟨opened, passes, _⟩ := stands.accept rfl rfl (by omega)
    (late tuple (List.mem_append_right _ (List.mem_singleton_self tuple)))
  exact ⟨passed, opened, passes⟩

/-- A tuple without values. -/
def Tuple.blankAt (time : Int) : Tuple where
  kind := .data
  schema := ⟨[]⟩
  values := []
  arrival := time
  lowWater := time
  stamps := {}
  lineage := .arrival time

/-- A reset, and after it a tuple that comes too late for the first window. -/
def gappedCalls : List SynopsisCall :=
  [.accept (.blankAt 0), .reset, .accept (.blankAt 10), .accept (.blankAt 12),
    .accept (.blankAt 3)]

/-- A tuple after a gap passes the windows from 15 on, which hold nothing. -/
theorem gapped_span_windows_pass :
    (∀ other ∈ SynopsisCall.accepted gappedCalls ++ [.blankAt 31],
        other.arrival.natAbs ≤ 2 ^ 61) ∧
      ∃ passed opened, (Window.time 2 5).Passes 10
        [.blankAt 10, .blankAt 12, .blankAt 3] (.blankAt 31)
        (.ofCalls (Window.time 2 5) gappedCalls)
        (.ofCalls (Window.time 2 5) (gappedCalls ++ [.accept (.blankAt 31)])) passed opened :=
  ⟨by decide, span_windows_pass 2 5 gappedCalls (.blankAt 31) (by decide)⟩

/-- Windows share the tuples in their overlap, and those in a gap are not reported. -/
example :
    ((SynopsisLog.ofTuples (.time 10 5)
      ([0, 3, 7, 10, 12, 16, 30].map Tuple.blankAt)).reports.flatten.map fun contents =>
        contents.tuples.map Tuple.arrival) =
      [[0, 3, 7, 10], [7, 10, 12], [10, 12, 16], [16]] := by
  decide +kernel

end StreamQuery
