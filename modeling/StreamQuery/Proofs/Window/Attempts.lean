import Mathlib.Data.List.Forall2
import StreamQuery.Proofs.Tuple.Data
import StreamQuery.Proofs.Window.EvictionMarks

/-!
# Attempts

Windows that start over begin with an empty window. What was completed before belongs to an attempt
that has ended, and the next attempt begins with the inputs that were kept: those that came after
the last commit, and those from before it that are not older than its mark. If the first of them
arrives at the mark itself, the next attempt goes on with the windows of the one before.
-/

namespace StreamQuery

/-- Inputs of which some windows were committed before the windows started over. -/
structure Attempt where
  /-- The inputs, in order of arrival. -/
  inputs : List Tuple
  /-- The windows that were committed, oldest first. -/
  windows : List Contents
  /-- The inputs that were kept. -/
  left : List Tuple

namespace Attempt

/-- More inputs arrive, which are all kept. -/
def extend (later : List Tuple) (attempt : Attempt) : Attempt :=
  { attempt with inputs := attempt.inputs ++ later, left := attempt.left ++ later }

/-- The first input that was kept arrives at the mark of the last commit, if there was one. -/
def IsAligned (attempt : Attempt) : Prop :=
  ∀ last ∈ attempt.windows.getLast?, attempt.left.head?.map Tuple.arrival = some last.mark

instance : DecidablePred IsAligned :=
  fun attempt => inferInstanceAs (Decidable (∀ last ∈ attempt.windows.getLast?, _ = _))

theorem flatMap_windows_extend (later : List Tuple) (attempts : List Attempt) :
    (attempts.map (extend later)).flatMap windows = attempts.flatMap windows := by
  rw [List.flatMap_map]
  rfl

end Attempt

/-- Windows with the same mark whose tuples are related. -/
structure Contents.Corresponds (related : Tuple → Tuple → Prop) (first second : Contents) :
    Prop where
  mark_eq : first.mark = second.mark
  tuples : List.Forall₂ related first.tuples second.tuples

/-- Inputs that arrive one after the other, at their low-water marks, and not near the ends of time.
-/
structure AreTimely (inputs : List Tuple) : Prop where
  near : ∀ input ∈ inputs, input.arrival.natAbs ≤ 2 ^ 61
  increasing : inputs.Pairwise fun earlier later => earlier.arrival < later.arrival
  exact_marks : ∀ input ∈ inputs, input.lowWater = input.arrival

theorem AreTimely.sublist {inputs part : List Tuple} (timely : AreTimely inputs)
    (is_part : part.Sublist inputs) : AreTimely part where
  near input member := timely.near input (is_part.subset member)
  increasing := timely.increasing.sublist is_part
  exact_marks input member := timely.exact_marks input (is_part.subset member)

namespace Window

variable {window : Window} {inputs later left current : List Tuple} {windows : List Contents}
  {ended : List Attempt}

/-! ## Inputs that are kept -/

/-- The inputs that are kept after some windows were committed. -/
inductive Keeps (window : Window) (inputs : List Tuple) : List Contents → List Tuple → Prop
  /-- Without a commit all inputs are kept. -/
  | all : Keeps window inputs [] inputs
  /-- A commit drops the inputs so far that are older than the mark of the last window. -/
  | since {early late : List Tuple} {earlier : List Contents} {last : Contents}
      (inputs_eq : inputs = early ++ late)
      (completed : earlier ++ [last] <+: window.contentsOf early) :
      Keeps window inputs (earlier ++ [last])
        ((early.filter fun input => last.mark ≤ input.lowWater) ++ late)

namespace Keeps

theorem append (keeps : window.Keeps inputs windows left) (later : List Tuple) :
    window.Keeps (inputs ++ later) windows (left ++ later) := by
  cases keeps with
  | all => exact .all
  | since inputs_eq completed =>
      rw [List.append_assoc]
      exact .since (by rw [inputs_eq, List.append_assoc]) completed

/-- The committed windows are the first ones that the inputs complete. -/
theorem windows_prefix (keeps : window.Keeps inputs windows left) :
    windows <+: window.contentsOf inputs := by
  cases keeps with
  | all => exact List.nil_prefix
  | since inputs_eq completed =>
      rw [inputs_eq]
      exact completed.trans (window.contentsOf_prefix _ _)

theorem left_eq (keeps : window.Keeps inputs windows left) (uncommitted : windows = []) :
    left = inputs := by
  cases keeps with
  | all => rfl
  | since => simp at uncommitted

theorem sublist (keeps : window.Keeps inputs windows left) : left.Sublist inputs := by
  cases keeps with
  | all => exact .refl _
  | since inputs_eq _ =>
      rw [inputs_eq]
      exact List.filter_sublist.append_right _

/-- After another commit only its mark matters. -/
theorem commit (keeps : window.Keeps inputs windows left) (spans : window.kind = .time)
    {more : List Contents} {last : Contents}
    (completed : windows ++ (more ++ [last]) <+: window.contentsOf inputs) :
    window.Keeps inputs (windows ++ (more ++ [last]))
      (left.filter fun input => last.mark ≤ input.lowWater) := by
  have kept_eq : (left.filter fun input => last.mark ≤ input.lowWater) =
      inputs.filter (fun input => last.mark ≤ input.lowWater) ++ [] := by
    cases keeps with
    | all => exact (List.append_nil _).symm
    | @since early late earlier before inputs_eq _ =>
        have marks := (marksArrivals_contentsOf spans inputs).mark_le_mark.sublist
          completed.sublist
        have mark_le : before.mark ≤ last.mark :=
          (List.pairwise_append.mp marks).2.2 before (by simp) last (by simp)
        rw [inputs_eq, List.filter_append, List.filter_append, List.filter_filter, List.append_nil]
        congr 1
        refine List.filter_congr fun input _ => ?_
        by_cases recent : last.mark ≤ input.lowWater
        · simp [recent, Int.le_trans mark_le recent]
        · simp [recent]
  rw [kept_eq, ← List.append_assoc]
  rw [← List.append_assoc] at completed
  exact .since (List.append_nil _).symm completed

end Keeps

/-- What is left of the inputs after a commit up to a mark, if there is one. -/
def leftAfter (mark? : Option Int) (inputs : List Tuple) : List Tuple :=
  match mark? with
  | none => inputs
  | some mark => inputs.filter fun input => mark ≤ input.lowWater

theorem dataOf_leftAfter (mark? : Option Int) (tuples : List Tuple) :
    dataOf (leftAfter mark? tuples) = leftAfter mark? (dataOf tuples) := by
  cases mark? with
  | none => rfl
  | some mark => exact dataOf_filter _ _

/-- Several windows may be committed at once, or none. -/
theorem Keeps.commitAll (keeps : window.Keeps inputs windows left) (spans : window.kind = .time)
    {more : List Contents} (completed : windows ++ more <+: window.contentsOf inputs) :
    window.Keeps inputs (windows ++ more)
      (leftAfter (more.getLast?.map Contents.mark) left) := by
  rcases List.eq_nil_or_concat more with rfl | ⟨earlier, last, rfl⟩
  · rw [List.append_nil]
    exact keeps
  · rw [List.concat_eq_append] at completed ⊢
    rw [List.getLast?_concat]
    exact keeps.commit spans completed

/-! ## Attempts that have ended -/

/-- The attempts that have ended, of which none had committed all windows that were complete, and
the inputs of the attempt after them. -/
inductive Retries (window : Window) (inputs : List Tuple) : List Attempt → List Tuple → Prop
  /-- The first attempt has all inputs. -/
  | first : Retries window inputs [] inputs
  /-- An attempt ends. -/
  | again {ended : List Attempt} {attempt : Attempt}
      (before : Retries window inputs ended attempt.inputs)
      (keeps : window.Keeps attempt.inputs attempt.windows attempt.left)
      (unfinished : attempt.windows.length < (window.contentsOf attempt.inputs).length) :
      Retries window inputs (ended ++ [attempt]) attempt.left

namespace Retries

theorem append (retries : window.Retries inputs ended current) (later : List Tuple) :
    window.Retries (inputs ++ later) (ended.map (Attempt.extend later)) (current ++ later) := by
  induction retries with
  | first => exact .first
  | @again ended attempt _ keeps unfinished induction =>
      rw [List.map_append]
      have extended : window.Retries (inputs ++ later) (ended.map (Attempt.extend later))
          (attempt.extend later).inputs := induction
      refine extended.again (keeps.append later) ?_
      exact Nat.lt_of_lt_of_le unfinished (window.contentsOf_prefix _ later).length_le

theorem sublist (retries : window.Retries inputs ended current) : current.Sublist inputs := by
  induction retries with
  | first => exact .refl _
  | again _ keeps _ induction => exact keeps.sublist.trans induction

end Retries

/-! ## Windows by number -/

section

variable {origin : Int} {tuples : List Tuple} {tuple : Tuple} {passed opened : Nat}

theorem passedSpans_append (window : Window) (origin : Int) (tuples : List Tuple) {first : Nat}
    (first_le : first ≤ passed) (passed_le : passed ≤ opened) :
    window.passedSpans origin tuples first passed ++
        window.passedSpans origin tuples passed opened =
      window.passedSpans origin tuples first opened := by
  have numbers_eq : List.range' first (passed - first) ++ List.range' passed (opened - passed) =
      List.range' first (opened - first) := by
    have joined := List.range'_append_1 (s := first) (m := passed - first) (n := opened - passed)
    rwa [Nat.add_sub_cancel' first_le, show passed - first + (opened - passed) = opened - first by
      omega] at joined
  rw [passedSpans, passedSpans, passedSpans, ← List.map_append, ← List.filter_append, numbers_eq]

/-- A tuple that arrives when some windows are over is in none of them. -/
theorem passedSpans_append_singleton {first : Nat}
    (are_over : ∀ index < opened, window.nthEnding origin index < tuple.arrival) :
    window.passedSpans origin (tuples ++ [tuple]) first opened =
      window.passedSpans origin tuples first opened := by
  have span_eq {index : Nat} (member : index ∈ List.range' first (opened - first)) :
      window.nthSpan origin (tuples ++ [tuple]) index = window.nthSpan origin tuples index := by
    have before : index < opened := by
      have := List.mem_range'_1.mp member
      omega
    have outside : ¬tuple.arrival ≤ window.nthEnding origin index :=
      Int.not_le.mpr (are_over index before)
    simp [nthSpan, List.filter_append, outside]
  rw [passedSpans, passedSpans, List.filter_congr fun index member => by rw [span_eq member]]
  refine List.map_congr_left fun index member => ?_
  rw [span_eq (List.mem_filter.mp member).1]

/-- The windows that some tuples complete, by number: those that hold tuples and are over when one
of the tuples arrives. -/
structure CompletesUpTo (window : Window) (origin : Int) (tuples : List Tuple) (opened : Nat) :
    Prop where
  contents_eq : window.contentsOf tuples = window.passedSpans origin tuples 0 opened
  over_iff : ∀ index, index < opened ↔
    ∃ tuple ∈ tuples, window.nthEnding origin index < tuple.arrival

/-- Tuples that arrive one after the other complete the windows up to some number, if they do not
arrive too far apart. -/
theorem exists_completesUpTo (origin : Int) (spans : window.kind = .time)
    (early : -2 ^ 61 ≤ origin) (near : origin ≤ 2 ^ 61) (tuples : List Tuple)
    (origin_eq : ∀ first ∈ tuples.head?, first.arrival = origin)
    (late : ∀ tuple ∈ tuples, tuple.arrival ≤ 2 ^ 61)
    (increasing : tuples.Pairwise fun earlier later => earlier.arrival < later.arrival) :
    ∃ opened, window.StandsAt origin tuples opened ∧
      window.CompletesUpTo origin tuples opened := by
  induction tuples using List.reverseRecOn with
  | nil =>
      have origin_first : origin = window.nthBeginning origin 0 :=
        (nthBeginning_zero (by simp only [Time.latest]; omega)).symm
      exact ⟨0, ⟨origin_first, List.forall_mem_nil _, List.forall_mem_nil _, .nil⟩, rfl, by simp⟩
  | append_singleton tuples tuple induction =>
      obtain ⟨tuples_increasing, _, before⟩ := List.pairwise_append.mp increasing
      have head_eq : (tuples.headD tuple).arrival = origin := by
        cases tuples with
        | nil => exact origin_eq tuple rfl
        | cons first tuples => exact origin_eq first rfl
      obtain ⟨passed, stands, contents_eq, over_iff⟩ := induction
        (fun first found => origin_eq first (by
          rw [List.head?_append, Option.mem_def.mp found]
          rfl))
        (fun other member => late other (List.mem_append_left _ member)) tuples_increasing
      obtain ⟨opened, passes, later⟩ := stands.accept spans head_eq early
        (late tuple (List.mem_append_right _ (List.mem_singleton_self tuple)))
      have are_over (index : Nat) (is_over : index < opened) :
          window.nthEnding origin index < tuple.arrival := by
        rcases Nat.lt_or_ge index passed with old | new
        · obtain ⟨other, member, elapsed⟩ := (over_iff index).mp old
          exact Int.lt_trans elapsed (before other member tuple (List.mem_singleton_self tuple))
        · exact (passes.over_iff index new).mp is_over
      refine ⟨opened, later, ?_, fun index =>
        ⟨fun is_over => ⟨tuple, by simp, are_over index is_over⟩, ?_⟩⟩
      · rw [passedSpans_append_singleton are_over,
          ← window.passedSpans_append origin tuples (Nat.zero_le passed) passes.opened_least.1.1,
          ← contents_eq, contentsOf, passes.reports_eq, List.flatten_append, List.flatten_singleton]
        rfl
      · rintro ⟨other, member, elapsed⟩
        refine Nat.lt_of_not_le fun opened_le => ?_
        have reaches := later.reaches other member
        have := window.nthEnding_mono origin opened_le
        omega

/-! ### Going on -/

/-- Numbers in order that begin as some numbers from zero on go on with those after the last one. -/
theorem eq_of_filter_range_eq {kept : Nat → Bool} {earlier rest : List Nat} {number : Nat}
    (numbers_eq : (List.range' 0 opened).filter kept = earlier ++ [number] ++ rest) :
    number < opened ∧ rest = (List.range' (number + 1) (opened - (number + 1))).filter kept := by
  have number_mem : number ∈ (List.range' 0 opened).filter kept := by simp [numbers_eq]
  have number_lt : number < opened := by
    have := List.mem_range'_1.mp (List.mem_filter.mp number_mem).1
    omega
  have increasing : (earlier ++ [number] ++ rest).Pairwise (· < ·) := by
    rw [← numbers_eq]
    exact (List.pairwise_lt_range' 1).filter _
  obtain ⟨up_to, _, above⟩ := List.pairwise_append.mp increasing
  have below : ∀ index ∈ earlier ++ [number], ¬number < index := by
    intro index member
    rcases List.mem_append.mp member with before | same
    · exact Nat.not_lt.mpr (Nat.le_of_lt
        ((List.pairwise_append.mp up_to).2.2 index before number (List.mem_singleton_self number)))
    · exact Nat.not_lt.mpr (Nat.le_of_eq (List.mem_singleton.mp same))
  have split : List.range' 0 opened =
      List.range' 0 (number + 1) ++ List.range' (number + 1) (opened - (number + 1)) := by
    have joined := List.range'_append_1 (s := 0) (m := number + 1) (n := opened - (number + 1))
    rwa [Nat.zero_add, Nat.add_sub_cancel' number_lt, eq_comm] at joined
  refine ⟨number_lt, ?_⟩
  -- What lies above the number is the same on both sides.
  have above_eq := congrArg (List.filter fun index => number < index) numbers_eq
  have none_below : (earlier ++ [number]).filter (fun index => number < index) = [] :=
    List.filter_eq_nil_iff.mpr fun index member => by simpa using below index member
  have all_above : rest.filter (fun index => number < index) = rest :=
    List.filter_eq_self.mpr fun index member => by
      simpa using above number (by simp) index member
  have none_before : ((List.range' 0 (number + 1)).filter kept).filter
      (fun index => number < index) = [] := by
    refine List.filter_eq_nil_iff.mpr fun index member => ?_
    have := List.mem_range'_1.mp (List.mem_filter.mp member).1
    simp
    omega
  have all_after : ((List.range' (number + 1) (opened - (number + 1))).filter kept).filter
      (fun index => number < index) =
        (List.range' (number + 1) (opened - (number + 1))).filter kept := by
    refine List.filter_eq_self.mpr fun index member => ?_
    have := List.mem_range'_1.mp (List.mem_filter.mp member).1
    simp
    omega
  rw [split, List.filter_append, List.filter_append, none_before, all_after, List.filter_append,
    none_below, all_above] at above_eq
  exact above_eq.symm

/-- Where the first of some windows end, by number. -/
theorem exists_number_of_prefix {last : Contents}
    (completed : windows ++ [last] <+: window.passedSpans origin tuples 0 opened) :
    ∃ number < opened, last.mark = window.nthBeginning origin (number + 1) ∧
      window.passedSpans origin tuples 0 opened =
        windows ++ [last] ++ window.passedSpans origin tuples (number + 1) opened := by
  obtain ⟨rest, contents_eq⟩ := completed
  obtain ⟨first_numbers, rest_numbers, numbers_eq, first_eq, rest_eq⟩ :=
    List.map_eq_append_iff.mp contents_eq.symm
  obtain ⟨earlier, ending, rfl, windows_eq, ending_eq⟩ := List.map_eq_append_iff.mp first_eq
  obtain ⟨number, rfl, rfl⟩ := List.map_eq_singleton_iff.mp ending_eq
  obtain ⟨number_lt, rfl⟩ := eq_of_filter_range_eq numbers_eq
  exact ⟨number, number_lt, rfl, contents_eq.symm.trans (by rw [← rest_eq]; rfl)⟩

theorem nthBeginning_nthBeginning (window : Window) (origin : Int) (first second : Nat) :
    window.nthBeginning (window.nthBeginning origin first) second =
      window.nthBeginning origin (first + second) := by
  have stride_pos := SpanBuffer.extent_pos window.stride_pos
  have far := Int.mul_nonneg (Int.natCast_nonneg second) (Int.le_of_lt stride_pos)
  simp only [nthBeginning, Time.after, Int.natCast_add, Int.add_mul]
  omega

theorem nthEnding_nthBeginning (window : Window) (origin : Int) (first second : Nat) :
    window.nthEnding (window.nthBeginning origin first) second =
      window.nthEnding origin (first + second) := by
  rw [nthEnding, nthEnding, nthBeginning_nthBeginning]

/-- The windows from one on hold the same tuples if those that arrive before it are left out. -/
theorem nthSpan_filter (window : Window) (origin : Int) (tuples : List Tuple)
    (first second : Nat) :
    window.nthSpan (window.nthBeginning origin first)
        (tuples.filter fun tuple => window.nthBeginning origin first ≤ tuple.arrival) second =
      window.nthSpan origin tuples (first + second) := by
  have first_le := window.nthBeginning_mono origin (Nat.le_add_right first second)
  rw [nthSpan, nthSpan, List.filter_filter, nthBeginning_nthBeginning, nthEnding_nthBeginning]
  refine List.filter_congr fun tuple _ => ?_
  by_cases reached : window.nthBeginning origin (first + second) ≤ tuple.arrival
  · simp [reached, Int.le_trans first_le reached]
  · simp [reached]

theorem passedSpans_filter (window : Window) (origin : Int) (tuples : List Tuple)
    (first count : Nat) :
    window.passedSpans (window.nthBeginning origin first)
        (tuples.filter fun tuple => window.nthBeginning origin first ≤ tuple.arrival) 0 count =
      window.passedSpans origin tuples first (first + count) := by
  have numbers_eq : List.range' first (first + count - first) =
      (List.range' 0 (count - 0)).map (first + ·) := by
    rw [List.map_add_range', Nat.add_sub_cancel_left]
    rfl
  rw [passedSpans, passedSpans, numbers_eq, List.filter_map, List.map_map]
  simp only [nthSpan_filter, nthBeginning_nthBeginning, Function.comp_def, Nat.add_assoc]

/-- If a tuple arrives at the mark of a window, the windows after it are those of the tuples from
the mark on. -/
theorem contentsOf_resumes (spans : window.kind = .time)
    (near : ∀ tuple ∈ tuples, tuple.arrival.natAbs ≤ 2 ^ 61)
    (increasing : tuples.Pairwise fun earlier later => earlier.arrival < later.arrival)
    {last : Contents} (completed : windows ++ [last] <+: window.contentsOf tuples)
    (meets : (tuples.filter fun tuple => last.mark ≤ tuple.arrival).head?.map Tuple.arrival =
      some last.mark) :
    window.contentsOf tuples = windows ++ [last] ++
      window.contentsOf (tuples.filter fun tuple => last.mark ≤ tuple.arrival) := by
  obtain ⟨meeting, meeting_eq, meeting_arrival⟩ := Option.map_eq_some_iff.mp meets
  have meeting_mem := (List.mem_filter.mp (List.mem_of_mem_head? meeting_eq)).1
  have near_mark := near meeting meeting_mem
  obtain ⟨first, rest, tuples_eq⟩ := List.exists_cons_of_ne_nil (List.ne_nil_of_mem meeting_mem)
  have near_first := near first (by rw [tuples_eq]; exact List.mem_cons_self)
  have late : ∀ tuple ∈ tuples, tuple.arrival ≤ 2 ^ 61 := fun tuple member => by
    have := near tuple member
    omega
  obtain ⟨opened, _, contents_eq, over_iff⟩ := exists_completesUpTo first.arrival spans
    (by omega) (by omega) tuples
    (fun other found => by rw [tuples_eq] at found; cases found; rfl) late increasing
  obtain ⟨number, number_lt, mark_eq, split⟩ :=
    exists_number_of_prefix (contents_eq ▸ completed)
  obtain ⟨count, _, resumed_eq, resumed_iff⟩ := exists_completesUpTo last.mark spans
    (by omega) (by omega)
    (tuples.filter fun tuple => last.mark ≤ tuple.arrival)
    (fun other found => by
      rw [meeting_eq] at found
      cases found
      exact meeting_arrival)
    (fun tuple member => late tuple (List.mem_filter.mp member).1) (increasing.filter _)
  have resumed_lt_iff (index : Nat) : index < count ↔ number + 1 + index < opened := by
    rw [resumed_iff, over_iff, mark_eq]
    simp only [nthEnding_nthBeginning]
    refine ⟨fun ⟨tuple, member, elapsed⟩ => ⟨tuple, (List.mem_filter.mp member).1, elapsed⟩,
      fun ⟨tuple, member, elapsed⟩ =>
        ⟨tuple, List.mem_filter.mpr ⟨member, decide_eq_true ?_⟩, elapsed⟩⟩
    have width_pos := SpanBuffer.extent_pos window.width_pos
    have later := window.nthBeginning_mono first.arrival (Nat.le_add_right (number + 1) index)
    rw [nthEnding] at elapsed
    omega
  have opened_eq : opened = number + 1 + count := by
    have at_count := resumed_lt_iff count
    have at_rest := resumed_lt_iff (opened - (number + 1))
    omega
  rw [contents_eq, split, resumed_eq, mark_eq, passedSpans_filter, opened_eq]

end

/-- If the first input that is kept arrives at the mark, the inputs that are kept are those from the
mark on. -/
theorem kept_eq_filter {early late : List Tuple} {mark : Int}
    (increasing : (early ++ late).Pairwise fun earlier later => earlier.arrival < later.arrival)
    (exact_marks : ∀ input ∈ early ++ late, input.lowWater = input.arrival)
    (meets : ((early.filter fun input => mark ≤ input.lowWater) ++ late).head?.map Tuple.arrival =
      some mark) :
    (early.filter fun input => mark ≤ input.lowWater) ++ late =
      (early ++ late).filter fun input => mark ≤ input.arrival := by
  have kept_increasing := increasing.sublist
    ((List.filter_sublist (p := fun input => mark ≤ input.lowWater)).append_right late)
  have mark_le : ∀ input ∈ late, mark ≤ input.arrival := by
    intro input member
    obtain ⟨first, first_eq, rfl⟩ := Option.map_eq_some_iff.mp meets
    obtain ⟨rest, kept_eq⟩ := List.head?_eq_some_iff.mp first_eq
    have inside : input ∈ first :: rest := kept_eq ▸ List.mem_append_right _ member
    rw [kept_eq] at kept_increasing
    rcases List.mem_cons.mp inside with rfl | later
    · exact Int.le_refl _
    · exact Int.le_of_lt ((List.pairwise_cons.mp kept_increasing).1 input later)
  have early_eq : (early.filter fun input => mark ≤ input.lowWater) =
      early.filter fun input => mark ≤ input.arrival :=
    List.filter_congr fun input member => by
      rw [exact_marks input (List.mem_append_left _ member)]
  have late_eq : (late.filter fun input => mark ≤ input.arrival) = late :=
    List.filter_eq_self.mpr fun input member => decide_eq_true (mark_le input member)
  rw [List.filter_append, late_eq, early_eq]

/-- If the first input that is kept arrives at the mark, nothing but the committed windows is lost.
-/
theorem Keeps.contentsOf_eq (keeps : window.Keeps inputs windows left) (spans : window.kind = .time)
    (timely : AreTimely inputs)
    (aligned : ∀ last ∈ windows.getLast?, left.head?.map Tuple.arrival = some last.mark) :
    window.contentsOf inputs = windows ++ window.contentsOf left := by
  cases keeps with
  | all => rfl
  | @since early late earlier last inputs_eq completed =>
      subst inputs_eq
      have meets := aligned last List.getLast?_concat
      have kept_eq := kept_eq_filter timely.increasing timely.exact_marks meets
      rw [kept_eq] at meets ⊢
      exact contentsOf_resumes spans timely.near timely.increasing
        (completed.trans (window.contentsOf_prefix _ _)) meets

/-- If each attempt goes on at the mark of the one before, the windows of all attempts are the first
windows of all inputs. -/
theorem Retries.contentsOf_eq (retries : window.Retries inputs ended current)
    (spans : window.kind = .time) (timely : AreTimely inputs)
    (aligned : ∀ attempt ∈ ended, attempt.IsAligned) :
    window.contentsOf inputs = ended.flatMap Attempt.windows ++ window.contentsOf current := by
  induction retries with
  | first => rfl
  | @again ended attempt before keeps unfinished induction =>
      rw [induction fun other member => aligned other (List.mem_append_left _ member),
        List.flatMap_append, List.flatMap_singleton, List.append_assoc,
        keeps.contentsOf_eq spans (timely.sublist before.sublist) (aligned attempt (by simp))]

/-- If each attempt goes on at the mark of the one before, the windows that were committed are the
first ones of all inputs. -/
theorem Retries.windows_prefix {attempt : Attempt}
    (retries : window.Retries inputs ended attempt.inputs)
    (keeps : window.Keeps attempt.inputs attempt.windows attempt.left)
    (spans : window.kind = .time) (timely : AreTimely inputs)
    (aligned : ∀ other ∈ ended, other.IsAligned) :
    (ended ++ [attempt]).flatMap Attempt.windows <+: window.contentsOf inputs := by
  rw [retries.contentsOf_eq spans timely aligned, List.flatMap_append, List.flatMap_singleton]
  exact List.prefix_append_right_inj _ |>.mpr keeps.windows_prefix

/-- Attempts that end without a commit leave all inputs. -/
theorem Retries.current_eq (retries : window.Retries inputs ended current)
    (uncommitted : ∀ attempt ∈ ended, attempt.windows = []) : current = inputs := by
  induction retries with
  | first => rfl
  | @again ended attempt before keeps unfinished induction =>
      rw [keeps.left_eq (uncommitted attempt (by simp))]
      exact induction fun other member => uncommitted other (List.mem_append_left _ member)

/-! ## Inputs that arrive at the marks -/

/-- At the mark of each window that the inputs complete one of them arrives. -/
def MeetsMarks (window : Window) (inputs : List Tuple) : Prop :=
  ∀ contents ∈ window.contentsOf inputs, ∃ input ∈ inputs, input.arrival = contents.mark

instance (window : Window) (inputs : List Tuple) : Decidable (window.MeetsMarks inputs) :=
  inferInstanceAs (Decidable (∀ contents ∈ window.contentsOf inputs, ∃ input ∈ inputs, _))

/-- The first of the inputs from a moment on arrives at this moment if one of them does. -/
theorem head?_filter_arrival (timely : AreTimely inputs) {meeting : Tuple}
    (member : meeting ∈ inputs) :
    (inputs.filter fun input => meeting.arrival ≤ input.lowWater).head?.map Tuple.arrival =
      some meeting.arrival := by
  induction inputs with
  | nil => cases member
  | cons first inputs induction =>
      have first_exact := timely.exact_marks first List.mem_cons_self
      rcases List.mem_cons.mp member with rfl | later
      · rw [List.filter_cons_of_pos (by simp [first_exact])]
        rfl
      · have first_lt := (List.pairwise_cons.mp timely.increasing).1 meeting later
        have before : ¬meeting.arrival ≤ first.lowWater := by omega
        rw [List.filter_cons_of_neg (by simpa using before)]
        exact induction (timely.sublist (List.sublist_cons_self first inputs)) later

namespace Keeps

/-- The first input that is kept arrives at the mark of the last commit. -/
theorem head?_left (keeps : window.Keeps inputs windows left) (spans : window.kind = .time)
    (stride_le : window.stride ≤ window.width) (timely : AreTimely inputs)
    (meets : window.MeetsMarks inputs) :
    ∀ last ∈ windows.getLast?, left.head?.map Tuple.arrival = some last.mark := by
  intro last last_mem
  cases keeps with
  | all => cases last_mem
  | @since early late earlier _ inputs_eq completed =>
      rw [List.getLast?_concat, Option.mem_some_iff] at last_mem
      subst inputs_eq last_mem
      have reported := completed.subset (List.mem_append_right _ (List.mem_singleton_self _))
      obtain ⟨input, input_mem, input_meets⟩ :=
        meets _ ((window.contentsOf_prefix early late).subset reported)
      -- The window was over when an early input arrived, so that its mark lies among these.
      have input_early : input ∈ early := by
        obtain ⟨closing, closing_mem, mark_le⟩ := exists_mark_le_arrival spans stride_le reported
        rcases List.mem_append.mp input_mem with is_early | is_late
        · exact is_early
        · have later := (List.pairwise_append.mp timely.increasing).2.2 closing closing_mem input
            is_late
          omega
      have first_eq := head?_filter_arrival
        (timely.sublist (List.sublist_append_left early late)) input_early
      rw [← input_meets, List.head?_append, Option.map_or, first_eq]
      rfl

/-- At the marks of the windows that are left inputs arrive that are left. -/
theorem meetsMarks_left (keeps : window.Keeps inputs windows left) (spans : window.kind = .time)
    (stride_le : window.stride ≤ window.width) (timely : AreTimely inputs)
    (meets : window.MeetsMarks inputs) : window.MeetsMarks left := by
  have aligned := keeps.head?_left spans stride_le timely meets
  have contents_eq := keeps.contentsOf_eq spans timely aligned
  cases keeps with
  | all => exact meets
  | @since early late earlier last inputs_eq completed =>
      subst inputs_eq
      intro contents member
      obtain ⟨input, input_mem, input_meets⟩ :=
        meets contents (contents_eq ▸ List.mem_append_right _ member)
      have marks := (marksArrivals_contentsOf spans (early ++ late)).mark_le_mark
      rw [contents_eq] at marks
      have mark_le : last.mark ≤ contents.mark :=
        (List.pairwise_append.mp marks).2.2 last (by simp) contents member
      rw [kept_eq_filter timely.increasing timely.exact_marks (aligned last List.getLast?_concat)]
      exact ⟨input, List.mem_filter.mpr ⟨input_mem, decide_eq_true (by omega)⟩, input_meets⟩

end Keeps

/-- If inputs arrive at the marks of all windows, and windows leave no gap, each attempt goes on at
the mark of the one before. -/
theorem Retries.isAligned_of_meetsMarks (retries : window.Retries inputs ended current)
    (spans : window.kind = .time) (stride_le : window.stride ≤ window.width)
    (timely : AreTimely inputs) (meets : window.MeetsMarks inputs) :
    (∀ attempt ∈ ended, attempt.IsAligned) ∧ window.MeetsMarks current := by
  induction retries with
  | first => exact ⟨List.forall_mem_nil _, meets⟩
  | @again ended attempt before keeps unfinished induction =>
      obtain ⟨aligned, meets_before⟩ := induction
      have timely_before := timely.sublist before.sublist
      have aligned_next : attempt.IsAligned :=
        keeps.head?_left spans stride_le timely_before meets_before
      exact ⟨List.forall_mem_append.mpr ⟨aligned, List.forall_mem_singleton.mpr aligned_next⟩,
        keeps.meetsMarks_left spans stride_le timely_before meets_before⟩

/-! ## Windows of related tuples -/

section

variable {related : Tuple → Tuple → Prop} {history other : List Tuple}

theorem since_forall₂ (arrival_eq : ∀ first second, related first second →
    first.arrival = second.arrival) (all : List.Forall₂ related history other) (moment : Int) :
    List.Forall₂ related (since moment history) (since moment other) := by
  rw [since, since, List.forall₂_reverse_iff]
  refine List.rel_filter (fun first second is_related => ?_) all
  simp only [arrival_eq first second is_related]

/-- Which windows are over depends on the arrivals only. -/
theorem overAt_eq_of_forall₂ (arrival_eq : ∀ first second, related first second →
    first.arrival = second.arrival) (all : List.Forall₂ related history other)
    (time beginning : Int) :
    window.overAt history time beginning = window.overAt other time beginning := by
  have empty_iff (moment : Int) :
      (since moment history).isEmpty = (since moment other).isEmpty := by
    have length_eq := (since_forall₂ arrival_eq all moment).length_eq
    rw [Bool.eq_iff_iff, List.isEmpty_iff_length_eq_zero, List.isEmpty_iff_length_eq_zero,
      length_eq]
  fun_induction Window.overAt window history time beginning with
  | case1 beginning elapsed empty =>
      rw [overAt, dif_pos elapsed, if_pos (empty_iff beginning ▸ empty)]
  | case2 beginning elapsed filled later opened overAt_eq induction =>
      rw [overAt, dif_pos elapsed, if_neg (empty_iff beginning ▸ filled), ← induction, overAt_eq]
  | case3 beginning still_open => rw [overAt, dif_neg still_open]

theorem opening?_eq_of_forall₂ (arrival_eq : ∀ first second, related first second →
    first.arrival = second.arrival) (all : List.Forall₂ related history other) :
    window.opening? history = window.opening? other := by
  induction all with
  | nil => rfl
  | cons newest rest induction =>
      rw [opening?, opening?, induction, arrival_eq _ _ newest,
        overAt_eq_of_forall₂ arrival_eq rest]

/-- Related tuples complete related windows. -/
theorem contentsOf_forall₂ (spans : window.kind = .time)
    (arrival_eq : ∀ first second, related first second → first.arrival = second.arrival)
    {first second : List Tuple} (all : List.Forall₂ related first second) :
    List.Forall₂ (Contents.Corresponds related) (window.contentsOf first)
      (window.contentsOf second) := by
  rw [← List.forall₂_reverse_iff] at all
  rw [← first.reverse_reverse, ← second.reverse_reverse]
  generalize first.reverse = history at all
  generalize second.reverse = other at all
  induction all with
  | nil => exact .nil
  | @cons newest mate history other is_related rest induction =>
      rw [List.reverse_cons, List.reverse_cons, contentsOf_append_of_time spans,
        contentsOf_append_of_time spans, List.reverse_reverse, List.reverse_reverse,
        opening?_eq_of_forall₂ arrival_eq rest, arrival_eq _ _ is_related,
        overAt_eq_of_forall₂ arrival_eq rest]
      refine List.rel_append induction ?_
      rw [List.forall₂_map_left_iff, List.forall₂_map_right_iff, List.forall₂_same]
      exact fun start _ => ⟨rfl, since_forall₂ arrival_eq rest start⟩

end

/-! ## Tuples of windows -/

/-- A window that is over without any tuples is skipped. -/
theorem since_ne_nil_of_mem_overAt {history : List Tuple} {time beginning start : Int}
    (member : start ∈ (window.overAt history time beginning).1) : since start history ≠ [] := by
  fun_induction Window.overAt window history time beginning with
  | case1 => cases member
  | case2 beginning elapsed filled later opened overAt_eq induction =>
      rcases List.mem_cons.mp member with rfl | is_later
      · exact fun empty => filled (by rw [empty]; rfl)
      · rw [overAt_eq] at induction
        exact induction is_later
  | case3 => cases member

/-- A window that is reported has tuples, all of which have been accepted. -/
theorem tuples_of_mem_contentsOf (spans : window.kind = .time) {tuples : List Tuple}
    {contents : Contents} (member : contents ∈ window.contentsOf tuples) :
    contents.tuples ≠ [] ∧ ∀ tuple ∈ contents.tuples, tuple ∈ tuples := by
  induction tuples using List.reverseRecOn with
  | nil => cases member
  | append_singleton tuples tuple induction =>
      rw [contentsOf_append_of_time spans] at member
      rcases List.mem_append.mp member with earlier | newest
      · obtain ⟨filled, accepted⟩ := induction earlier
        exact ⟨filled, fun other inside => List.mem_append_left _ (accepted other inside)⟩
      · obtain ⟨start, is_over, rfl⟩ := List.mem_map.mp newest
        refine ⟨since_ne_nil_of_mem_overAt is_over, fun other inside => ?_⟩
        have held := (List.mem_filter.mp (List.mem_reverse.mp inside)).1
        exact List.mem_append_left _ (List.mem_reverse.mp held)

end Window

end StreamQuery
