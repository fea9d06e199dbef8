import Mathlib.Data.List.Infix
import StreamQuery.Proofs.Plan.Reach

/-!
# The choice of the commit operator

The search for the commit operator looks at one candidate after the other. What it ends with does
not depend on that: of the candidates that enclose most reads it is the aggregation nearest to the
sources, or, where none of them is an aggregation, the only join.
-/

namespace StreamQuery

namespace QueryTree

/-- Transactions may end at an aggregation over reads and at a join with reads on both sides. -/
def isCandidate : QueryTree → Bool
  | source _ => false
  | single header logic input =>
    logic.isAggregation && 0 < (single header logic input).reads
  | join _ _ left right => 0 < left.reads && 0 < right.reads

/-- Of the candidates of a tree, the one where transactions end. -/
structure IsPreferred (tree commit : QueryTree) : Prop where
  /-- It is an operator of the tree. -/
  mem_postOrder : commit ∈ tree.postOrder
  /-- It is a candidate. -/
  isCandidate : commit.isCandidate = true
  /-- No candidate encloses more reads. -/
  reads_le : ∀ other ∈ tree.postOrder, other.isCandidate = true → other.reads ≤ commit.reads
  /-- If an aggregation encloses as many reads, it is an aggregation, and all others of them get
  input from it. -/
  nearest : (∃ other ∈ tree.postOrder, other.isAggregation = true ∧ other.reads = commit.reads) →
    commit.isAggregation = true ∧ ∀ other ∈ tree.postOrder, other.isAggregation = true →
      other.reads = commit.reads → commit ∈ other.postOrder
  /-- If none does, it is a join, and no other candidate encloses as many. -/
  unique : (¬∃ other ∈ tree.postOrder, other.isAggregation = true ∧ other.reads = commit.reads) →
    commit.isAggregation = false ∧ ∀ other ∈ tree.postOrder, other.isCandidate = true →
      other.reads = commit.reads → other = commit

/-! ## Reads -/

/-- The reads of a tree are its operators that read relations. -/
theorem reads_eq_countP (tree : QueryTree) : tree.reads = tree.postOrder.countP readsRelation := by
  induction tree with
  | source header => rfl
  | single header logic input induction =>
      rw [reads, postOrder, List.countP_append, induction, List.countP_singleton]
      rfl
  | join header logic left right left_induction right_induction =>
      rw [reads, postOrder, List.countP_append, List.countP_append, left_induction,
        right_induction, List.countP_singleton]
      rfl

theorem isCandidate_of_isAggregation {tree : QueryTree} (aggregates : tree.isAggregation = true)
    (reads : 0 < tree.reads) : tree.isCandidate = true := by
  cases tree with
  | single header logic input => exact Bool.and_eq_true_iff.mpr ⟨aggregates, decide_eq_true reads⟩
  | _ => cases aggregates

theorem reads_of_isCandidate {tree : QueryTree} (candidate : tree.isCandidate = true) :
    0 < tree.reads := by
  cases tree with
  | source header => cases candidate
  | single header logic input =>
      exact of_decide_eq_true (Bool.and_eq_true_iff.mp candidate).2
  | join header logic left right =>
      have left_reads := of_decide_eq_true (Bool.and_eq_true_iff.mp candidate).1
      exact left_reads.trans_le (Nat.le_add_right _ _)

theorem isWindowOperator_of_isCandidate {tree : QueryTree} (candidate : tree.isCandidate = true) :
    tree.isWindowOperator = true := by
  cases tree with
  | source header => cases candidate
  | single header logic input => exact (Bool.and_eq_true_iff.mp candidate).1
  | join header logic left right => rfl

/-- A join that is a candidate encloses more reads than what it gets its input from. -/
theorem reads_lt_of_join {operator tree : QueryTree} (candidate : tree.isCandidate = true)
    (joins : tree.isAggregation = false) (member : operator ∈ tree.postOrder)
    (different : operator ≠ tree) : operator.reads < tree.reads := by
  cases tree with
  | source header => cases candidate
  | single header logic input =>
      exact absurd ((Bool.and_eq_true_iff.mp candidate).1.symm.trans joins) (by decide)
  | join header logic left right =>
      obtain ⟨left_reads, right_reads⟩ : 0 < left.reads ∧ 0 < right.reads := by
        simpa [isCandidate] using candidate
      rw [reads]
      obtain is_root | ⟨input, is_input, inside⟩ := mem_postOrder_iff.mp member
      · exact absurd is_root different
      · have below := reads_le_of_mem_postOrder inside
        obtain rfl | rfl : input = left ∨ input = right := by simpa [inputs] using is_input
        · omega
        · omega

/-! ## Post order -/

theorem sizeOf_input_lt {input tree : QueryTree} (is_input : input ∈ tree.inputs) :
    sizeOf input < sizeOf tree := by
  cases tree with
  | source header => cases is_input
  | single header logic below =>
      obtain rfl := List.mem_singleton.mp is_input
      simp only [single.sizeOf_spec]
      omega
  | join header logic left right =>
      obtain rfl | rfl : input = left ∨ input = right := by simpa [inputs] using is_input
      · simp only [join.sizeOf_spec]
        omega
      · simp only [join.sizeOf_spec]
        omega

theorem sizeOf_le_of_mem_postOrder {operator tree : QueryTree}
    (member : operator ∈ tree.postOrder) : sizeOf operator ≤ sizeOf tree := by
  induction tree using inputs_induction with
  | step tree induction =>
      obtain rfl | ⟨input, is_input, inside⟩ := mem_postOrder_iff.mp member
      · exact le_rfl
      · exact (induction input is_input inside).trans (sizeOf_input_lt is_input).le

/-- Two operators that get input from each other are one. -/
theorem postOrder_antisymm {first second : QueryTree} (below : first ∈ second.postOrder)
    (above : second ∈ first.postOrder) : first = second := by
  obtain same | ⟨input, is_input, inside⟩ := mem_postOrder_iff.mp below
  · exact same
  · have proper := (sizeOf_le_of_mem_postOrder inside).trans_lt (sizeOf_input_lt is_input)
    exact absurd (sizeOf_le_of_mem_postOrder above) (Nat.not_le_of_lt proper)

/-- An entry of two lists in a row is one of the first or one of the second list. -/
theorem split_append {first second earlier later : List QueryTree} {operator : QueryTree}
    (split : first ++ second = earlier ++ operator :: later) :
    (∃ rest, first = earlier ++ operator :: rest) ∨
      ∃ front, earlier = first ++ front ∧ second = front ++ operator :: later := by
  rcases List.append_eq_append_iff.mp split with ⟨front, earlier_eq, second_eq⟩ |
    ⟨back, first_eq, rest_eq⟩
  · exact .inr ⟨front, earlier_eq, second_eq⟩
  · cases back with
    | nil =>
        rw [List.append_nil] at first_eq
        exact .inr ⟨[], by rw [first_eq, List.append_nil], rest_eq.symm⟩
    | cons head back =>
        rw [List.cons_append, List.cons.injEq] at rest_eq
        obtain ⟨rfl, _⟩ := rest_eq
        exact .inl ⟨back, first_eq⟩

theorem split_singleton {root operator : QueryTree} {front later : List QueryTree}
    (split : [root] = front ++ operator :: later) : front = [] ∧ operator = root := by
  cases front with
  | nil => exact ⟨rfl, (List.cons.inj split).1.symm⟩
  | cons head front => simp at split

/-- Wherever an operator occurs, it is preceded by all that it gets its input from. -/
theorem postOrder_suffix {tree operator : QueryTree} {earlier later : List QueryTree}
    (split : tree.postOrder = earlier ++ operator :: later) :
    operator.postOrder <:+ earlier ++ [operator] := by
  induction tree generalizing earlier later with
  | source header =>
      obtain ⟨rfl, rfl⟩ := split_singleton split
      exact List.suffix_rfl
  | single header logic input induction =>
      rcases split_append split with ⟨rest, input_eq⟩ | ⟨front, rfl, last⟩
      · exact induction input_eq
      · obtain ⟨rfl, rfl⟩ := split_singleton last
        rw [List.append_nil, postOrder]
  | join header logic left right left_induction right_induction =>
      rcases split_append split with ⟨rest, inputs_eq⟩ | ⟨front, rfl, last⟩
      · rcases split_append inputs_eq with ⟨rest, left_eq⟩ | ⟨front, rfl, right_eq⟩
        · exact left_induction left_eq
        · rw [List.append_assoc]
          exact (right_induction right_eq).trans (List.suffix_append _ _)
      · obtain ⟨rfl, rfl⟩ := split_singleton last
        rw [List.append_nil, postOrder]

/-- What an operator gets its input from comes before each of its occurrences. -/
theorem mem_earlier_of_postOrder_eq {tree operator below : QueryTree}
    {earlier later : List QueryTree} (split : tree.postOrder = earlier ++ operator :: later)
    (inside : below ∈ operator.postOrder) (different : below ≠ operator) : below ∈ earlier := by
  have member := (postOrder_suffix split).subset inside
  rw [List.mem_append, List.mem_singleton] at member
  exact member.resolve_right different

/-- That is so also where only the candidates are listed. -/
theorem mem_earlier_of_filter_eq {tree operator below : QueryTree} {earlier later : List QueryTree}
    (split : tree.postOrder.filter isCandidate = earlier ++ operator :: later)
    (inside : below ∈ operator.postOrder) (different : below ≠ operator)
    (candidate : below.isCandidate = true) : below ∈ earlier := by
  obtain ⟨first, second, order_eq, rfl, second_eq⟩ := List.filter_eq_append_iff.mp split
  obtain ⟨skipped, rest, rfl, passed, _, _⟩ := List.filter_eq_cons_iff.mp second_eq
  rw [← List.append_assoc] at order_eq
  have member := mem_earlier_of_postOrder_eq order_eq inside different
  rcases List.mem_append.mp member with listed | in_skipped
  · exact List.mem_filter.mpr ⟨listed, candidate⟩
  · exact absurd candidate (passed below in_skipped)

end QueryTree

/-! ## The search -/

namespace CommitSearch

variable {search : CommitSearch} {seen : List QueryTree} {tree commit : QueryTree}

theorem foldl_filter_singleton (search : CommitSearch) (tree : QueryTree) :
    ([tree].filter QueryTree.isCandidate).foldl consider search =
      if tree.isCandidate then search.consider tree else search := by
  cases candidate : tree.isCandidate <;> simp [candidate]

/-- A search looks at the candidates of a tree in post order. -/
theorem visit_eq_foldl (search : CommitSearch) (tree : QueryTree) :
    search.visit tree = (tree.postOrder.filter QueryTree.isCandidate).foldl consider search := by
  induction tree generalizing search with
  | source header => rfl
  | single header logic input induction =>
      have encloses : (logic.isAggregation && decide (0 < input.reads)) =
          (QueryTree.single header logic input).isCandidate := by
        rw [QueryTree.isCandidate]
        cases aggregates : logic.isAggregation with
        | false => rfl
        | true => rw [QueryTree.reads_single_of_isAggregation header input aggregates]
      rw [visit, QueryTree.postOrder, List.filter_append, List.foldl_append, ← induction,
        foldl_filter_singleton, encloses]
  | join header logic left right left_induction right_induction =>
      rw [visit, QueryTree.postOrder, List.filter_append, List.filter_append, List.foldl_append,
        List.foldl_append, ← left_induction, ← right_induction, foldl_filter_singleton,
        QueryTree.isCandidate]

/-- What a search has found after it has looked at some candidates, in order. -/
structure Selects (seen : List QueryTree) (search : CommitSearch) : Prop where
  /-- It has found nothing before it has seen anything. -/
  start : search.candidate? = none → seen = [] ∧ search.best = 0
  /-- No candidate that was seen encloses more reads. -/
  reads_le : ∀ other ∈ seen, other.reads ≤ search.best
  /-- The candidate is the first aggregation with as many reads, or there is none and the candidate
  is a join. -/
  candidate : ∀ commit, search.candidate? = some commit → commit.reads = search.best ∧
    ∃ earlier later, seen = earlier ++ commit :: later ∧
      (∀ other ∈ earlier, other.isAggregation = true → other.reads ≠ search.best) ∧
      (commit.isAggregation = false →
        ∀ other ∈ later, other.isAggregation = true → other.reads ≠ search.best)

theorem selects_nil : Selects [] {} where
  start _ := ⟨rfl, rfl⟩
  reads_le := by simp
  candidate := by simp

/-- If the candidate is a join, no aggregation that was seen encloses as many reads. -/
theorem Selects.not_aggregation {commit other : QueryTree} (selects : Selects seen search)
    (found : search.candidate? = some commit) (joins : commit.isAggregation = false)
    (member : other ∈ seen) (reads_eq : other.reads = search.best) :
    other.isAggregation = false := by
  by_contra aggregates
  rw [Bool.not_eq_false] at aggregates
  obtain ⟨_, earlier, later, rfl, before, after⟩ := selects.candidate commit found
  rw [List.mem_append, List.mem_cons] at member
  rcases member with in_front | rfl | behind
  · exact before other in_front aggregates reads_eq
  · exact absurd (aggregates.symm.trans joins) (by decide)
  · exact after joins other behind aggregates reads_eq

/-- Another candidate is looked at. -/
theorem Selects.consider (selects : Selects seen search) (reads : 0 < tree.reads) :
    Selects (seen ++ [tree]) (search.consider tree) := by
  rw [CommitSearch.consider]
  split
  · rename_i improves
    simp only [isImprovedBy, Bool.or_eq_true, Bool.and_eq_true, decide_eq_true_eq] at improves
    refine ⟨by simp, ?_, ?_⟩
    · intro other member
      rcases List.mem_append.mp member with old | new
      · have := selects.reads_le other old
        dsimp only
        omega
      · rw [List.mem_singleton.mp new]
    · rintro commit ⟨⟩
      refine ⟨rfl, seen, [], rfl, fun other member aggregates => ?_, by simp⟩
      have reads_le := selects.reads_le other member
      rcases improves with more | ⟨same, joins⟩
      · exact (reads_le.trans_lt more).ne
      · -- As the candidate was a join, no aggregation with as many reads was seen.
        obtain ⟨old, is_old, not_aggregation⟩ := (Option.any_eq_true _ _).mp joins
        rw [same]
        intro reads_eq
        have other_joins :=
          selects.not_aggregation is_old (by simpa using not_aggregation) member reads_eq
        cases aggregates.symm.trans other_joins
  · rename_i stays
    simp only [isImprovedBy, Bool.or_eq_true, Bool.and_eq_true, decide_eq_true_eq, not_or,
      not_and] at stays
    obtain ⟨not_more, not_instead⟩ := stays
    refine ⟨fun nothing => ?_, ?_, ?_⟩
    · have := (selects.start nothing).2
      omega
    · intro other member
      rcases List.mem_append.mp member with old | new
      · exact selects.reads_le other old
      · rw [List.mem_singleton.mp new]
        omega
    · intro commit is_commit
      obtain ⟨reads_eq, earlier, later, rfl, before, after⟩ := selects.candidate commit is_commit
      refine ⟨reads_eq, earlier, later ++ [tree], by simp, before, fun is_join other member => ?_⟩
      rcases List.mem_append.mp member with old | new
      · exact after is_join other old
      · rintro - same
        rw [List.mem_singleton.mp new] at same
        exact not_instead same ((Option.any_eq_true _ _).mpr ⟨commit, is_commit, by simp [is_join]⟩)

theorem Selects.foldl (selects : Selects seen search) {later : List QueryTree}
    (candidates : ∀ tree ∈ later, 0 < tree.reads) :
    Selects (seen ++ later) (later.foldl CommitSearch.consider search) := by
  induction later generalizing seen search with
  | nil => simpa using selects
  | cons tree later induction =>
      have next := selects.consider (candidates tree List.mem_cons_self)
      simpa using induction next fun other member =>
        candidates other (List.mem_cons_of_mem _ member)

/-- The search of a tree has looked at all candidates of the tree. -/
theorem selects_visit (tree : QueryTree) :
    Selects (tree.postOrder.filter QueryTree.isCandidate) (visit {} tree) := by
  rw [visit_eq_foldl]
  exact selects_nil.foldl fun operator member =>
    QueryTree.reads_of_isCandidate (List.mem_filter.mp member).2

end CommitSearch

namespace QueryTree

variable {tree commit other : QueryTree}

/-- Two candidates of a tree of which none gets input from the other meet in a third one that
encloses the reads of both. -/
theorem comparable_or_candidate (first_mem : commit ∈ tree.postOrder)
    (second_mem : other ∈ tree.postOrder) (first_reads : 0 < commit.reads)
    (second_reads : 0 < other.reads) :
    commit ∈ other.postOrder ∨ other ∈ commit.postOrder ∨
      ∃ meeting ∈ tree.postOrder, meeting.isCandidate = true ∧
        commit.reads + other.reads ≤ meeting.reads := by
  refine (comparable_or_join first_mem second_mem).imp_right fun rest => rest.imp_right ?_
  rintro ⟨header, logic, left, right, meets, ⟨in_left, in_right⟩ | ⟨in_right, in_left⟩⟩
  · have left_le := reads_le_of_mem_postOrder in_left
    have right_le := reads_le_of_mem_postOrder in_right
    refine ⟨_, meets, ?_, Nat.add_le_add left_le right_le⟩
    simp only [isCandidate, Bool.and_eq_true, decide_eq_true_eq]
    omega
  · have left_le := reads_le_of_mem_postOrder in_left
    have right_le := reads_le_of_mem_postOrder in_right
    refine ⟨_, meets, ?_, by rw [reads]; omega⟩
    simp only [isCandidate, Bool.and_eq_true, decide_eq_true_eq]
    omega

/-- Operators that enclose as many reads as any candidate lie one behind the other. -/
theorem comparable_of_reads_eq (most : ∀ operator ∈ tree.postOrder, operator.isCandidate = true →
      operator.reads ≤ commit.reads) (commit_mem : commit ∈ tree.postOrder)
    (other_mem : other ∈ tree.postOrder) (commit_reads : 0 < commit.reads)
    (reads_eq : other.reads = commit.reads) :
    commit ∈ other.postOrder ∨ other ∈ commit.postOrder := by
  rcases comparable_or_candidate commit_mem other_mem commit_reads (by omega) with
    below | above | ⟨meeting, meeting_mem, candidate, more⟩
  · exact .inl below
  · exact .inr above
  · have := most meeting meeting_mem candidate
    omega

/-- What the search ends with is preferred. -/
theorem isPreferred_of_commitOperator? (found : tree.commitOperator? = some commit) :
    tree.IsPreferred commit := by
  have selects := CommitSearch.selects_visit tree
  obtain ⟨best_eq, earlier, later, split, before, _⟩ := selects.candidate commit found
  rw [← best_eq] at before
  have member : commit ∈ tree.postOrder.filter QueryTree.isCandidate := by simp [split]
  obtain ⟨commit_mem, candidate⟩ := List.mem_filter.mp member
  have most (other : QueryTree) (other_mem : other ∈ tree.postOrder)
      (is_candidate : other.isCandidate = true) : other.reads ≤ commit.reads := by
    rw [best_eq]
    exact selects.reads_le other (List.mem_filter.mpr ⟨other_mem, is_candidate⟩)
  have commit_reads := reads_of_isCandidate candidate
  have not_aggregation {other : QueryTree} (joins : commit.isAggregation = false)
      (other_mem : other ∈ tree.postOrder) (reads_eq : other.reads = commit.reads) :
      other.isAggregation = false := by
    by_contra aggregates
    have is_candidate := isCandidate_of_isAggregation (by simpa using aggregates)
      (commit_reads.trans_eq reads_eq.symm)
    exact aggregates (selects.not_aggregation found joins
      (List.mem_filter.mpr ⟨other_mem, is_candidate⟩) (reads_eq.trans best_eq))
  refine ⟨commit_mem, candidate, most, ?_, fun none_aggregates => ?_⟩
  · rintro ⟨some_aggregation, some_mem, some_aggregates, some_reads⟩
    refine ⟨?_, fun other other_mem aggregates reads_eq => ?_⟩
    · by_contra joins
      have := not_aggregation (by simpa using joins) some_mem some_reads
      exact absurd (some_aggregates.symm.trans this) (by decide)
    · rcases comparable_of_reads_eq most commit_mem other_mem commit_reads reads_eq with
        below | above
      · exact below
      · by_cases same : other = commit
        · exact same ▸ self_mem_postOrder _
        · exact absurd reads_eq (before other (mem_earlier_of_filter_eq split above same
            (isCandidate_of_isAggregation aggregates (by omega))) aggregates)
  · have joins : commit.isAggregation = false := by
      by_contra aggregates
      exact none_aggregates ⟨commit, commit_mem, by simpa using aggregates, rfl⟩
    refine ⟨joins, fun other other_mem other_candidate reads_eq => ?_⟩
    by_contra different
    rcases comparable_of_reads_eq most commit_mem other_mem commit_reads reads_eq with
      below | above
    · have more := reads_lt_of_join other_candidate (not_aggregation joins other_mem reads_eq)
        below (Ne.symm different)
      omega
    · have more := reads_lt_of_join candidate joins above different
      omega

/-- Only one operator of a tree is preferred. -/
theorem IsPreferred.unique_of_isPreferred (preferred : tree.IsPreferred commit)
    (also : tree.IsPreferred other) : other = commit := by
  have reads_eq : other.reads = commit.reads := le_antisymm
    (preferred.reads_le other also.mem_postOrder also.isCandidate)
    (also.reads_le commit preferred.mem_postOrder preferred.isCandidate)
  by_cases some_aggregates : ∃ operator ∈ tree.postOrder,
      operator.isAggregation = true ∧ operator.reads = commit.reads
  · obtain ⟨aggregates, nearest⟩ := preferred.nearest some_aggregates
    obtain ⟨also_aggregates, also_nearest⟩ := also.nearest (by rwa [reads_eq])
    exact postOrder_antisymm (also_nearest commit preferred.mem_postOrder aggregates reads_eq.symm)
      (nearest other also.mem_postOrder also_aggregates reads_eq)
  · exact (preferred.unique some_aggregates).2 other also.mem_postOrder also.isCandidate reads_eq

/-- Transactions end nowhere if the tree has no candidate, and at the preferred one otherwise. -/
theorem commitOperator?_eq_preferred (tree : QueryTree) :
    (tree.commitOperator? = none ↔ ∀ operator ∈ tree.postOrder, operator.isCandidate = false) ∧
      ∀ commit, tree.commitOperator? = some commit ↔ tree.IsPreferred commit := by
  have selects := CommitSearch.selects_visit tree
  have none_iff : tree.commitOperator? = none ↔
      ∀ operator ∈ tree.postOrder, operator.isCandidate = false := by
    have nothing_iff := List.filter_eq_nil_iff (p := QueryTree.isCandidate) (l := tree.postOrder)
    simp only [Bool.not_eq_true] at nothing_iff
    rw [← nothing_iff]
    refine ⟨fun nothing => (selects.start nothing).1, fun nothing => ?_⟩
    by_contra found
    obtain ⟨commit, is_commit⟩ := Option.ne_none_iff_exists'.mp found
    obtain ⟨_, earlier, later, split, _⟩ := selects.candidate commit is_commit
    simp [nothing] at split
  refine ⟨none_iff, fun commit => ⟨isPreferred_of_commitOperator?, fun preferred => ?_⟩⟩
  cases found : tree.commitOperator? with
  | none =>
      have := none_iff.mp found commit preferred.mem_postOrder
      exact absurd (preferred.isCandidate.symm.trans this) (by decide)
  | some other =>
      rw [(isPreferred_of_commitOperator? found).unique_of_isPreferred preferred]

end QueryTree

end StreamQuery
