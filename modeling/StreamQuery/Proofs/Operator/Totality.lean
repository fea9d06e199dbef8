import StreamQuery.Proofs.Operator.Yields
import StreamQuery.Proofs.Tuple.Stamps

/-!
# Operators that succeed

A tuple that exactly one row of a relation matches has exactly one result, and windows have results:
the mean of numbers exists, and so does the newest tuple of a window with tuples.
-/

namespace StreamQuery

/-! ## Matches -/

/-- The condition holds of a tuple with exactly one row, and it can be evaluated with all others. -/
def Condition.MatchesOnce (condition : Condition) (tuple : Tuple) (rows : List Tuple) : Prop :=
  ∃ before row after, rows = before ++ row :: after ∧ condition.checkPair tuple row = .ok true ∧
    ∀ other ∈ before ++ after, condition.checkPair tuple other = .ok false

namespace Condition

variable {condition : Condition} {tuple row : Tuple} {rows : List Tuple}

theorem not_matchesOnce_nil : ¬condition.MatchesOnce tuple [] := by
  rintro ⟨before, row, after, rows_eq, _⟩
  simp at rows_eq

theorem matchesOnce_cons :
    condition.MatchesOnce tuple (row :: rows) ↔
      (condition.checkPair tuple row = .ok true ∧
        ∀ other ∈ rows, condition.checkPair tuple other = .ok false) ∨
      (condition.checkPair tuple row = .ok false ∧ condition.MatchesOnce tuple rows) := by
  constructor
  · rintro ⟨_ | ⟨first, before⟩, found, after, rows_eq, matched, others⟩
    · obtain ⟨rfl, rfl⟩ := List.cons.inj rows_eq
      exact .inl ⟨matched, others⟩
    · obtain ⟨rfl, rfl⟩ := List.cons.inj rows_eq
      exact .inr ⟨others row List.mem_cons_self, before, found, after, rfl, matched,
        fun other member => others other (List.mem_cons_of_mem _ member)⟩
  · rintro (⟨matched, others⟩ | ⟨fails, before, found, after, rfl, matched, others⟩)
    · exact ⟨[], row, rows, rfl, matched, others⟩
    · refine ⟨row :: before, found, after, rfl, matched, fun other member => ?_⟩
      rcases List.mem_cons.mp member with rfl | later
      · exact fails
      · exact others other later

instance decidableMatchesOnce (condition : Condition) (tuple : Tuple) :
    DecidablePred (condition.MatchesOnce tuple)
  | [] => isFalse not_matchesOnce_nil
  | _ :: rows =>
    have := decidableMatchesOnce condition tuple rows
    decidable_of_iff' _ matchesOnce_cons

end Condition

section

variable {condition : Condition} {schema : Schema} {relation : RelationId} {version : Nat}
  {tuple row : Tuple} {position : Nat}

theorem matchRows_skip {skipped : List (Tuple × Nat)}
    (fails : ∀ entry ∈ skipped, condition.checkPair tuple entry.1 = .ok false)
    (rows : List (Tuple × Nat)) :
    matchRows condition schema relation version tuple (skipped ++ rows) =
      matchRows condition schema relation version tuple rows := by
  induction skipped with
  | nil => rfl
  | cons entry skipped induction =>
      rw [List.cons_append, matchRows, fails entry List.mem_cons_self]
      rw [induction fun later member => fails later (List.mem_cons_of_mem _ member)]
      simp only [bind, Except.bind, Bool.false_eq_true, if_false]
      cases matchRows condition schema relation version tuple rows <;> rfl

theorem matchRows_of_unique {before after : List (Tuple × Nat)}
    (matched : condition.checkPair tuple row = .ok true)
    (others : ∀ entry ∈ before ++ after, condition.checkPair tuple entry.1 = .ok false) :
    matchRows condition schema relation version tuple (before ++ (row, position) :: after) =
      .ok [matchTuple schema relation version tuple row position] := by
  have none_after : matchRows condition schema relation version tuple after = .ok [] := by
    have skipped : matchRows condition schema relation version tuple (after ++ []) = .ok [] :=
      matchRows_skip (fun entry member => others entry (List.mem_append_right _ member)) []
    rwa [List.append_nil] at skipped
  rw [matchRows_skip fun entry member => others entry (List.mem_append_left _ member)]
  rw [matchRows, matched, none_after]
  rfl

/-- A tuple that one row of a version matches has one result. -/
theorem matchSnapshot_of_matchesOnce {snapshot : Snapshot}
    (once : condition.MatchesOnce tuple snapshot.rows) :
    ∃ result, matchSnapshot condition schema relation snapshot tuple = .ok [result] := by
  obtain ⟨before, row, after, rows_eq, matched, others⟩ := once
  refine ⟨matchTuple schema relation snapshot.version tuple row before.length, ?_⟩
  rw [matchSnapshot, rows_eq, List.zipIdx_append, List.zipIdx_cons]
  refine (matchRows_of_unique matched fun entry member => others entry.1 ?_).trans (by simp)
  rcases List.mem_append.mp member with is_before | is_after
  · exact List.mem_append_left _ (List.fst_mem_of_mem_zipIdx is_before)
  · exact List.mem_append_right _ (List.fst_mem_of_mem_zipIdx is_after)

theorem mem_matchSnapshot {snapshot : Snapshot} {results : List Tuple} {result : Tuple}
    (found : matchSnapshot condition schema relation snapshot tuple = .ok results)
    (member : result ∈ results) :
    ∃ row ∈ snapshot.rows, ∃ position,
      result = matchTuple schema relation snapshot.version tuple row position := by
  obtain ⟨⟨row, position⟩, entry_mem, result_eq⟩ := mem_matchRows found member
  exact ⟨row, List.fst_mem_of_mem_zipIdx entry_mem, position, result_eq⟩

end

/-! ## Means -/

/-- A tuple that has a number at a position. -/
def Tuple.HasNumber (tuple : Tuple) (index : Nat) : Prop :=
  ∃ value, tuple.value? index = some value ∧ value.type.isNumeric = true

namespace AggregateFunction

variable {index : Nat}

theorem addValue_of_hasNumber {tuple : Tuple} (numeric : tuple.HasNumber index) (sum : Float) :
    ∃ total, addValue index (.float sum) tuple = .ok (.float total) := by
  obtain ⟨value, found, is_number⟩ := numeric
  cases value with
  | int value => exact ⟨_, by rw [addValue, found]; rfl⟩
  | float value => exact ⟨_, by rw [addValue, found]; rfl⟩
  | string text => cases is_number

theorem sum_of_hasNumber {tuples : List Tuple} (numeric : ∀ tuple ∈ tuples, tuple.HasNumber index)
    (start : Float) :
    ∃ total, tuples.foldlM (addValue index) (.float start) = .ok (.float total) := by
  induction tuples generalizing start with
  | nil => exact ⟨start, rfl⟩
  | cons tuple tuples induction =>
      obtain ⟨sum, added⟩ := addValue_of_hasNumber (numeric tuple List.mem_cons_self) start
      obtain ⟨total, summed⟩ :=
        induction (fun later member => numeric later (List.mem_cons_of_mem _ member)) sum
      refine ⟨total, ?_⟩
      rw [List.foldlM_cons, added]
      exact summed

/-- The mean of numbers is a single number. -/
theorem exists_compute_mean {contents : Contents}
    (numeric : ∀ tuple ∈ contents.tuples, tuple.HasNumber index) :
    ∃ quotient, (mean index).compute contents = .ok [.float quotient] := by
  obtain ⟨total, summed⟩ := sum_of_hasNumber numeric 0
  refine ⟨total / Float.ofNat contents.tuples.length, ?_⟩
  rw [compute, summed]
  rfl

/-- The mean of numbers exists. -/
theorem exists_mean {contents : Contents}
    (numeric : ∀ tuple ∈ contents.tuples, tuple.HasNumber index) (schema : Schema) :
    ∃ result, (mean index).apply schema contents = .ok result := by
  obtain ⟨quotient, computed⟩ := exists_compute_mean numeric
  rw [apply, computed]
  exact ⟨_, rfl⟩

/-- A window with tuples elects the values of its newest tuple. -/
theorem compute_election {contents : Contents} (filled : contents.tuples ≠ []) :
    election.compute contents = .ok (contents.tuples.getLast filled).values := by
  rw [compute, Contents.newest?, List.getLast?_eq_some_getLast filled]

end AggregateFunction

end StreamQuery
