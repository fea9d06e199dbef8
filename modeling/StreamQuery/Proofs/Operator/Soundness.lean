import StreamQuery.Proofs.Operator.Totality
import StreamQuery.Proofs.Plan.Typing
import StreamQuery.Proofs.Tuple.Fits

/-!
# Operators on tuples that fit

An operator that has found all its attributes computes, from tuples that fit the schemas of its
inputs, tuples that fit its own schema, and fails only where a condition compares values of
different types.
-/

namespace StreamQuery

/-! ## What is computed from tuples -/

section

variable {input_schema row_schema schema : Schema} {tuple row : Tuple}

theorem selectTuple_error {condition : Condition}
    (resolved : condition.unresolvedIn? input_schema = none) (fits : tuple.Fits input_schema)
    {error : OperatorError} (failed : selectTuple condition tuple = .error error) :
    error.IsComparison := by
  rw [selectTuple] at failed
  exact condition.check_error resolved fits (map_eq_error.mp failed)

/-- A tuple of a schema has a value at each of its positions. -/
theorem exists_projected (fits : tuple.Fits input_schema) {index : Nat}
    (known : index < input_schema.length) :
    ∃ value : Value,
      (match tuple.value? index with
        | some value => Except.ok value
        | none => .error (OperatorError.unknownPosition index)) = .ok value ∧
      (input_schema.attribute? index).map Attribute.type = some value.type := by
  obtain ⟨value, value_eq, type_eq⟩ := fits.exists_value known
  exact ⟨value, by rw [value_eq], type_eq⟩

/-- A projection finds all its values, which have the types that the schema tells. -/
theorem projectTuple_of_fits (fits : tuple.Fits input_schema) {indices : List Nat}
    (known : ∀ index ∈ indices, index < input_schema.length)
    (schema_eq : schema = input_schema.project indices) :
    ∃ result, projectTuple indices schema tuple = .ok result ∧ result.Fits schema := by
  obtain ⟨values, found, typed⟩ := exists_mapM_eq_ok fun index member =>
    exists_projected fits (known index member)
  refine ⟨{ tuple with kind := .data, schema, values }, ?_, rfl, ?_⟩
  · exact bind_eq_ok.mpr ⟨values, found, rfl⟩
  · rw [schema_eq, Schema.check_eq_ok_iff]
    exact Schema.types_project typed

theorem matchTuple_fits (schema_eq : schema = input_schema ++ row_schema)
    (fits : tuple.Fits input_schema) (row_fits : row.Fits row_schema) (relation : RelationId)
    (version position : Nat) :
    (matchTuple schema relation version tuple row position).Fits schema :=
  ⟨rfl, schema_eq ▸ Schema.check_append fits.check row_fits.check⟩

theorem matchRows_error {condition : Condition}
    (resolved : condition.unresolvedInPair? input_schema row_schema = none)
    (fits : tuple.Fits input_schema) {relation : RelationId} {version : Nat}
    {rows : List (Tuple × Nat)} (rows_fit : ∀ entry ∈ rows, entry.1.Fits row_schema)
    {error : OperatorError}
    (failed : matchRows condition schema relation version tuple rows = .error error) :
    error.IsComparison := by
  induction rows with
  | nil => cases failed
  | cons entry rows induction =>
      obtain ⟨row, position⟩ := entry
      rw [matchRows] at failed
      rcases bind_eq_error.mp failed with unmatched | ⟨satisfied, -, failed⟩
      · exact condition.checkPair_error resolved fits (rows_fit _ List.mem_cons_self) unmatched
      · rcases bind_eq_error.mp failed with later_failed | ⟨results, -, failed⟩
        · exact induction (fun entry member => rows_fit entry (List.mem_cons_of_mem _ member))
            later_failed
        · cases failed

theorem WindowJoin.pair_fits (schema_eq : schema = input_schema ++ row_schema)
    {left right : Tuple} (left_fits : left.Fits input_schema) (right_fits : right.Fits row_schema)
    (lowWater : Int) : (pair schema lowWater left right).Fits schema :=
  ⟨rfl, schema_eq ▸ Schema.check_append left_fits.check right_fits.check⟩

theorem WindowJoin.select_error {condition : Condition}
    (resolved : condition.unresolvedInPair? input_schema row_schema = none) {lowWater : Int}
    {pairs : List (Tuple × Tuple)}
    (fit : ∀ entry ∈ pairs, entry.1.Fits input_schema ∧ entry.2.Fits row_schema)
    {error : OperatorError} (failed : select condition schema lowWater pairs = .error error) :
    error.IsComparison := by
  induction pairs with
  | nil => cases failed
  | cons entry pairs induction =>
      obtain ⟨left, right⟩ := entry
      rw [select] at failed
      rcases bind_eq_error.mp failed with unmatched | ⟨satisfied, -, failed⟩
      · obtain ⟨left_fits, right_fits⟩ := fit _ List.mem_cons_self
        exact condition.checkPair_error resolved left_fits right_fits unmatched
      · rcases bind_eq_error.mp failed with later_failed | ⟨results, -, failed⟩
        · exact induction (fun entry member => fit entry (List.mem_cons_of_mem _ member))
            later_failed
        · cases failed

end

/-! ## What is computed from windows -/

namespace AggregateFunction

variable {input : QueryTree} {header : OperatorHeader} {window : Window}
  {relations : List RelationDeclaration} {contents : Contents}

/-- The result of a window with tuples that fit is there and fits. -/
theorem apply_of_fits {function : AggregateFunction}
    (resolved : (QueryTree.single header (.aggregate window function) input).IsResolved relations)
    (fit : ∀ tuple ∈ contents.tuples, tuple.Fits input.schema) (filled : contents.tuples ≠ []) :
    ∃ result, function.apply header.schema contents = .ok result ∧ result.Fits header.schema := by
  have fits_of_values {values : List Value} (computed : function.compute contents = .ok values)
      (typed : values.map Value.type = header.schema.attributes.map Attribute.type) :
      ∃ result, function.apply header.schema contents = .ok result ∧
        result.Fits header.schema := by
    refine ⟨_, by rw [apply, computed]; rfl, rfl, Schema.check_eq_ok_iff.mpr typed⟩
  cases function with
  | mean index =>
      obtain ⟨⟨column, column_eq, is_numeric⟩, float_eq⟩ := resolved
      have numeric (tuple : Tuple) (member : tuple ∈ contents.tuples) : tuple.HasNumber index := by
        have known : index < input.schema.length := (List.getElem?_eq_some_iff.mp column_eq).1
        obtain ⟨value, found, type_eq⟩ := (fit tuple member).exists_value known
        rw [column_eq] at type_eq
        exact ⟨value, found, Option.some.inj type_eq ▸ is_numeric⟩
      obtain ⟨quotient, computed⟩ := exists_compute_mean numeric
      exact fits_of_values computed float_eq.symm
  | election =>
      refine fits_of_values (compute_election filled) ?_
      rw [show header.schema = input.schema from resolved]
      exact Schema.check_eq_ok_iff.mp (fit _ (List.getLast_mem filled)).check

end AggregateFunction

/-- If every window has a result, nothing fails. -/
theorem Evaluation.ne_failed_of_forall {compute : Contents → Except OperatorError Tuple}
    {windows : List Contents} (checksConsistency : Bool)
    (succeeds : ∀ window ∈ windows, ∃ result, compute window = .ok result) (error : OperatorError) :
    (ofWindows compute checksConsistency windows).interruption? ≠ some (.failed error) := by
  induction windows with
  | nil => simp [ofWindows]
  | cons window windows induction =>
      obtain ⟨result, computed⟩ := succeeds window List.mem_cons_self
      rw [ofWindows]
      split
      · simp
      · rw [computed]
        exact induction fun later member => succeeds later (List.mem_cons_of_mem _ member)

theorem Aggregation.stepOf_ne_error {role : CommitRole} {evaluation : Evaluation}
    (unfailed : ∀ error, evaluation.interruption? ≠ some (.failed error)) (error : OperatorError) :
    stepOf role evaluation ≠ .error error := by
  rw [stepOf]
  split
  · exact absurd ‹_› (unfailed _)
  · simp
  · split <;> simp

end StreamQuery
