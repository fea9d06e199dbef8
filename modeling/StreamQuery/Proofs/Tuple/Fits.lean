import StreamQuery.Condition
import StreamQuery.Proofs.Outcome
import StreamQuery.Proofs.Schema

/-!
# Tuples that fit a schema

A tuple fits a schema if its values have the types of the attributes. Every name that a schema knows
can then be looked up, so that a condition whose names are all known fails only where it compares
two values of different types.
-/

namespace StreamQuery

namespace Tuple

/-- A tuple of the values of a schema. -/
structure Fits (tuple : Tuple) (schema : Schema) : Prop where
  /-- Names are looked up in the schema. -/
  schema_eq : tuple.schema = schema
  /-- There is a value of the right type for every attribute. -/
  check : schema.check tuple.values = .ok ()

/-- A tuple on a channel of a schema: either it ends the stream, or it has values that fit. -/
def Conforms (tuple : Tuple) (schema : Schema) : Prop :=
  tuple.isEndOfStream = false → tuple.Fits schema

namespace Fits

variable {tuple : Tuple} {schema : Schema}

theorem of_eq (fits : tuple.Fits schema) {other : Schema} (same : other = schema) :
    tuple.Fits other :=
  same ▸ fits

theorem length_eq (fits : tuple.Fits schema) : tuple.values.length = schema.length := by
  simpa [Schema.length] using congrArg List.length (Schema.check_eq_ok_iff.mp fits.check)

theorem exists_value (fits : tuple.Fits schema) {index : Nat} (known : index < schema.length) :
    ∃ value, tuple.value? index = some value ∧
      (schema.attribute? index).map Attribute.type = some value.type := by
  have in_range : index < tuple.values.length := fits.length_eq ▸ known
  refine ⟨tuple.values[index], List.getElem?_eq_getElem in_range, ?_⟩
  have types_eq := congrArg (·[index]?) (Schema.check_eq_ok_iff.mp fits.check)
  simpa [Schema.attribute?, List.getElem?_eq_getElem in_range] using types_eq.symm

/-- A name that the schema knows has a value. -/
theorem isSome_get? (fits : tuple.Fits schema) {name : String}
    (known : (schema.indexOf? name).isSome = true) : (tuple.get? name).isSome = true := by
  obtain ⟨index, found⟩ := Option.isSome_iff_exists.mp known
  obtain ⟨value, value_eq, _⟩ := fits.exists_value (Schema.lt_length_of_indexOf? found)
  simp [get?, fits.schema_eq, found, value_eq]

end Fits

end Tuple

/-! ## Conditions -/

/-- Two values of different types were compared. -/
def OperatorError.IsComparison (error : OperatorError) : Prop :=
  ∃ left right, left ≠ right ∧ error = .operation (.typeMismatch .compare left right)

/-- Everything that is found in one scope is found in another. -/
structure Scope.Covers {α β : Type} (scope : Scope α) (other : Scope β) : Prop where
  operand : ∀ name, (other.operand name).isSome = true → (scope.operand name).isSome = true
  left : ∀ name, (other.left name).isSome = true → (scope.left name).isSome = true
  right : ∀ name, (other.right name).isSome = true → (scope.right name).isSome = true

theorem Scope.covers_single {tuple : Tuple} {schema : Schema} (fits : tuple.Fits schema) :
    (Scope.single tuple.get?).Covers (Scope.single schema.indexOf?) where
  operand _ := fits.isSome_get?
  left _ := fits.isSome_get?
  right _ := fits.isSome_get?

theorem Scope.covers_pair {left right : Tuple} {left_schema right_schema : Schema}
    (left_fits : left.Fits left_schema) (right_fits : right.Fits right_schema) :
    (Scope.pair left.get? right.get?).Covers
      (Scope.pair left_schema.indexOf? right_schema.indexOf?) where
  operand name known := by
    simp only [Scope.pair, Option.isSome_or, Bool.or_eq_true] at known ⊢
    exact known.imp left_fits.isSome_get? right_fits.isSome_get?
  left _ := left_fits.isSome_get?
  right _ := right_fits.isSome_get?

namespace Condition

theorem isSome_of_missing?_eq_none {α : Type} {find : String → Option α} {name : String}
    (found : missing? find name = none) : (find name).isSome = true := by
  rw [missing?] at found
  split at found
  · assumption
  · cases found

theorem resolve_of_isSome {find : String → Option Value} {name : String}
    (known : (find name).isSome = true) : ∃ value, resolve find name = .ok value := by
  obtain ⟨value, found⟩ := Option.isSome_iff_exists.mp known
  exact ⟨value, by rw [resolve, found]⟩

theorem compareValues_error {comparator : Comparator} {left right : Value} {error : OperatorError}
    (failed : compareValues comparator left right = .error error) : error.IsComparison := by
  cases left <;> cases right <;> cases failed <;> exact ⟨_, _, ValueType.noConfusion, rfl⟩

/-- A condition whose names are all known fails only where it compares values of different types.
-/
theorem holds_error {α : Type} {places : Scope α} {scope : Scope Value}
    (covers : scope.Covers places) {condition : Condition}
    (resolved : condition.unresolved? places = none) {error : OperatorError}
    (failed : condition.holds scope = .error error) : error.IsComparison := by
  induction condition generalizing error with
  | always => cases failed
  | constant name comparator value =>
      obtain ⟨operand, operand_eq⟩ :=
        resolve_of_isSome (covers.operand name (isSome_of_missing?_eq_none resolved))
      rw [holds, operand_eq] at failed
      exact compareValues_error failed
  | attributes left comparator right =>
      obtain ⟨left_known, right_known⟩ := Option.or_eq_none_iff.mp resolved
      obtain ⟨leftValue, left_eq⟩ :=
        resolve_of_isSome (covers.left left (isSome_of_missing?_eq_none left_known))
      obtain ⟨rightValue, right_eq⟩ :=
        resolve_of_isSome (covers.right right (isSome_of_missing?_eq_none right_known))
      rw [holds, left_eq, right_eq] at failed
      exact compareValues_error failed
  | and first second first_induction second_induction =>
      obtain ⟨first_resolved, second_resolved⟩ := Option.or_eq_none_iff.mp resolved
      rw [holds] at failed
      rcases bind_eq_error.mp failed with first_failed | ⟨satisfied, -, failed⟩
      · exact first_induction first_resolved first_failed
      · cases satisfied with
        | true => exact second_induction second_resolved failed
        | false => cases failed
  | or first second first_induction second_induction =>
      obtain ⟨first_resolved, second_resolved⟩ := Option.or_eq_none_iff.mp resolved
      rw [holds] at failed
      rcases bind_eq_error.mp failed with first_failed | ⟨satisfied, -, failed⟩
      · exact first_induction first_resolved first_failed
      · cases satisfied with
        | true => cases failed
        | false => exact second_induction second_resolved failed

/-- On a tuple that fits the schema in which its names were looked up, a condition fails only by a
comparison. -/
theorem check_error {condition : Condition} {schema : Schema} {tuple : Tuple}
    (resolved : condition.unresolvedIn? schema = none) (fits : tuple.Fits schema)
    {error : OperatorError} (failed : condition.check tuple = .error error) :
    error.IsComparison :=
  holds_error (Scope.covers_single fits) resolved failed

theorem checkPair_error {condition : Condition} {left_schema right_schema : Schema}
    {left right : Tuple} (resolved : condition.unresolvedInPair? left_schema right_schema = none)
    (left_fits : left.Fits left_schema) (right_fits : right.Fits right_schema)
    {error : OperatorError} (failed : condition.checkPair left right = .error error) :
    error.IsComparison :=
  holds_error (Scope.covers_pair left_fits right_fits) resolved failed

end Condition

end StreamQuery
