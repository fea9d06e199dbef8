import Mathlib.Data.List.Forall2
import StreamQuery.Schema

/-!
# Values that fit a schema

Values make a tuple of a schema if they are as many as its attributes and have their types; tuples
of two schemas, one after the other, make a tuple of the two together.
-/

namespace StreamQuery

namespace Schema

theorem firstMismatch?_eq_none_iff {attributes : List Attribute} {values : List Value}
    (length_eq : values.length = attributes.length) :
    firstMismatch? attributes values = none ↔
      values.map Value.type = attributes.map Attribute.type := by
  induction attributes generalizing values with
  | nil => simp [firstMismatch?, List.length_eq_zero_iff.mp length_eq]
  | cons first attributes induction =>
      cases values with
      | nil => cases length_eq
      | cons value values =>
          rw [firstMismatch?, List.map_cons, List.map_cons, List.cons.injEq]
          by_cases same : first.type = value.type
          · rw [if_pos same, induction (Nat.succ.inj length_eq), and_iff_right same.symm]
          · simp [same, Ne.symm same]

/-- Values make a tuple of a schema if and only if they have the types of its attributes. -/
theorem check_eq_ok_iff {schema : Schema} {values : List Value} :
    schema.check values = .ok () ↔
      values.map Value.type = schema.attributes.map Attribute.type := by
  rw [check]
  split
  · rename_i different
    refine ⟨fun failed => (nomatch failed), fun same => absurd ?_ different⟩
    simpa [length] using congrArg List.length same
  · rename_i same_length
    rw [← firstMismatch?_eq_none_iff (Decidable.not_not.mp same_length)]
    split <;> simp_all

@[simp] theorem append_attributes (left right : Schema) :
    (left ++ right).attributes = left.attributes ++ right.attributes :=
  rfl

theorem check_append {left right : Schema} {left_values right_values : List Value}
    (left_fits : left.check left_values = .ok ()) (right_fits : right.check right_values = .ok ()) :
    (left ++ right).check (left_values ++ right_values) = .ok () := by
  rw [check_eq_ok_iff] at *
  simp [left_fits, right_fits]

/-- The types of a projection are those found at its positions. -/
theorem types_project {schema : Schema} {indices : List Nat} {values : List Value}
    (found : List.Forall₂ (fun index value =>
      (schema.attribute? index).map Attribute.type = some value.type) indices values) :
    values.map Value.type = (schema.project indices).attributes.map Attribute.type := by
  induction found with
  | nil => rfl
  | cons type_eq _ induction =>
      obtain ⟨column, column_eq, column_type⟩ := Option.map_eq_some_iff.mp type_eq
      simp only [project] at induction ⊢
      rw [List.filterMap_cons_some column_eq, List.map_cons, List.map_cons, induction, column_type]

theorem lt_length_of_indexOf? {schema : Schema} {name : String} {index : Nat}
    (found : schema.indexOf? name = some index) : index < schema.length := by
  rw [indexOf?] at found
  exact (List.findIdx?_eq_some_iff_findIdx_eq.mp found).1

/-- Values that fit a schema are as many as its attributes and have their types. -/
theorem check_eq_ok {schema : Schema} {values : List Value}
    (fits : schema.check values = .ok ()) :
    values.length = schema.length ∧
      ∀ index column, schema.attribute? index = some column →
        ∃ value, values[index]? = some value ∧ value.type = column.type := by
  have types_eq := check_eq_ok_iff.mp fits
  refine ⟨by simpa [length] using congrArg List.length types_eq, fun index column declared => ?_⟩
  have type_eq := congrArg (·[index]?) types_eq
  rw [attribute?] at declared
  simpa [declared] using type_eq

/-- Values that fit two schemas fit the two together. -/
theorem exists_value_of_append {left right : Schema} {left_values right_values : List Value}
    (left_fits : left.check left_values = .ok ()) (right_fits : right.check right_values = .ok ())
    {index : Nat} {column : Attribute}
    (declared : (left ++ right).attribute? index = some column) :
    ∃ value, (left_values ++ right_values)[index]? = some value ∧
      value.type = column.type :=
  (check_eq_ok (check_append left_fits right_fits)).2 index column declared

end Schema

end StreamQuery
