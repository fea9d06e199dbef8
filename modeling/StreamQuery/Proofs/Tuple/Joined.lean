import StreamQuery.Proofs.Tuple.Fits

/-!
# Joined tuples

A joined tuple has the attributes and the values of one tuple and then those of another. A name
stands for the first attribute that bears it, so it is found in the second tuple only if the first
one lacks it. A condition on pairs looks its right-hand names up in the second tuple; as long as the
first one has none of them, the condition can as well be asked about the joined tuple.
-/

namespace StreamQuery

/-- A name is found in the second schema only if the first one lacks it. -/
theorem Schema.indexOf?_append (left right : Schema) (name : String) :
    (left ++ right).indexOf? name =
      (left.indexOf? name).or ((right.indexOf? name).map (· + left.length)) :=
  List.findIdx?_append

/-- A tuple of the attributes and the values of two tuples. -/
structure Tuple.Concatenates (joined left right : Tuple) : Prop where
  /-- The attributes of both, one after the other. -/
  schema_eq : joined.schema = left.schema ++ right.schema
  /-- The values of both, one after the other. -/
  values_eq : joined.values = left.values ++ right.values

namespace Tuple.Concatenates

variable {joined left right : Tuple} {left_schema : Schema} {name : String}

/-- A value of the second tuple is found only if the first one lacks the name. -/
theorem get?_eq (joins : joined.Concatenates left right) (fits : left.Fits left_schema)
    (name : String) :
    joined.get? name = (left.get? name).or (right.get? name) := by
  have length_eq : left.values.length = left.schema.length := fits.schema_eq ▸ fits.length_eq
  rw [get?, joins.schema_eq, Schema.indexOf?_append]
  cases found : left.schema.indexOf? name with
  | some index =>
      have in_range : index < left.values.length :=
        length_eq ▸ Schema.lt_length_of_indexOf? found
      simp [get?, value?, found, joins.values_eq, List.getElem?_append_left in_range, in_range]
  | none =>
      cases found_right : right.schema.indexOf? name with
      | none => simp [get?, found, found_right]
      | some index =>
          have second : (left.values ++ right.values)[index + left.values.length]? =
              right.values[index]? := by
            rw [List.getElem?_append_right (Nat.le_add_left _ _), Nat.add_sub_cancel]
          simp [get?, value?, found, found_right, joins.values_eq, ← length_eq, second]

end Tuple.Concatenates

namespace Condition

/-- The names that comparisons of two attributes look up on the right. -/
def rightNames : Condition → List String
  | always => []
  | constant _ _ _ => []
  | attributes _ _ right => [right]
  | and first second => first.rightNames ++ second.rightNames
  | or first second => first.rightNames ++ second.rightNames

variable {condition : Condition} {left right joined : Tuple} {left_schema right_schema : Schema}

/-- A condition on a pair is one on the joined tuple, result or error alike, if all its names are
known and the first tuple has none of those that are looked up in the second one. -/
theorem checkPair_eq_check (resolved : condition.unresolvedInPair? left_schema right_schema = none)
    (apart : ∀ name ∈ condition.rightNames, left_schema.indexOf? name = none)
    (fits : left.Fits left_schema) (joins : joined.Concatenates left right) :
    condition.checkPair left right = condition.check joined := by
  have found_left {name : String} (known : (left_schema.indexOf? name).isSome = true) :
      joined.get? name = left.get? name := by
    obtain ⟨value, value_eq⟩ := Option.isSome_iff_exists.mp (fits.isSome_get? known)
    rw [joins.get?_eq fits, value_eq, Option.some_or]
  have found_right {name : String} (unknown : left_schema.indexOf? name = none) :
      joined.get? name = right.get? name := by
    have missing : left.get? name = none := by rw [Tuple.get?, fits.schema_eq, unknown]; rfl
    rw [joins.get?_eq fits, missing, Option.none_or]
  rw [checkPair, check]
  induction condition with
  | always => rfl
  | constant name comparator value =>
      simp only [holds, Scope.pair, Scope.single, resolve, joins.get?_eq fits]
  | attributes left_name comparator right_name =>
      obtain ⟨left_known, _⟩ := Option.or_eq_none_iff.mp resolved
      have unknown := apart right_name List.mem_cons_self
      simp only [holds, Scope.pair, Scope.single, resolve, found_right unknown,
        found_left (isSome_of_missing?_eq_none left_known)]
  | and first second first_induction second_induction =>
      obtain ⟨first_resolved, second_resolved⟩ := Option.or_eq_none_iff.mp resolved
      rw [holds, holds,
        first_induction first_resolved fun name member =>
          apart name (List.mem_append_left _ member),
        second_induction second_resolved fun name member =>
          apart name (List.mem_append_right _ member)]
  | or first second first_induction second_induction =>
      obtain ⟨first_resolved, second_resolved⟩ := Option.or_eq_none_iff.mp resolved
      rw [holds, holds,
        first_induction first_resolved fun name member =>
          apart name (List.mem_append_left _ member),
        second_induction second_resolved fun name member =>
          apart name (List.mem_append_right _ member)]

end Condition

end StreamQuery
