import Mathlib.Data.List.Forall2
import StreamQuery.Operator.Error

/-!
# Outcomes

When a computation that may fail succeeds, so do all its parts; when it fails, one of them does.
-/

namespace StreamQuery

variable {ε α β : Type}

theorem bind_eq_ok {first : Except ε α} {next : α → Except ε β} {result : β} :
    first >>= next = .ok result ↔ ∃ value, first = .ok value ∧ next value = .ok result := by
  cases first <;> simp [bind, Except.bind]

theorem bind_eq_error {first : Except ε α} {next : α → Except ε β} {error : ε} :
    first >>= next = .error error ↔
      first = .error error ∨ ∃ value, first = .ok value ∧ next value = .error error := by
  cases first <;> simp [bind, Except.bind]

theorem pure_eq_ok {value result : α} :
    (pure value : Except ε α) = .ok result ↔ value = result := by
  simp [pure, Except.pure]

theorem map_eq_ok {first : Except ε α} {change : α → β} {result : β} :
    first.map change = .ok result ↔ ∃ value, first = .ok value ∧ change value = result := by
  cases first <;> simp [Except.map]

theorem map_eq_error {first : Except ε α} {change : α → β} {error : ε} :
    first.map change = .error error ↔ first = .error error := by
  cases first <;> simp [Except.map]

instance decidableEqOk [DecidableEq α] (outcome : Except ε α) (value : α) :
    Decidable (outcome = .ok value) :=
  match outcome with
  | .ok found => decidable_of_iff (found = value) (by simp)
  | .error _ => isFalse (by simp)

/-- If each member has an outcome, so has the list. -/
theorem exists_mapM_eq_ok {compute : α → Except ε β} {related : α → β → Prop}
    {members : List α}
    (each : ∀ member ∈ members, ∃ result, compute member = .ok result ∧ related member result) :
    ∃ results, members.mapM compute = .ok results ∧ List.Forall₂ related members results := by
  induction members with
  | nil => exact ⟨[], rfl, .nil⟩
  | cons member members induction =>
      obtain ⟨result, computed, holds⟩ := each member List.mem_cons_self
      obtain ⟨results, later_computed, later_hold⟩ :=
        induction fun later is_later => each later (List.mem_cons_of_mem _ is_later)
      refine ⟨result :: results, ?_, .cons holds later_hold⟩
      rw [List.mapM_cons, computed, later_computed]
      rfl

end StreamQuery
