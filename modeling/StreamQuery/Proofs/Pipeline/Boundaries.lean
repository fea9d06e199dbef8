import Mathlib.Algebra.GroupWithZero.Nat

/-!
# Boundaries between groups

Some elements are numbered group by group. A number is a boundary if it is the number of elements in
the first groups. A number that is not lies between two boundaries.
-/

namespace StreamQuery

/-- A number of elements that fills the first groups, which are given by their sizes. -/
def IsBoundary (sizes : List Nat) (number : Nat) : Prop :=
  ∃ first, (sizes.take first).sum = number

/-- The last boundary that is not after a number. -/
def lastBoundary : List Nat → Nat → Nat
  | [], _ => 0
  | size :: sizes, number =>
    if size ≤ number then size + lastBoundary sizes (number - size) else 0

/-- The first boundary that is not before a number. -/
def nextBoundary : List Nat → Nat → Nat
  | [], _ => 0
  | size :: sizes, number =>
    if number = 0 then 0 else size + nextBoundary sizes (number - size)

/-- If all groups have the same size, its multiples are boundaries. -/
theorem isBoundary_of_dvd {sizes : List Nat} {size number : Nat}
    (equal : ∀ other ∈ sizes, other = size) (divides : size ∣ number)
    (within : number ≤ sizes.sum) : IsBoundary sizes number := by
  obtain ⟨first, rfl⟩ := divides
  have sizes_eq := List.eq_replicate_of_mem equal
  rcases Nat.eq_zero_or_pos size with rfl | positive
  · exact ⟨0, by simp⟩
  · rw [sizes_eq, List.sum_replicate_nat, Nat.mul_comm] at within
    have first_le := Nat.le_of_mul_le_mul_right within positive
    refine ⟨first, ?_⟩
    rw [sizes_eq, List.take_replicate, Nat.min_eq_left first_le, List.sum_replicate_nat,
      Nat.mul_comm]

/-! ## The last boundary -/

theorem lastBoundary_append {front : List Nat} {number : Nat} (reached : front.sum ≤ number)
    (sizes : List Nat) :
    lastBoundary (front ++ sizes) number = front.sum + lastBoundary sizes (number - front.sum) := by
  induction front generalizing number with
  | nil => simp
  | cons size front induction =>
      rw [List.sum_cons] at reached ⊢
      rw [List.cons_append, lastBoundary, if_pos (by omega), induction (by omega), Nat.add_assoc,
        Nat.sub_sub]

/-- The boundary lies before the first group that does not fit. -/
theorem lastBoundary_eq {front sizes : List Nat} {number : Nat} (reached : front.sum ≤ number)
    (passed : ∀ size rest, sizes = size :: rest → number < front.sum + size) :
    lastBoundary (front ++ sizes) number = front.sum := by
  have stops : lastBoundary sizes (number - front.sum) = 0 := by
    cases sizes with
    | nil => rfl
    | cons size rest =>
        have too_many := passed size rest rfl
        rw [lastBoundary, if_neg (by omega)]
  rw [lastBoundary_append reached, stops, Nat.add_zero]

example : lastBoundary [3, 3] 4 = 3 := by decide

theorem lastBoundary_le (sizes : List Nat) (number : Nat) : lastBoundary sizes number ≤ number := by
  induction sizes generalizing number with
  | nil => exact Nat.zero_le _
  | cons size sizes induction =>
      rw [lastBoundary]
      split
      · have shorter := induction (number - size)
        omega
      · exact Nat.zero_le _

theorem IsBoundary.lastBoundary_eq {sizes : List Nat} {number : Nat}
    (boundary : IsBoundary sizes number) : lastBoundary sizes number = number := by
  obtain ⟨first, sum_eq⟩ := boundary
  have nothing_more := lastBoundary_le (sizes.drop first) 0
  have split := lastBoundary_append (Nat.le_of_eq sum_eq) (sizes.drop first)
  rw [List.take_append_drop, sum_eq, Nat.sub_self] at split
  omega

/-! ## The next boundary -/

@[simp] theorem nextBoundary_zero (sizes : List Nat) : nextBoundary sizes 0 = 0 := by
  cases sizes <;> rfl

/-- The next boundary lies behind the group that a number lies in. -/
theorem nextBoundary_eq {front : List Nat} {size number : Nat} (after : front.sum < number)
    (within : number ≤ front.sum + size) (sizes : List Nat) :
    nextBoundary (front ++ size :: sizes) number = front.sum + size := by
  induction front generalizing number with
  | nil =>
      rw [List.sum_nil] at after within ⊢
      have nothing_left : number - size = 0 := by omega
      rw [List.nil_append, nextBoundary, if_neg (Nat.ne_of_gt after), nothing_left,
        nextBoundary_zero, Nat.add_zero, Nat.zero_add]
  | cons first front induction =>
      rw [List.sum_cons] at after within ⊢
      rw [List.cons_append, nextBoundary, if_neg (by omega), induction (by omega) (by omega),
        Nat.add_assoc]

example : nextBoundary [3, 3] 4 = 6 := by decide

theorem le_nextBoundary {sizes : List Nat} {number : Nat} (inside : number ≤ sizes.sum) :
    number ≤ nextBoundary sizes number := by
  induction sizes generalizing number with
  | nil => exact inside
  | cons size sizes induction =>
      rw [List.sum_cons] at inside
      rw [nextBoundary]
      split
      · omega
      · have later := induction (show number - size ≤ sizes.sum by omega)
        omega

theorem nextBoundary_le (sizes : List Nat) (number : Nat) :
    nextBoundary sizes number ≤ sizes.sum := by
  induction sizes generalizing number with
  | nil => exact Nat.le_refl _
  | cons size sizes induction =>
      rw [nextBoundary, List.sum_cons]
      split
      · exact Nat.zero_le _
      · exact Nat.add_le_add_left (induction _) size

@[simp] theorem nextBoundary_nextBoundary (sizes : List Nat) (number : Nat) :
    nextBoundary sizes (nextBoundary sizes number) = nextBoundary sizes number := by
  induction sizes generalizing number with
  | nil => rfl
  | cons size sizes induction =>
      by_cases none : number = 0
      · subst none
        simp
      · have first : nextBoundary (size :: sizes) number =
            size + nextBoundary sizes (number - size) := by
          rw [nextBoundary, if_neg none]
        rw [first, nextBoundary]
        split
        · omega
        · rw [Nat.add_sub_cancel_left, induction]

/-- More groups do not change a boundary that exists without them. -/
theorem nextBoundary_append {sizes : List Nat} {number : Nat} (inside : number ≤ sizes.sum)
    (later : List Nat) : nextBoundary (sizes ++ later) number = nextBoundary sizes number := by
  induction sizes generalizing number with
  | nil =>
      obtain rfl : number = 0 := Nat.le_zero.mp inside
      rw [nextBoundary_zero, nextBoundary_zero]
  | cons size sizes induction =>
      rw [List.sum_cons] at inside
      rw [List.cons_append, nextBoundary, nextBoundary, induction (by omega)]

theorem IsBoundary.nextBoundary_eq {sizes : List Nat} {number : Nat}
    (boundary : IsBoundary sizes number) : nextBoundary sizes number = number := by
  obtain ⟨first, sum_eq⟩ := boundary
  induction sizes generalizing first number with
  | nil =>
      rw [List.take_nil, List.sum_nil] at sum_eq
      rw [← sum_eq]
      rfl
  | cons size sizes induction =>
      cases first with
      | zero =>
          rw [← sum_eq]
          rfl
      | succ first =>
          rw [List.take_succ_cons, List.sum_cons] at sum_eq
          rw [nextBoundary, induction first (by omega)]
          split <;> omega

end StreamQuery
