import StreamQuery.Tuple

/-!
# Data and markers

A stream carries data, and markers that end it. Only the data goes into windows.
-/

namespace StreamQuery

/-- The tuples that carry data. -/
def dataOf (tuples : List Tuple) : List Tuple :=
  tuples.filter fun tuple => !tuple.isEndOfStream

@[simp] theorem dataOf_nil : dataOf [] = [] :=
  rfl

@[simp] theorem dataOf_append (first second : List Tuple) :
    dataOf (first ++ second) = dataOf first ++ dataOf second :=
  List.filter_append _ _

theorem dataOf_cons_of_data {tuple : Tuple} (is_data : tuple.isEndOfStream = false)
    (tuples : List Tuple) : dataOf (tuple :: tuples) = tuple :: dataOf tuples := by
  simp [dataOf, is_data]

theorem dataOf_cons_of_marker {tuple : Tuple} (is_marker : tuple.isEndOfStream = true)
    (tuples : List Tuple) : dataOf (tuple :: tuples) = dataOf tuples := by
  simp [dataOf, is_marker]

theorem dataOf_append_of_marker (tuples : List Tuple) {tuple : Tuple}
    (is_marker : tuple.isEndOfStream = true) : dataOf (tuples ++ [tuple]) = dataOf tuples := by
  rw [dataOf_append, dataOf_cons_of_marker is_marker, dataOf_nil, List.append_nil]

theorem dataOf_of_data {tuples : List Tuple}
    (is_data : ∀ tuple ∈ tuples, tuple.isEndOfStream = false) : dataOf tuples = tuples :=
  List.filter_eq_self.mpr fun tuple member => by simp [is_data tuple member]

theorem dataOf_filter (keeps : Tuple → Bool) (tuples : List Tuple) :
    dataOf (tuples.filter keeps) = (dataOf tuples).filter keeps := by
  simp only [dataOf, List.filter_filter, Bool.and_comm]

end StreamQuery
