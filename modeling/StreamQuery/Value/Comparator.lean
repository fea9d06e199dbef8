/-!
# Comparators

The six ways in which a condition compares two values, read off the order of the two.
-/

namespace StreamQuery

/-- How a condition compares two values. -/
inductive Comparator where
  | equal
  | notEqual
  | less
  | lessOrEqual
  | greater
  | greaterOrEqual
  deriving DecidableEq

namespace Comparator

/-- Whether two values in the given order satisfy the comparator. -/
def holds : Comparator → Ordering → Bool
  | equal, order => order = .eq
  | notEqual, order => order ≠ .eq
  | less, order => order = .lt
  | lessOrEqual, order => order ≠ .gt
  | greater, order => order = .gt
  | greaterOrEqual, order => order ≠ .lt

/-- Whether two values that may have no order satisfy the comparator. Values without an order are
only different. -/
def holdsPartially (comparator : Comparator) : Option Ordering → Bool
  | some order => comparator.holds order
  | none => comparator = notEqual

/-- The symbol of a comparator. -/
def symbol : Comparator → String
  | equal => "=="
  | notEqual => "!="
  | less => "<"
  | lessOrEqual => "<="
  | greater => ">"
  | greaterOrEqual => ">="

end Comparator

end StreamQuery
