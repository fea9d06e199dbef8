import StreamQuery.Decimal.Shortest
import StreamQuery.Text.Quoted
import StreamQuery.Value.Comparator

/-!
# Attribute values

A value is an integer of 64 bits, a double or a string. Operations are strictly typed: an integer
and a double never mix, and `toFloat` is the only promotion. Integer arithmetic wraps around.
-/

namespace StreamQuery

/-- The type of an attribute. -/
inductive ValueType where
  | int
  | float
  | string
  deriving DecidableEq

namespace ValueType

/-- The name of a type in schemas and messages. -/
def name : ValueType → String
  | int => "INT"
  | float => "FLOAT"
  | string => "STRING"

/-- Whether means can be taken over values of this type. -/
def isNumeric : ValueType → Bool
  | int => true
  | float => true
  | string => false

end ValueType

/-- An operation on values. -/
inductive Operation where
  | add
  | subtract
  | multiply
  | divide
  | compare
  | toFloat
  deriving DecidableEq

/-- The name of an operation in messages. -/
def Operation.name : Operation → String
  | add => "add"
  | subtract => "subtract"
  | multiply => "multiply"
  | divide => "divide"
  | compare => "compare"
  | toFloat => "to_float"

/-- Why an operation on values has no result. -/
inductive OperationError where
  /-- The operands have different types. -/
  | typeMismatch (operation : Operation) (left right : ValueType)
  /-- The operation is not defined on the type of its operands. -/
  | unsupported (operation : Operation) (type : ValueType)
  /-- An integer was divided by zero. -/
  | divisionByZero
  deriving DecidableEq

/-- The message of an operation error. -/
def OperationError.message : OperationError → String
  | typeMismatch operation left right =>
    "type mismatch in " ++ operation.name ++ ": " ++ left.name ++ " vs " ++ right.name
  | unsupported operation type => "unsupported operation " ++ operation.name ++ " on " ++ type.name
  | divisionByZero => "division by zero"

/-- The value of an attribute. -/
inductive Value where
  | int (value : Int64)
  | float (value : Float)
  | string (text : String)

namespace Value

/-- The type of a value. -/
def type : Value → ValueType
  | int _ => .int
  | float _ => .float
  | string _ => .string

/-- The error of an operation that both operands are too different for. -/
private def mismatch (operation : Operation) (left right : Value) : OperationError :=
  .typeMismatch operation left.type right.type

/-- The error of an arithmetic operation on operands that are not numbers of one type. -/
private def notNumeric (operation : Operation) (left right : Value) : OperationError :=
  if left.type = right.type then .unsupported operation left.type
  else mismatch operation left right

/-- The value as a double; integers round to the nearest one. -/
def toFloat : Value → Except OperationError Value
  | int value => .ok (float (Float.ofInt value.toInt))
  | float value => .ok (float value)
  | string _ => .error (.unsupported .toFloat .string)

/-- The sum of two numbers, or two strings one after the other. -/
def add : Value → Value → Except OperationError Value
  | int left, int right => .ok (int (left + right))
  | float left, float right => .ok (float (left + right))
  | string left, string right => .ok (string (left ++ right))
  | left, right => .error (mismatch .add left right)

/-- The difference of two numbers. -/
def subtract : Value → Value → Except OperationError Value
  | int left, int right => .ok (int (left - right))
  | float left, float right => .ok (float (left - right))
  | left, right => .error (notNumeric .subtract left right)

/-- The product of two numbers. -/
def multiply : Value → Value → Except OperationError Value
  | int left, int right => .ok (int (left * right))
  | float left, float right => .ok (float (left * right))
  | left, right => .error (notNumeric .multiply left right)

/-- The quotient of two numbers; that of two integers is cut off toward zero. -/
def divide : Value → Value → Except OperationError Value
  | int left, int right =>
    if right = 0 then .error .divisionByZero else .ok (int (left / right))
  | float left, float right => .ok (float (left / right))
  | left, right => .error (notNumeric .divide left right)

/-- The order of two doubles. A value that is not a number has none. -/
def floatOrder? (left right : Float) : Option Ordering :=
  if left < right then some .lt
  else if left > right then some .gt
  else if left == right then some .eq
  else none

/-- Whether two values of one type satisfy a comparator. Strings are ordered by code points. -/
def compare (comparator : Comparator) : Value → Value → Except OperationError Bool
  | int left, int right => .ok (comparator.holds (Ord.compare left right))
  | float left, float right => .ok (comparator.holdsPartially (floatOrder? left right))
  | string left, string right => .ok (comparator.holds (Ord.compare left right))
  | left, right => .error (mismatch .compare left right)

/-- The text of a value. -/
def render : Value → String
  | int value => toString value.toInt
  | float value => Decimal.positional value
  | string text => Text.quoted text

end Value

end StreamQuery
