import StreamQuery.Value

/-!
# Schemas

A schema lists the named, typed attributes of a tuple. Names need not be distinct; a name stands for
the first attribute that bears it.
-/

namespace StreamQuery

/-- A named, typed attribute. -/
structure Attribute where
  /-- The name by which conditions and declarations refer to the attribute. -/
  name : String
  /-- The type of its values. -/
  type : ValueType
  deriving DecidableEq

/-- Why values do not make a tuple of a schema. -/
inductive TupleError where
  /-- There are more or fewer values than attributes. -/
  | arityMismatch (expected actual : Nat)
  /-- A value does not have the type of its attribute. -/
  | typeMismatch (name : String) (expected actual : ValueType)
  deriving DecidableEq

/-- The message of a tuple error. -/
def TupleError.message : TupleError → String
  | arityMismatch expected actual =>
    "expected " ++ toString expected ++ " values, got " ++ toString actual
  | typeMismatch name expected actual =>
    "attribute " ++ name ++ ": expected " ++ expected.name ++ ", got " ++ actual.name

/-- The attributes of a tuple, in order. -/
structure Schema where
  /-- The attributes, in order. -/
  attributes : List Attribute
  deriving DecidableEq

namespace Schema

/-- The number of attributes. -/
def length (schema : Schema) : Nat :=
  schema.attributes.length

/-- The position of the first attribute with a name. -/
def indexOf? (schema : Schema) (name : String) : Option Nat :=
  schema.attributes.findIdx? (·.name = name)

/-- The attribute at a position. -/
def attribute? (schema : Schema) (index : Nat) : Option Attribute :=
  schema.attributes[index]?

/-- The attributes of two schemas, one after the other. -/
protected def append (left right : Schema) : Schema where
  attributes := left.attributes ++ right.attributes

instance : Append Schema := ⟨Schema.append⟩

/-- The attributes at some positions, in that order. Positions beyond the end are left out. -/
def project (schema : Schema) (indices : List Nat) : Schema where
  attributes := indices.filterMap schema.attribute?

/-- The first attribute whose value has another type. -/
def firstMismatch? : List Attribute → List Value → Option TupleError
  | first :: attributes, value :: values =>
    if first.type = value.type then
      firstMismatch? attributes values
    else
      some (.typeMismatch first.name first.type value.type)
  | _, _ => none

/-- Checks that values make a tuple of the schema: first their number, then their types in order. -/
def check (schema : Schema) (values : List Value) : Except TupleError Unit :=
  if values.length ≠ schema.length then
    .error (.arityMismatch schema.length values.length)
  else
    match firstMismatch? schema.attributes values with
    | some error => .error error
    | none => .ok ()

/-- The text of a schema. -/
def render (schema : Schema) : String :=
  "(" ++ ", ".intercalate (schema.attributes.map fun a => a.name ++ ": " ++ a.type.name) ++ ")"

end Schema

end StreamQuery
