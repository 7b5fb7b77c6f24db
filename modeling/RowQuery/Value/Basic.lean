import RowQuery.Number.Binary64
import RowQuery.Value.Fields

/-!
# `Value` — what queries compute with

Values are data in the shape of JSON and one more kind, the capability: a handle on an object of
the host, known to a query only by the name of its type and by the operations the host answers
for it. A handle carries an identity, so that two capabilities of one type can be told apart.
-/

set_option autoImplicit false

namespace RowQuery

/-- A host object as a query sees it. -/
structure Handle where
  /-- Which host object it is. -/
  id : Nat
  typeName : String
deriving DecidableEq

/-- A value of the query language. -/
inductive Value where
  | null
  | bool (b : Bool)
  | int (n : Int64)
  | float (x : Binary64)
  | string (s : String)
  | array (items : List Value)
  | object (fields : Fields Value)
  | capability (handle : Handle)
deriving Inhabited

abbrev Object := Fields Value

namespace Value

def kind : Value → String
  | .null => "null"
  | .bool _ => "boolean"
  | .int _ => "integer"
  | .float _ => "float"
  | .string _ => "string"
  | .array _ => "array"
  | .object _ => "object"
  | .capability _ => "capability"

def isNull : Value → Bool
  | .null => true
  | _ => false

/-- A number as a double; integers are rounded to the nearest. -/
def toFloat? : Value → Option Binary64
  | .int n => some (.ofInt n.toInt)
  | .float x => some x
  | _ => none

def isNumeric (v : Value) : Bool := v.toFloat?.isSome

/-- The integer that a whole number is, if it fits 64 bits. -/
def int? (n : Int) : Option Value :=
  if Int64.minValue.toInt ≤ n && n ≤ Int64.maxValue.toInt then some (.int (.ofInt n)) else none

/-! ## Equality

Values of different kinds differ, an integer and a float included. Floats are equal as numbers,
objects when they have the same fields in the same order, and capabilities when they are the same
host object. -/

mutual
def equal : Value → Value → Bool
  | .null, .null => true
  | .bool a, .bool b => a == b
  | .int a, .int b => a == b
  | .float a, .float b => a.equal b
  | .string a, .string b => a == b
  | .array xs, .array ys => equalItems xs ys
  | .object ⟨xs⟩, .object ⟨ys⟩ => equalEntries xs ys
  | .capability a, .capability b => a.id == b.id
  | _, _ => false
termination_by structural v => v

/-- Whether two lists of values are equal item by item. -/
def equalItems : List Value → List Value → Bool
  | [], [] => true
  | x :: xs, y :: ys => equal x y && equalItems xs ys
  | _, _ => false
termination_by structural xs => xs

/-- Whether two lists of fields are equal name by name and value by value. -/
def equalEntries : List (String × Value) → List (String × Value) → Bool
  | [], [] => true
  | (m, x) :: xs, (n, y) :: ys => m == n && equal x y && equalEntries xs ys
  | _, _ => false
termination_by structural xs => xs
end

instance : BEq Value := ⟨equal⟩

end Value
end RowQuery
