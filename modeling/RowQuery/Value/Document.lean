import RowQuery.Value.Basic
import RowQuery.Json.Basic

/-!
# Values and JSON documents

A value has two documents. `toJson` is the canonical one: the members of every object are in
ascending order of names, and it is what textual output shows. `toOrderedJson` keeps the fields in
their own order, and it is what results are written as. Both write a number that JSON has no text
for as null and a capability as a string.
-/

set_option autoImplicit false

namespace RowQuery

/-- The string that stands for a capability wherever one is written out. -/
def Handle.text (h : Handle) : String := "<capability " ++ h.typeName ++ ">"

namespace Json

/-- The document of a double; without a finite value it is null. -/
def ofFloat : Binary64 → Json
  | .finite x => .float x
  | _ => .null

end Json

namespace Value

mutual
def toJson : Value → Json
  | .null => .null
  | .bool b => .bool b
  | .int n => .int n.toInt
  | .float x => .ofFloat x
  | .string s => .string s
  | .array items => .array (toJsonItems items)
  | .object ⟨entries⟩ => .object (Json.sortMembers (toJsonMembers entries))
  | .capability h => .string h.text
termination_by structural v => v

def toJsonItems : List Value → List Json
  | [] => []
  | v :: rest => toJson v :: toJsonItems rest
termination_by structural vs => vs

/-- The canonical documents of fields, not yet in order. -/
def toJsonMembers : List (String × Value) → List (String × Json)
  | [] => []
  | (n, v) :: rest => (n, toJson v) :: toJsonMembers rest
termination_by structural es => es
end

mutual
/-- The document of a value with the fields of objects in their own order. -/
def toOrderedJson : Value → Json
  | .null => .null
  | .bool b => .bool b
  | .int n => .int n.toInt
  | .float x => .ofFloat x
  | .string s => .string s
  | .array items => .array (toOrderedItems items)
  | .object ⟨entries⟩ => .object (toOrderedMembers entries)
  | .capability h => .string h.text
termination_by structural v => v

def toOrderedItems : List Value → List Json
  | [] => []
  | v :: rest => toOrderedJson v :: toOrderedItems rest
termination_by structural vs => vs

def toOrderedMembers : List (String × Value) → List (String × Json)
  | [] => []
  | (n, v) :: rest => (n, toOrderedJson v) :: toOrderedMembers rest
termination_by structural es => es
end

/-- The value of a whole number: an integer if it fits, else the nearest float. -/
def ofInt (n : Int) : Value := (int? n).getD (.float (.ofInt n))

mutual
/-- The value of a document: the fields of an object stand in the order of its members. -/
def ofJson : Json → Value
  | .null => .null
  | .bool b => .bool b
  | .int n => .ofInt n
  | .float x => .float (.finite x)
  | .string s => .string s
  | .array items => .array (ofJsonItems items)
  | .object members => .object (.ofList (ofJsonMembers members))
termination_by structural j => j

def ofJsonItems : List Json → List Value
  | [] => []
  | j :: rest => ofJson j :: ofJsonItems rest
termination_by structural js => js

def ofJsonMembers : List (String × Json) → List (String × Value)
  | [] => []
  | (n, j) :: rest => (n, ofJson j) :: ofJsonMembers rest
termination_by structural ms => ms
end

end Value
end RowQuery
