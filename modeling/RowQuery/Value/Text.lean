import RowQuery.Value.Document
import RowQuery.Json.Printer
import RowQuery.Text.Quoted

/-!
# The texts of a value

`text` is what joining a value to a string gives; `inspect` shows the kinds of values too and is
meant for people who debug.
-/

set_option autoImplicit false

namespace RowQuery
namespace Value

/-- The text of a value: a string is itself, arrays and objects are compact JSON. -/
def text : Value → String
  | .null => "null"
  | .bool b => if b then "true" else "false"
  | .int n => toString n.toInt
  | .float x => NumberStyle.plain.writeAll x
  | .string s => s
  | .capability h => h.text
  | v => v.toJson.compact

mutual
def inspect : Value → String
  | .null => "Null"
  | .bool b => "Bool(" ++ (if b then "true" else "false") ++ ")"
  | .int n => "Int(" ++ toString n.toInt ++ ")"
  | .float x => "Float(" ++ NumberStyle.plain.writeAll x ++ ")"
  | .string s => "String(" ++ quote s ++ ")"
  | .array items => "[" ++ ", ".intercalate (inspectItems items) ++ "]"
  | .object ⟨entries⟩ => "\x7b" ++ ", ".intercalate (inspectEntries entries) ++ "\x7d"
  | .capability h => "Capability(" ++ h.typeName ++ ")"
termination_by structural v => v

/-- `inspect` of every item. -/
def inspectItems : List Value → List String
  | [] => []
  | v :: rest => inspect v :: inspectItems rest
termination_by structural vs => vs

/-- Every field as a quoted name and `inspect` of its value. -/
def inspectEntries : List (String × Value) → List String
  | [] => []
  | (n, v) :: rest => (quote n ++ ": " ++ inspect v) :: inspectEntries rest
termination_by structural es => es
end

end Value
end RowQuery
