import RowQuery.Value.Basic

/-!
# `Row` — the aliases bound for one element of the source
-/

set_option autoImplicit false

namespace RowQuery

/-- What one source element has become: it starts as one binding and every join adds another. -/
structure Row where
  /-- Where the element stands in the source. -/
  index : Nat
  /-- The bindings in the order they were made. -/
  bindings : List (String × Value)

namespace Row

/-- The row of an element under the alias of the source. -/
def ofElement (index : Nat) (aliasName : String) (value : Value) : Row :=
  ⟨index, [(aliasName, value)]⟩

/-- The value of an alias: of several bindings the latest. -/
def get? (r : Row) (aliasName : String) : Option Value := r.bindings.reverse.lookup aliasName

def bind (r : Row) (aliasName : String) (value : Value) : Row :=
  { r with bindings := r.bindings ++ [(aliasName, value)] }

def aliases (r : Row) : List String := r.bindings.map Prod.fst

end Row
end RowQuery
