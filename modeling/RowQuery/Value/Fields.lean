/-!
# `Fields` — named entries in the order they were first given

The order of the entries is the order in which their names were first inserted. Giving a name a
second time replaces its entry in place, so no name occurs twice in what `insert` builds.
-/

set_option autoImplicit false

namespace RowQuery

structure Fields (α : Type) where
  entries : List (String × α)
deriving BEq, Inhabited

namespace Fields

variable {α β : Type}

def empty : Fields α := ⟨[]⟩

/-- The entries after `name` is given `value`: in place when the name is there, else last. -/
def insertInto (name : String) (value : α) : List (String × α) → List (String × α)
  | [] => [(name, value)]
  | (n, v) :: rest =>
    if n = name then (n, value) :: rest else (n, v) :: insertInto name value rest

/-- Give `name` a value. -/
def insert (fields : Fields α) (name : String) (value : α) : Fields α :=
  ⟨insertInto name value fields.entries⟩

/-- The fields given in this order, later values of a name replacing earlier ones. -/
def ofList (entries : List (String × α)) : Fields α :=
  entries.foldl (fun fields (name, value) => fields.insert name value) empty

def get? (fields : Fields α) (name : String) : Option α :=
  fields.entries.lookup name

def contains (fields : Fields α) (name : String) : Bool :=
  (fields.get? name).isSome

/-- The names, in order. -/
def names (fields : Fields α) : List String :=
  fields.entries.map Prod.fst

def size (fields : Fields α) : Nat :=
  fields.entries.length

end Fields
end RowQuery
