import RowQuery.Number.Binary64

/-!
# `Json` — JSON documents

A document keeps whole numbers apart from the others, so that a number written with a point comes
back with one. The members of an object are a list: a document that is built to be written keeps
them in the order of writing, one that was read holds each name once, in ascending order.
-/

set_option autoImplicit false

namespace RowQuery

/-- A JSON document. Only finite numbers can be written in one. -/
inductive Json where
  | null
  | bool (b : Bool)
  | int (n : Int)
  | float (x : Finite64)
  | string (s : String)
  | array (items : List Json)
  | object (members : List (String × Json))
deriving Inhabited

namespace Json

/-- Put a member among members in ascending order of names, in the place of one of the same
name. -/
def insertMember (name : String) (value : Json) : List (String × Json) → List (String × Json)
  | [] => [(name, value)]
  | (n, v) :: rest =>
    if name < n then (name, value) :: (n, v) :: rest
    else if n = name then (n, value) :: rest
    else (n, v) :: insertMember name value rest

/-- The members in ascending order of names, the last of several with one name. -/
def sortMembers (members : List (String × Json)) : List (String × Json) :=
  members.foldl (fun sorted (name, value) => insertMember name value sorted) []

mutual
/-- The document with the members of every object in ascending order of names. -/
def sorted : Json → Json
  | .array items => .array (sortedItems items)
  | .object members => .object (sortMembers (sortedMembers members))
  | other => other
termination_by structural j => j

/-- `sorted` of every item. -/
def sortedItems : List Json → List Json
  | [] => []
  | j :: rest => sorted j :: sortedItems rest
termination_by structural js => js

/-- `sorted` of every member's value. -/
def sortedMembers : List (String × Json) → List (String × Json)
  | [] => []
  | (n, j) :: rest => (n, sorted j) :: sortedMembers rest
termination_by structural ms => ms
end

end Json
end RowQuery
