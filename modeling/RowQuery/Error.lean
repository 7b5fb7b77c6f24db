import RowQuery.ParseError

/-!
# `QueryError` — why a query gives no results

A fault has one cause. A join group evaluates everything before it gives up, so its error is a
list of failures instead, each a fault with the row and the alias it belongs to.
-/

set_option autoImplicit false

namespace RowQuery

/-- A name or a property that cannot be read. -/
inductive Unresolved where
  | undefined (name : String)
  | readOfNull (property walked : String)
  | noProperty (owner walked property : String)
  | sourceUndefined (name : String)
  | sourceNull (name : String)
  /-- In words of its own. -/
  | custom (message : String)
deriving DecidableEq

namespace Unresolved

def message : Unresolved → String
  | .undefined name => "'" ++ name ++ "' is not defined"
  | .readOfNull property walked => "cannot read '" ++ property ++ "' of null '" ++ walked ++ "'"
  | .noProperty owner walked property =>
    owner ++ " '" ++ walked ++ "' has no property '" ++ property ++ "'"
  | .sourceUndefined name => "from source '" ++ name ++ "' is not defined"
  | .sourceNull name => "from source '" ++ name ++ "' is null"
  | .custom message => message

end Unresolved

/-- An operator applied to kinds of values it does not take. -/
inductive Mismatch where
  | cannotAdd (left right : String)
  | cannotOrder (left : String) (op : Comparison) (right : String)
  | cannotOrderBooleans (op : Comparison)
  | cannotCompare (left : String) (op : Comparison) (right : String)
  | notBoolean (found : String)
  /-- In words of its own. -/
  | custom (message : String)
deriving DecidableEq

namespace Mismatch

def message : Mismatch → String
  | .cannotAdd left right => "cannot add " ++ left ++ " and " ++ right
  | .cannotOrder left op right => "cannot order " ++ left ++ " " ++ op.symbol ++ " " ++ right
  | .cannotOrderBooleans op => "booleans only support == and !=, got " ++ op.symbol
  | .cannotCompare left op right => "cannot compare " ++ left ++ " " ++ op.symbol ++ " " ++ right
  | .notBoolean found => "expected boolean, got " ++ found
  | .custom message => message

end Mismatch

/-- A call that a capability did not answer. -/
inductive FailedCall where
  | noSuchOperation (target operation : String) (arity : Nat)
  | failed (target operation message : String)
  | notCapability (operation found : String)
deriving DecidableEq

namespace FailedCall

def message : FailedCall → String
  | .noSuchOperation target operation arity =>
    "no operation '" ++ operation ++ "' taking " ++ toString arity ++ " argument(s) on " ++ target
  | .failed target operation message =>
    "'" ++ operation ++ "' on " ++ target ++ " failed: " ++ message
  | .notCapability operation found =>
    "cannot call '" ++ operation ++ "' on non-capability value " ++ found

end FailedCall

/-- A query that cannot be built or finished. -/
inductive InvalidQuery where
  | noSource
  | noProjection
  | emptyGroup
  | zeroLimit (aliasName : String)
  | lostTask (aliasName : String)
deriving DecidableEq

namespace InvalidQuery

def message : InvalidQuery → String
  | .noSource => "query has no 'from' clause"
  | .noProjection => "query has no 'select' clause"
  | .emptyGroup => "empty join group"
  | .zeroLimit aliasName => "join '" ++ aliasName ++ "': concurrency limit must be positive"
  | .lostTask aliasName => "join task for '" ++ aliasName ++ "' did not complete"

end InvalidQuery

/-- A document of a kind that is not taken where it stands. -/
inductive InvalidPayload where
  | contextNotObject (found : String)
  | notArray (found : String)
  | notObject (found : String)
deriving DecidableEq

namespace InvalidPayload

def message : InvalidPayload → String
  | .contextNotObject found => "context must be a JSON object, got " ++ found
  | .notArray found => "expected a JSON array, got " ++ found
  | .notObject found => "expected a JSON object, got " ++ found

end InvalidPayload

inductive Fault where
  | parse (error : ParseError)
  | unresolved (cause : Unresolved)
  | mismatch (cause : Mismatch)
  | invocation (cause : FailedCall)
  | invalidQuery (cause : InvalidQuery)
  | invalidPayload (cause : InvalidPayload)
  /-- The pool of the engine cannot start. -/
  | pool (reason : String)
  /-- A file cannot be read. -/
  | file (reason : String)
  /-- A text is not a JSON document. -/
  | notJson
deriving DecidableEq

namespace Fault

def message : Fault → String
  | .parse e => "Parse error at position " ++ toString e.position ++ ": " ++ e.complaint.message
  | .unresolved cause => "Unresolved variable: " ++ cause.message
  | .mismatch cause => "Type mismatch: " ++ cause.message
  | .invocation cause => "Invocation error: " ++ cause.message
  | .invalidQuery cause => "Invalid query: " ++ cause.message
  | .invalidPayload cause => "Invalid payload: " ++ cause.message
  | .pool reason => "Worker pool error: " ++ reason
  | .file reason => "IO error: " ++ reason
  | .notJson => "JSON error: the text is not a JSON document"

end Fault

/-- A join expression that failed for one row. -/
structure RowFailure where
  /-- Where the row's element stands in the source. -/
  row : Nat
  aliasName : String
  fault : Fault
deriving DecidableEq

namespace RowFailure

/-- The order in which failures are reported: by row, then by alias. -/
def le (a b : RowFailure) : Bool :=
  a.row < b.row || (a.row == b.row && a.aliasName ≤ b.aliasName)

/-- Failures in the order of reporting; those of one row and alias stay as they were. -/
def sort (failures : List RowFailure) : List RowFailure :=
  failures.mergeSort le

def message (f : RowFailure) : String :=
  "row " ++ toString f.row ++ " as '" ++ f.aliasName ++ "': " ++ f.fault.message

end RowFailure

/-- Why a query gives no results. -/
inductive QueryError where
  | fault (f : Fault)
  | join (failures : List RowFailure)
deriving DecidableEq

namespace QueryError

def ofFailures (failures : List RowFailure) : QueryError :=
  .join (RowFailure.sort failures)

def message : QueryError → String
  | .fault f => f.message
  | .join failures =>
    "Join error: " ++ toString failures.length ++ " row(s) failed" ++
      String.join (failures.map fun f => "; " ++ f.message)

end QueryError
end RowQuery
