/-!
# `Comparison` — the six comparison operators
-/

set_option autoImplicit false

namespace RowQuery

inductive Comparison where
  | less | lessEqual | greater | greaterEqual | equal | notEqual
deriving DecidableEq

namespace Comparison

def symbol : Comparison → String
  | .less => "<"
  | .lessEqual => "<="
  | .greater => ">"
  | .greaterEqual => ">="
  | .equal => "=="
  | .notEqual => "!="

/-- Whether the operator asks for more than equality. -/
def isOrdering : Comparison → Bool
  | .equal => false
  | .notEqual => false
  | _ => true

/-- The operator's answer for two things that compare in this way. -/
def holds : Comparison → Ordering → Bool
  | .less, o => o == .lt
  | .lessEqual, o => o != .gt
  | .greater, o => o == .gt
  | .greaterEqual, o => o != .lt
  | .equal, o => o == .eq
  | .notEqual, o => o != .eq

end Comparison
end RowQuery
