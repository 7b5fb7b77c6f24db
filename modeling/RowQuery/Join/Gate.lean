/-!
# `Gate` — how many tasks of a group may be under way

A permit is taken before a task is handed over and given back when the task ends, however it ends.
-/

set_option autoImplicit false

namespace RowQuery

/-- A gate with some permits given out. -/
structure Gate where
  limit : Nat
  /-- The permits given out and not yet back. -/
  inFlight : Nat := 0
  limit_pos : 0 < limit

namespace Gate

/-- A gate with this many permits; there is always one. -/
def ofLimit (limit : Nat) : Gate where
  limit := max limit 1
  limit_pos := by omega

/-- Take a permit, unless all are out. -/
def acquire? (g : Gate) : Option Gate :=
  if g.inFlight < g.limit then some { g with inFlight := g.inFlight + 1 } else none

/-- Give a permit back, if one is out. -/
def release? (g : Gate) : Option Gate :=
  if 0 < g.inFlight then some { g with inFlight := g.inFlight - 1 } else none

end Gate
end RowQuery
