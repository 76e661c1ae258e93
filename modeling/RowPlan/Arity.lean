/-!
Accepted numbers of arguments.
-/

namespace RowPlan

/-- The numbers of arguments that a conversion accepts. -/
inductive Arity where
  | exactly (n : Nat)
  | between (min max : Nat)
  | atLeast (n : Nat)
  deriving DecidableEq

namespace Arity

/-- Both bounds of `between` are accepted. -/
def accepts : Arity → Nat → Bool
  | exactly n, count => count == n
  | between min max, count => decide (min ≤ count) && decide (count ≤ max)
  | atLeast n, count => decide (n ≤ count)

def display : Arity → String
  | exactly n => toString n
  | between min max => toString min ++ " to " ++ toString max
  | atLeast n => "at least " ++ toString n

end Arity

end RowPlan
