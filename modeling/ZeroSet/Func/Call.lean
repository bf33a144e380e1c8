import ZeroSet.Evaluation

/-!
# Calling functions

A call applies a function to arguments and evaluates the application at once.
-/

namespace ZeroSet.Func

variable {K : Type} [Scalar K]

/-- The value of a function at argument expressions. -/
def call (f : Func K) (args : List (Expr K)) (mode : Mode) : Evaluation K (Value K) := do
  let e ← f.apply args
  e.evaluate mode

/-- The real value of a function at numbers, with nothing else bound. -/
def callReal (f : Func K) (args : List K) : Except (EvalError K) K := do
  let v ← (f.call (args.map .num) .real).value .empty
  v.asReal

end ZeroSet.Func
