import ZeroSet.Expr.Derivative
import ZeroSet.Expr.Simplify

/-!
# Partial derivatives of functions

Every function can be written as a user function over its own parameters, and the partial
derivative of that body in a parameter is again a function of the same parameters.
-/

namespace ZeroSet.Func

variable {K : Type} [Scalar K]

/-- A body over the parameters of the function: an application to the parameters themselves,
expanded, unless the function has a body of its own. -/
def body : Func K → Except (EvalError K) (Expr K)
  | .custom _ _ body => .ok body
  | f => f.expand (f.params.map .var)

/-- The user function with its body simplified; other functions as they are. -/
def simplified : Func K → Except (EvalError K) (Func K)
  | .custom name params body => do
    let body ← body.simplify
    return .custom name params body
  | f => .ok f

/-- The derivative of the body in a parameter. -/
def partialBody (param : String) : Func K → Except (EvalError K) (Expr K)
  | .builtin b => .ok (b.derivativeAt (.var param))
  | f => do
    let body ← f.body
    body.derivative param

variable [Decimal K]

/-- The user function with the same name, parameters and values. -/
def toCustom (f : Func K) : Except (EvalError K) (Func K) := do
  let body ← f.body
  return .custom f.name f.params body

/-- The partial derivative in a parameter, counted from zero. -/
def partialDerivative (f : Func K) (index : Nat) : Except (EvalError K) (Func K) :=
  match f.params[index]? with
  | none => .error (.invalidConstruction (.missingParameter f.name index))
  | some param => do
    let body ← f.partialBody param
    return .custom ("∂" ++ f.name ++ "/∂" ++ param) f.params body

/-- The partial derivatives in all parameters. -/
def gradient (f : Func K) : Except (EvalError K) (List (Func K)) :=
  (List.range f.arity).mapM f.partialDerivative

end ZeroSet.Func
