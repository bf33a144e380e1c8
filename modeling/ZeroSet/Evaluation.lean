import ZeroSet.Env
import ZeroSet.Value
import ZeroSet.Func.Weight

/-!
# Evaluation

The value of an expression in a mode.  Operands are evaluated from left to right and the
first error wins.  The arguments of a user function are evaluated before its parameters are
bound to their values, so a parameter never captures a name in an argument; a composition
is evaluated as its expansion.

* `Expr.evalWith` — evaluation over a given meaning of variables, by recursion on the weight.
* `Expr.evaluate` — variables mean their bindings, evaluated in the same mode.  A chain of
  variables that each lead to the next is never longer than the bindings allow, since the
  guard against cycles admits each name once and parameters are bound to literals.
-/

namespace ZeroSet

variable {K : Type} [Scalar K]

/-! ## Over a meaning of variables -/

mutual

/-- The value of an expression, where `meaning` says what variables evaluate to. -/
def Expr.evalWith (meaning : String → Mode → Evaluation K (Value K)) (e : Expr K)
    (mode : Mode) : Evaluation K (Value K) :=
  match e with
  | .num v =>
    match mode with
    | .real => pure (.real v)
    | .interval => pure (.interval (.point v))
    | .vector => throw (.unimplemented .number .vector)
  | .var name => meaning name mode
  | .vec items =>
    match mode with
    | .vector => do
      let components ← Expr.evalReals meaning items
      let t ← Tuple.ofList components
      return .vector t
    | mode => throw (.unimplemented .vector mode)
  | .interval lo hi =>
    match mode with
    | .interval => do
      let lo ← (← lo.evalWith meaning .real).asReal
      let hi ← (← hi.evalWith meaning .real).asReal
      let a ← Interval.ofBounds lo hi
      return .interval a
    | mode => throw (.unimplemented .interval mode)
  | .neg a => do
    let v ← a.evalWith meaning mode
    return v.negate
  | .binary op a b => do
    let v ← a.evalWith meaning mode
    let w ← b.evalWith meaning mode
    op.onValues v w
  | .power base exponent =>
    match mode with
    | .real => do
      let base ← (← base.evalWith meaning .real).asReal
      let exponent ← (← exponent.evalWith meaning .real).asReal
      return .real (Scalar.pow base exponent)
    | mode => throw (.unimplemented .power mode)
  | .apply (.builtin b) args => do
    b.check
    match mode, args with
    | .real, [arg] =>
      let x ← (← arg.evalWith meaning .real).asReal
      return .real (b.value x)
    | .real, args => throw (.dimensionMismatch args.length 1)
    | mode, _ => throw (.unimplemented (.builtin b) mode)
  | .apply (.custom _ params body) args =>
    if args.length ≠ params.length then throw (.dimensionMismatch args.length params.length)
    else do
      let values ← Expr.evalArgs meaning args mode
      Evaluation.within (params.zip (values.map Value.toExpr)) (body.evalWith meaning mode)
  | .apply (.comp inner outer) args =>
    match h : (Func.comp inner outer).expand args with
    | .ok expanded =>
      have := Func.weight_expand_lt h
      expanded.evalWith meaning mode
    | .error err => throw err
termination_by 2 * e.weight
decreasing_by all_goals simp only [Expr.weight, Func.weight, Expr.weightList] at *; omega

/-- The real values of a list of expressions. -/
def Expr.evalReals (meaning : String → Mode → Evaluation K (Value K)) (es : List (Expr K)) :
    Evaluation K (List K) :=
  match es with
  | [] => pure []
  | e :: es => do
    let x ← (← e.evalWith meaning .real).asReal
    let xs ← Expr.evalReals meaning es
    return x :: xs
termination_by 2 * Expr.weightList es + 1
decreasing_by
  all_goals
    have := e.weight_pos
    simp only [Expr.weightList]
    omega

/-- The values of a list of arguments. -/
def Expr.evalArgs (meaning : String → Mode → Evaluation K (Value K)) (es : List (Expr K))
    (mode : Mode) : Evaluation K (List (Value K)) :=
  match es with
  | [] => pure []
  | e :: es => do
    let v ← e.evalWith meaning mode
    let vs ← Expr.evalArgs meaning es mode
    return v :: vs
termination_by 2 * Expr.weightList es + 1
decreasing_by
  all_goals
    have := e.weight_pos
    simp only [Expr.weightList]
    omega

end

/-! ## Through the environment -/

namespace Expr

/-- The value of an expression where variables lead to their bindings, and these to further
variables, at most `depth` times in a row. -/
def evaluateWithin : (depth : Nat) → Expr K → Mode → Evaluation K (Value K)
  | 0, e, mode =>
    e.evalWith (fun name _ => .resolving name fun _ => throw (.cyclicBinding name)) mode
  | depth + 1, e, mode =>
    e.evalWith (fun name mode => .resolving name fun bound => bound.evaluateWithin depth mode)
      mode

/-- The value of an expression. -/
def evaluate (e : Expr K) (mode : Mode) : Evaluation K (Value K) := do
  let env ← get
  e.evaluateWithin (env.bindings.size + 1) mode

/-- The real value of an expression. -/
def evaluateReal (e : Expr K) : Evaluation K K := do
  let v ← e.evaluate .real
  v.asReal

/-- The tuple that an expression evaluates to. -/
def evaluateVector (e : Expr K) : Evaluation K (Tuple K) := do
  let v ← e.evaluate .vector
  v.asVector

/-- The interval that encloses an expression. -/
def evaluateInterval (e : Expr K) : Evaluation K (Interval K) := do
  let v ← e.evaluate .interval
  v.asInterval

end Expr

/-- The value of an evaluation that starts from a given environment. -/
def Evaluation.value {α : Type} (action : Evaluation K α) (env : Env K) :
    Except (EvalError K) α := (action.run.run env).1

end ZeroSet
