import ZeroSet.Expr.Names
import ZeroSet.Func.Weight

/-!
# Derivatives

Exact symbolic derivatives, not simplified.  A subtree that does not mention the variable
has the derivative `0` outright; the rules below deal with the others.

* Sums, differences, products and quotients have their usual rules.
* A power with a constant exponent has the power rule; any other is `exp(b · ln a)`.
* A built-in has its own derivative, times that of its argument.
* A user function has one term for each argument that mentions the variable, by the chain
  rule, and one for the variable itself where it is free in the body.
* A composition is differentiated as its expansion.
-/

namespace ZeroSet

variable {K : Type} [Scalar K]

/-- The derivative of a built-in at an argument; logarithms and roots go through the
natural logarithm and powers. -/
def Builtin.derivativeAt (u : Expr K) : Builtin K → Expr K
  | .exp => .exp u
  | .ln => .num 1 / u
  | .log base => .num 1 / (u * .ln (.num base))
  | .sqrt => .num 1 / (.num 2.0 * .sqrt u)
  | .root degree =>
    let inverse := .num 1 / .num degree
    inverse * .power u (inverse - .num 1)

/-- The sum of a list of terms, grouped to the left. -/
def Expr.sum : List (Expr K) → Expr K
  | [] => .num 0
  | t :: ts => ts.foldl (· + ·) t

mutual

/-- The derivative of an expression in a variable. -/
def Expr.derivative (name : String) (e : Expr K) : Except (EvalError K) (Expr K) :=
  if !e.dependsOn name then .ok (.num 0)
  else
    match e with
    | .num _ => .ok (.num 0)
    | .var other => .ok (.num (if other = name then 1 else 0))
    | .vec items => do
      let items ← Expr.derivativeList name items
      return .vec items
    | .interval lo hi => do
      let lo ← lo.derivative name
      let hi ← hi.derivative name
      return .interval lo hi
    | .neg a => do
      let da ← a.derivative name
      return -da
    | .binary op a b => do
      let da ← a.derivative name
      let db ← b.derivative name
      return match op with
        | .add => da + db
        | .sub => da - db
        | .mul => da * b + a * db
        | .div => (da * b - a * db) / .power b (.num 2.0)
    | .power a b =>
      if b.dependsOn name then do
        let db ← b.derivative name
        let da ← a.derivative name
        return .exp (b * .ln a) * (db * .ln a + b * (da / a))
      else do
        let da ← a.derivative name
        return b * .power a (b - .num 1) * da
    | .apply (.builtin f) args => do
      f.check
      match args with
      | [u] => do
        let du ← u.derivative name
        return f.derivativeAt u * du
      | args => .error (.dimensionMismatch args.length 1)
    | .apply (.comp inner outer) args =>
      match h : (Func.comp inner outer).expand args with
      | .ok expanded =>
        have := Func.weight_expand_lt h
        expanded.derivative name
      | .error err => .error err
    | .apply (.custom f params body) args => do
      let withBody (body : Expr K) : Expr K := .apply (.custom f params body) args
      let chained ← Expr.chainTerms name withBody body params args
      if name ∉ params && body.dependsOn name then do
        let inner ← body.derivative name
        return Expr.sum (chained ++ [withBody inner])
      else return Expr.sum chained
termination_by 2 * e.weight
decreasing_by all_goals simp only [Expr.weight, Func.weight, Expr.weightList] at *; omega

/-- The derivatives of a list of expressions. -/
def Expr.derivativeList (name : String) (es : List (Expr K)) :
    Except (EvalError K) (List (Expr K)) :=
  match es with
  | [] => .ok []
  | e :: es => do
    let de ← e.derivative name
    let des ← Expr.derivativeList name es
    return de :: des
termination_by 2 * Expr.weightList es + 1
decreasing_by
  all_goals
    have := e.weight_pos
    simp only [Expr.weightList]
    omega

/-- The terms of the chain rule for a user function: for each argument that mentions the
variable, the partial derivative of the body in its parameter, times the derivative of the
argument. -/
def Expr.chainTerms (name : String) (withBody : Expr K → Expr K) (body : Expr K)
    (params : List String) (args : List (Expr K)) : Except (EvalError K) (List (Expr K)) :=
  match params, args with
  | param :: params, arg :: args =>
    if !arg.dependsOn name then Expr.chainTerms name withBody body params args
    else do
      let outer ← body.derivative param
      let inner ← arg.derivative name
      let terms ← Expr.chainTerms name withBody body params args
      return withBody outer * inner :: terms
  | _, _ => .ok []
termination_by 2 * body.weight + 2 * Expr.weightList args + 1
decreasing_by
  all_goals
    have := arg.weight_pos
    simp only [Expr.weightList]
    omega

end

/-- The derivative in a name that the expression does not mention is zero. -/
theorem Expr.derivative_of_notMem {e : Expr K} {name : String} (h : name ∉ e.freeNames) :
    e.derivative name = .ok (.num 0) := by
  rw [derivative.eq_def, if_pos (not_dependsOn_iff.2 h)]

end ZeroSet
