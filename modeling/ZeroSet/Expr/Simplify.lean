import ZeroSet.Func.Basic

/-!
# Simplification

One pass from the leaves to the root: the operands of a node are simplified first, then the
first rule that fits the node is applied, once.  The pass is not repeated, so its result
may offer further rules a place.

| node    | rules, after folding two literals into one                              |
|---------|--------------------------------------------------------------------------|
| `-a`    | `--a` is `a`, `-0` is `0`                                                |
| `a + b` | `0 + b` is `b`, `a + 0` is `a`, `a + (-b)` is `a - b`                    |
| `a - b` | `a - 0` is `a`, `0 - b` is `-b`, `a - a` is `0`, `a - (-b)` is `a + b`   |
| `a * b` | `0 * b` and `a * 0` are `0`, `1 * b` is `b`, `a * 1` is `a`, two signs cancel |
| `a / b` | `a / 0` is an error, `0 / b` is `0`, `a / 1` is `a`                      |
| `a ^ b` | `a ^ 1` is `a`, `a ^ 0` is `1`, `0 ^ b` is `0` for another literal, `1 ^ b` is `1` |
| `exp`   | `exp(ln(a))` is `a`, `exp(b * ln(a))` is `a ^ b`                         |
| `ln`    | `ln(exp(a))` is `a`                                                      |

Powers and built-ins of literals are folded only if the result is finite.
-/

namespace ZeroSet

variable {K : Type} [Scalar K]

/-! ## The rules of each node -/

namespace Rule

/-- The rules of a negation. -/
def neg : Expr K → Expr K
  | .neg a => a
  | .num v => if v == 0 then .num 0 else .neg (.num v)
  | a => .neg a

/-- The rules of a sum. -/
def add (a b : Expr K) : Expr K :=
  match a, b with
  | .num x, .num y => .num (x + y)
  | a, b =>
    if a.isNumber 0 then b
    else if b.isNumber 0 then a
    else
      match b with
      | .neg c => a - c
      | b => a + b

/-- The rules of a difference. -/
def sub (a b : Expr K) : Expr K :=
  match a, b with
  | .num x, .num y => .num (x - y)
  | a, b =>
    if b.isNumber 0 then a
    else if a.isNumber 0 then neg b
    else if a == b then .num 0
    else
      match b with
      | .neg c => a + c
      | b => a - b

/-- The rules of a product. -/
def mul (a b : Expr K) : Expr K :=
  match a, b with
  | .num x, .num y => .num (x * y)
  | a, b =>
    if a.isNumber 0 || b.isNumber 0 then .num 0
    else if a.isNumber 1 then b
    else if b.isNumber 1 then a
    else
      match a, b with
      | .neg c, .neg d => c * d
      | a, b => a * b

/-- The rules of a quotient. -/
def div (a b : Expr K) : Except (EvalError K) (Expr K) :=
  if b.isNumber 0 then .error .divisionByZero
  else
    match a, b with
    | .num x, .num y => .ok (.num (x / y))
    | a, b =>
      if a.isNumber 0 then .ok (.num 0)
      else if b.isNumber 1 then .ok a
      else .ok (a / b)

/-- The power of two literals, if it is finite. -/
def foldedPower? (base exponent : Expr K) : Option K :=
  match base, exponent with
  | .num x, .num y =>
    let p := Scalar.pow x y
    if Scalar.isFinite p then some p else none
  | _, _ => none

/-- Whether an expression is a literal other than `v`. -/
def isNumberOtherThan (e : Expr K) (v : K) : Bool :=
  match e with
  | .num w => !(w == v)
  | _ => false

/-- The rules of a power. -/
def power (base exponent : Expr K) : Expr K :=
  match foldedPower? base exponent with
  | some p => .num p
  | none =>
    if exponent.isNumber 1 then base
    else if exponent.isNumber 0 then .num 1
    else if base.isNumber 0 && isNumberOtherThan exponent 0 then .num 0
    else if base.isNumber 1 then .num 1
    else .power base exponent

/-- The rules of an operator. -/
def binary : BinOp → Expr K → Expr K → Except (EvalError K) (Expr K)
  | .add, a, b => .ok (add a b)
  | .sub, a, b => .ok (sub a b)
  | .mul, a, b => .ok (mul a b)
  | .div, a, b => div a b

/-- The value of a built-in at a literal, if the built-in is valid and the value finite. -/
def foldedBuiltin? (b : Builtin K) (arg : Expr K) : Option K :=
  match arg, b.check with
  | .num x, .ok () =>
    let y := b.value x
    if Scalar.isFinite y then some y else none
  | _, _ => none

/-- What a logarithm is taken of. -/
def lnArgument? : Expr K → Option (Expr K)
  | .apply (.builtin .ln) [a] => some a
  | _ => none

/-- What an exponential is taken of. -/
def expArgument? : Expr K → Option (Expr K)
  | .apply (.builtin .exp) [a] => some a
  | _ => none

/-- The rules of the exponential of a product. -/
def expOfProduct? : Expr K → Option (Expr K)
  | .binary .mul a b =>
    match lnArgument? b with
    | some base => some (.power base a)
    | none => (lnArgument? a).map fun base => .power base b
  | _ => none

/-- The rules that remove a built-in together with the one below it. -/
def cancelled? : Builtin K → Expr K → Option (Expr K)
  | .exp, arg => (lnArgument? arg).or (expOfProduct? arg)
  | .ln, arg => expArgument? arg
  | _, _ => none

/-- The rules of an application. -/
def apply (f : Func K) (args : List (Expr K)) : Expr K :=
  match f, args with
  | .builtin b, [arg] =>
    match foldedBuiltin? b arg with
    | some y => .num y
    | none => (cancelled? b arg).getD (.apply f args)
  | f, args => .apply f args

end Rule

/-! ## The pass -/

mutual

/-- The expression after one pass of the rules; fails only on a literal division by zero. -/
def Expr.simplify : Expr K → Except (EvalError K) (Expr K)
  | .num v => .ok (.num v)
  | .var name => .ok (.var name)
  | .vec items => do
    let items ← Expr.simplifyList items
    return .vec items
  | .interval lo hi => do
    let lo ← lo.simplify
    let hi ← hi.simplify
    return .interval lo hi
  | .neg a => do
    let a ← a.simplify
    return Rule.neg a
  | .binary op a b => do
    let a ← a.simplify
    let b ← b.simplify
    Rule.binary op a b
  | .power base exponent => do
    let base ← base.simplify
    let exponent ← exponent.simplify
    return Rule.power base exponent
  | .apply f args => do
    let args ← Expr.simplifyList args
    return Rule.apply f args

/-- Every expression of a list after one pass of the rules. -/
def Expr.simplifyList : List (Expr K) → Except (EvalError K) (List (Expr K))
  | [] => .ok []
  | e :: es => do
    let e ← e.simplify
    let es ← Expr.simplifyList es
    return e :: es

end

end ZeroSet
