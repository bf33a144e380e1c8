import ZeroSet.Expr.Basic

/-!
# Unrolling powers

Intervals have no power operator, but they have products.  `Expr.unrollPowers` replaces
every power whose exponent is a literal natural number up to `maxUnrolledPower` by a
product, in the expression and in the bodies of the functions it applies.
-/

namespace ZeroSet

/-- The largest exponent that is unrolled. -/
def maxUnrolledPower : Nat := 16

variable {K : Type} [Scalar K]

/-- The product of `n` equal factors, grouped to the left. -/
def Expr.repeatedProduct (factor : Expr K) : (n : Nat) → Expr K
  | 0 => .num 1
  | 1 => factor
  | n + 2 => factor.repeatedProduct (n + 1) * factor

/-- The natural number that an exponent stands for, if its power is to be unrolled. -/
def Expr.naturalExponent? (exponent : Expr K) : Option Nat :=
  exponent.asNumber?.bind (Scalar.naturalUpTo maxUnrolledPower)

mutual

/-- The expression with its literal natural powers written as products. -/
def Expr.unrollPowers : Expr K → Expr K
  | .num v => .num v
  | .var name => .var name
  | .vec items => .vec (Expr.unrollPowersList items)
  | .interval lo hi => .interval lo.unrollPowers hi.unrollPowers
  | .neg a => .neg a.unrollPowers
  | .binary op a b => .binary op a.unrollPowers b.unrollPowers
  | .power base exponent =>
    match exponent.naturalExponent? with
    | some n => base.unrollPowers.repeatedProduct n
    | none => .power base.unrollPowers exponent.unrollPowers
  | .apply f args => .apply f.unrollPowers (Expr.unrollPowersList args)

/-- Every expression of a list unrolled. -/
def Expr.unrollPowersList : List (Expr K) → List (Expr K)
  | [] => []
  | e :: es => e.unrollPowers :: Expr.unrollPowersList es

/-- The function with the powers in its bodies unrolled. -/
def Func.unrollPowers : Func K → Func K
  | .custom name params body => .custom name params body.unrollPowers
  | .comp inner outer => .comp inner.unrollPowers outer.unrollPowers
  | .builtin b => .builtin b

end

end ZeroSet
