import ZeroSet.Error

/-!
# Bare literals

Formulas are written with non-negative literals only: a negative number is the negation of
one.  Trees may hold any number.
-/

namespace ZeroSet

variable {K : Type} [Scalar K]

/-- The literal for a number that is not negative. -/
def Expr.literal (v : K) : Except (EvalError K) (Expr K) :=
  if Scalar.isNaN v || v < 0 then .error (.invalidConstruction (.negativeLiteral v))
  else .ok (.num v)

end ZeroSet
