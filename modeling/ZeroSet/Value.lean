import ZeroSet.Interval
import ZeroSet.Tuple

/-!
# Values

What an expression evaluates to, one kind of value for each mode, and what the operators do
to values of the same kind.
-/

namespace ZeroSet

/-- The result of an evaluation. -/
inductive Value (K : Type) where
  /-- A real number. -/
  | real (x : K)
  /-- A tuple of real numbers. -/
  | vector (t : Tuple K)
  /-- An interval of real numbers. -/
  | interval (a : Interval K)

namespace Value

variable {K : Type}

/-- The mode that produces values of this kind. -/
def mode : Value K → Mode
  | real _ => .real
  | vector _ => .vector
  | interval _ => .interval

/-- The number of a real value. -/
def asReal : Value K → Except (EvalError K) K
  | real x => .ok x
  | v => .error (.typeMismatch .real v.mode)

/-- The tuple of a vector value. -/
def asVector : Value K → Except (EvalError K) (Tuple K)
  | vector t => .ok t
  | v => .error (.typeMismatch .vector v.mode)

/-- The interval of an interval value. -/
def asInterval : Value K → Except (EvalError K) (Interval K)
  | interval a => .ok a
  | v => .error (.typeMismatch .interval v.mode)

/-- The literal that evaluates to the value in its own mode. -/
def toExpr : Value K → Expr K
  | real x => .num x
  | vector t => .vec (t.components.map .num)
  | interval a => .intervalOf a.lo a.hi

variable [Scalar K]

/-- The negated value. -/
def negate : Value K → Value K
  | real x => real (-x)
  | vector t => vector (t.map (- ·))
  | interval a => interval (-a)

end Value

/-! ## Operators on values -/

namespace BinOp

variable {K : Type} [Scalar K]

/-- An operator on real numbers. -/
def onReals : BinOp → K → K → Except (EvalError K) K
  | add, x, y => .ok (x + y)
  | sub, x, y => .ok (x - y)
  | mul, x, y => .ok (x * y)
  | div, x, y => if y == 0 then .error .divisionByZero else .ok (x / y)

/-- An operator on intervals. -/
def onIntervals : BinOp → Interval K → Interval K → Except (EvalError K) (Interval K)
  | add, a, b => .ok (a + b)
  | sub, a, b => .ok (a - b)
  | mul, a, b => .ok (a * b)
  | div, a, b => a.divide b

/-- An operator on tuples. -/
def onTuples : BinOp → Tuple K → Tuple K → Except (EvalError K) (Tuple K)
  | add, t, u => t.zipWith (· + ·) u
  | sub, t, u => t.zipWith (· - ·) u
  | mul, t, u => t.times u
  | div, t, u => t.divide u

/-- An operator on two values of the same kind. -/
def onValues (op : BinOp) : Value K → Value K → Except (EvalError K) (Value K)
  | .real x, .real y => (op.onReals x y).map .real
  | .interval a, .interval b => (op.onIntervals a b).map .interval
  | .vector t, .vector u => (op.onTuples t u).map .vector
  | v, w => .error (.typeMismatch v.mode w.mode)

end BinOp

/-- The place of an interval relative to a value, which has to be an interval too. -/
def Interval.compareValue {K : Type} [Scalar K] (a : Interval K) :
    Value K → Except (EvalError K) (Option Ordering)
  | .interval b => .ok (a.compare? b)
  | v => .error (.typeMismatch .interval v.mode)

end ZeroSet
