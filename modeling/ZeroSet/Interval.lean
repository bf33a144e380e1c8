import ZeroSet.Error

/-!
# Intervals

Closed intervals of scalars.  Every operator returns an interval that holds `x ∘ y` for
all `x` in the left operand and `y` in the right one; a product takes the extremes of the
four products of bounds, and a quotient is the product with the reciprocal, which does not
exist around zero.

Intervals are compared bound by bound, which is a partial order: two intervals are
incomparable when one of them reaches further on both sides.
-/

namespace ZeroSet

/-- The numbers from `lo` to `hi`. -/
structure Interval (K : Type) where
  /-- Lower bound. -/
  lo : K
  /-- Upper bound. -/
  hi : K

namespace Interval

variable {K : Type} [Scalar K]

/-! ## Building intervals -/

/-- The interval with the given bounds, which have to be in order. -/
def ofBounds (lo hi : K) : Except (EvalError K) (Interval K) :=
  if lo ≤ hi then .ok ⟨lo, hi⟩ else .error (.invalidConstruction (.boundsOutOfOrder lo hi))

/-- The interval that holds one number. -/
def point (x : K) : Interval K := ⟨x, x⟩

instance : Zero (Interval K) := ⟨point 0⟩

/-- Intervals are equal when their bounds are equal numbers. -/
instance : BEq (Interval K) := ⟨fun a b => a.lo == b.lo && a.hi == b.hi⟩

/-! ## Measures and tests -/

/-- The distance between the bounds. -/
def length (a : Interval K) : K := a.hi - a.lo

/-- The number half way between the bounds. -/
def midpoint (a : Interval K) : K := a.lo + 0.5 * (a.hi - a.lo)

/-- The half below the midpoint. -/
def lowerHalf (a : Interval K) : Interval K := ⟨a.lo, a.midpoint⟩

/-- The half above the midpoint. -/
def upperHalf (a : Interval K) : Interval K := ⟨a.midpoint, a.hi⟩

/-- Whether zero lies in the interval. -/
def containsZero (a : Interval K) : Bool := a.lo ≤ 0 && 0 ≤ a.hi

/-- Whether a number lies in the interval. -/
def contains (a : Interval K) (x : K) : Bool := a.lo ≤ x && x ≤ a.hi

/-- Whether `b` lies inside `a`. -/
def includes (a b : Interval K) : Bool := a.lo ≤ b.lo && b.hi ≤ a.hi

/-! ## Arithmetic -/

instance : Add (Interval K) := ⟨fun a b => ⟨a.lo + b.lo, a.hi + b.hi⟩⟩
instance : Sub (Interval K) := ⟨fun a b => ⟨a.lo - b.hi, a.hi - b.lo⟩⟩
instance : Neg (Interval K) := ⟨fun a => ⟨-a.hi, -a.lo⟩⟩

/-- The extremes of the four products of bounds. -/
instance : Mul (Interval K) := ⟨fun a b =>
  let p := a.lo * b.lo
  let q := a.lo * b.hi
  let r := a.hi * b.lo
  let s := a.hi * b.hi
  { lo := Scalar.lesser (Scalar.lesser (Scalar.lesser p q) r) s
    hi := Scalar.greater (Scalar.greater (Scalar.greater p q) r) s }⟩

/-- The reciprocals of the numbers in the interval, which must not hold zero. -/
def inverse (a : Interval K) : Except (EvalError K) (Interval K) :=
  if a.containsZero then .error .divisionByZero else .ok ⟨1 / a.hi, 1 / a.lo⟩

/-- The quotients of the numbers in two intervals; the divisor must not hold zero. -/
def divide (a b : Interval K) : Except (EvalError K) (Interval K) := do
  let inverse ← b.inverse
  return a * inverse

/-! ## Order -/

/-- The greatest interval below both under the order of bounds. -/
def meet (a b : Interval K) : Interval K := ⟨Scalar.lesser a.lo b.lo, Scalar.lesser a.hi b.hi⟩

/-- The least interval above both under the order of bounds. -/
def join (a b : Interval K) : Interval K :=
  ⟨Scalar.greater a.lo b.lo, Scalar.greater a.hi b.hi⟩

/-- Whether both bounds are strictly below those of `b`. -/
def isBelow (a b : Interval K) : Bool := a.lo < b.lo && a.hi < b.hi

/-- Whether no bound is above that of `b`. -/
def isAtMost (a b : Interval K) : Bool := a.lo ≤ b.lo && a.hi ≤ b.hi

/-- The place of `a` relative to `b`, unless they are incomparable. -/
def compare? (a b : Interval K) : Option Ordering :=
  if a == b then some .eq
  else if a.isAtMost b then some .lt
  else if b.isAtMost a then some .gt
  else none

/-- The bounds in brackets. -/
def text [Decimal K] (a : Interval K) : String :=
  "[" ++ Decimal.text a.lo ++ ", " ++ Decimal.text a.hi ++ "]"

end Interval

end ZeroSet
