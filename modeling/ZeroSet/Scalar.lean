/-!
# Scalars

The numbers the library computes with.  Every definition that does arithmetic is
stated over a `Scalar K`, so the same evaluator, differentiator and tracer run on
machine floats and can be read over an exact field.

* `Scalar` — the operations: field arithmetic, comparison, decimal literals, the
  transcendental functions behind the built-ins, and an upper bound on the number
  of times an interval has to be halved to become short.
* `Scalar.lesser`, `Scalar.greater` — minimum and maximum that skip a value that
  is not a number.
* `Scalar.isFinite`, `Scalar.isNaN`, `Scalar.naturalUpTo` — tests on a value.
-/

namespace ZeroSet

/-- The arithmetic of the library.  No law is assumed here: floats are an instance. -/
class Scalar (K : Type) extends Add K, Sub K, Mul K, Div K, Neg K, LE K, LT K, BEq K, Zero K,
    One K, OfScientific K where
  /-- The order is decided by comparing. -/
  decideLE : DecidableLE K
  /-- The strict order is decided by comparing. -/
  decideLT : DecidableLT K
  /-- A bound beyond every distance. -/
  infinity : K
  /-- The exponential function. -/
  exp : K → K
  /-- The natural logarithm. -/
  ln : K → K
  /-- The square root. -/
  sqrt : K → K
  /-- The power `base ^ exponent`. -/
  pow : K → K → K
  /-- Enough halvings to bring a cell of the given width below the given tolerance. -/
  halvings : (width tolerance : K) → Nat

attribute [reducible, instance] Scalar.decideLE Scalar.decideLT

namespace Scalar

variable {K : Type} [Scalar K]

/-- The scalar that a natural number stands for. -/
def ofNat (n : Nat) : K := OfScientific.ofScientific n false 0

/-- A value that differs from itself is not a number. -/
def isNaN (x : K) : Bool := !(x == x)

/-- A finite value cancels against itself. -/
def isFinite (x : K) : Bool := x - x == 0

/-- The smaller of two values; the other one if either is not a number. -/
def lesser (a b : K) : K := if a ≤ b || isNaN b then a else b

/-- The larger of two values; the other one if either is not a number. -/
def greater (a b : K) : K := if b ≤ a || isNaN b then a else b

/-- The distance from zero. -/
def abs (x : K) : K := if x < 0 then -x else x

/-- The natural number not above `limit` that equals `x`, if there is one. -/
def naturalUpTo (limit : Nat) (x : K) : Option Nat :=
  (List.range (limit + 1)).find? fun n => x == ofNat n

end Scalar

end ZeroSet
