import ZeroSet.Decimal.Numeral

/-!
# Shortest digits

A number that can only be stored to some precision stands for all the reals that round
to it.  `Window` describes that set by whole numbers over one denominator, and
`Window.shortest` looks for the decimal number with the fewest digits inside it: for
one digit, two digits and so on it tests the two neighbours of the value on that
decimal grid.  The first grid with a hit wins, and of two hits the nearer one.

If any point of a grid lies in the window, so does one of the value's two neighbours on
that grid, which is why looking at the neighbours is enough.
-/

namespace ZeroSet

/-- The numbers that round to `value / den`: those from `low / den` to `high / den`. -/
structure Window where
  /-- Numerator of the lower end. -/
  low : Nat
  /-- Numerator of the value itself. -/
  value : Nat
  /-- Numerator of the upper end. -/
  high : Nat
  /-- The common denominator. -/
  den : Nat
  /-- Whether the ends themselves round to the value. -/
  closed : Bool

namespace Window

/-- Numerators scaled so that grid points `c · 10 ^ exponent` become multiples of `den`. -/
def onGrid (w : Window) : (exponent : Int) → Window
  | .ofNat n => { w with den := w.den * tenPow n }
  | .negSucc n =>
    { w with
      low := w.low * tenPow (n + 1)
      value := w.value * tenPow (n + 1)
      high := w.high * tenPow (n + 1) }

/-- Whether the natural number `c` lies in the window. -/
def contains (w : Window) (c : Nat) : Bool :=
  if w.closed then w.low ≤ c * w.den && c * w.den ≤ w.high
  else w.low < c * w.den && c * w.den < w.high

/-- The natural number in the window nearest to the value, if one of its neighbours is. -/
def nearestNatural? (w : Window) (ties : Ties) : Option Nat :=
  let below := w.value / w.den
  match w.contains below, w.contains (below + 1) with
  | false, false => none
  | true, false => some below
  | false, true => some (below + 1)
  | true, true => some (divideRounding ties w.value w.den)

/-- The power of ten of the leading digit of a positive value. -/
def leadingPower (w : Window) : Int :=
  if w.den ≤ w.value then ((Nat.toDigits 10 (w.value / w.den)).length : Int) - 1
  else -((Nat.toDigits 10 ((w.den + w.value - 1) / w.value - 1)).length : Int)

/-- `digits · 10 ^ exponent` without the zeros at the end of `digits`. -/
def withoutTrailingZeros (digits : Nat) (exponent : Int) : Nat × Int :=
  if h : digits ≠ 0 ∧ digits % 10 = 0 then
    withoutTrailingZeros (digits / 10) (exponent + 1)
  else (digits, exponent)
termination_by digits
decreasing_by omega

/-- The fewest digits, at most `limit` of them, that denote a number in the window. -/
def shortest (w : Window) (ties : Ties) (limit : Nat) : Nat × Int :=
  let top := w.leadingPower
  let hit := (List.range limit).findSome? fun (n : Nat) =>
    let exponent := top - (n : Int)
    ((w.onGrid exponent).nearestNatural? ties).map fun digits => (digits, exponent)
  match hit with
  | some (digits, exponent) => withoutTrailingZeros digits exponent
  | none =>
    let exponent := top - limit
    let scaled := w.onGrid exponent
    withoutTrailingZeros (divideRounding ties scaled.value scaled.den) exponent

end Window

end ZeroSet
