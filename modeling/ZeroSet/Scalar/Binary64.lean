import ZeroSet.Scalar
import ZeroSet.Decimal.Shortest

/-!
# Binary64 floats as scalars

`Float` with its own operations is a `Scalar`, and its bit patterns make it a `Decimal`:
a pattern is taken apart into a sign, a mantissa and a power of two, and everything
about digits is then exact arithmetic on natural numbers.

* `Binary64.parts` — the value a bit pattern stands for.
* `Binary64.window` — the reals that round to a positive float.
* `Binary64.ofRatio` — the float nearest to a quotient of naturals.
-/

namespace ZeroSet

instance : Scalar Float where
  zero := 0
  one := 1
  decideLE := inferInstance
  decideLT := inferInstance
  infinity := 1.0 / 0.0
  exp := Float.exp
  ln := Float.log
  sqrt := Float.sqrt
  pow := Float.pow
  -- from the largest float down to the smallest takes 2098 halvings
  halvings _ _ := 2200

namespace Binary64

/-! ## Taking floats apart -/

/-- What a bit pattern stands for. -/
inductive Parts where
  /-- Not a number. -/
  | nan
  /-- An infinity. -/
  | infinite (negative : Bool)
  /-- The number `mantissa · 2 ^ exponent`. -/
  | finite (negative : Bool) (mantissa : Nat) (exponent : Int)

/-- One sign bit, eleven exponent bits and fifty-two mantissa bits. -/
def parts (x : Float) : Parts :=
  let bits := x.toBits.toNat
  let negative := bits / twoPow 63 == 1
  let field : Nat := bits / twoPow 52 % twoPow 11
  let fraction : Nat := bits % twoPow 52
  if field == 2047 then if fraction == 0 then .infinite negative else .nan
  else if field == 0 then .finite negative fraction (-1074)
  else .finite negative (twoPow 52 + fraction) ((field : Int) - 1075)

/-- `n · 2 ^ exponent` as a quotient of naturals. -/
def ratio (n : Nat) : (exponent : Int) → Nat × Nat
  | .ofNat e => (n * twoPow e, 1)
  | .negSucc e => (n, twoPow (e + 1))

/-- The numbers nearer to `mantissa · 2 ^ exponent` than to its neighbours.  Below a power
of two the neighbour is only half as far away.  The ends belong to an even mantissa. -/
def window (mantissa : Nat) (exponent : Int) : Window :=
  let unit := ratio 1 (exponent - 2)
  let gap := if mantissa == twoPow 52 && exponent != -1074 then 1 else 2
  { low := (4 * mantissa - gap) * unit.1
    value := 4 * mantissa * unit.1
    high := (4 * mantissa + 2) * unit.1
    den := unit.2
    closed := mantissa % 2 == 0 }

/-- The shortest digits of a float; seventeen always suffice. -/
def shortest (ties : Ties) (x : Float) : Numeral :=
  match parts x with
  | .nan => .nan
  | .infinite negative => .infinite negative
  | .finite negative 0 _ => .finite negative 0 0
  | .finite negative mantissa exponent =>
    let found := (window mantissa exponent).shortest ties 17
    .finite negative found.1 found.2

/-- The exact value to a number of decimal places. -/
def rounded (places : Nat) (x : Float) : Numeral :=
  match parts x with
  | .nan => .nan
  | .infinite negative => .infinite negative
  | .finite negative mantissa exponent =>
    let value := ratio mantissa exponent
    .finite negative (divideRounding .toEven (value.1 * tenPow places) value.2) (-(places : Int))

/-! ## Putting floats together -/

/-- The power of two at which `num / den` has a mantissa of 53 bits, but no less than the
smallest one there is. -/
def exponentFor (num den : Nat) : Int :=
  let guess : Int := (Nat.log2 num : Int) - (Nat.log2 den : Int) - 52
  -- `num / den` lies between `2 ^ (guess + 51)` and `2 ^ (guess + 53)`
  let scaled := ratio den (guess + 52)
  let exponent := if num * scaled.2 < scaled.1 then guess - 1 else guess
  max exponent (-1074)

/-- The bit pattern of the float nearest to a positive quotient. -/
def bitsOfRatio (num den : Nat) : Nat :=
  let exponent := exponentFor num den
  let scaled := ratio den exponent
  let mantissa := divideRounding .toEven (num * scaled.2) scaled.1
  -- a mantissa rounded up to 54 bits carries into the exponent field by itself
  let bits := (exponent + 1074).toNat * twoPow 52 + mantissa
  min bits (2047 * twoPow 52)

/-- The float nearest to a quotient of naturals. -/
def ofRatio (negative : Bool) (num den : Nat) : Float :=
  let bits := if num == 0 then 0 else bitsOfRatio num den
  Float.ofBits (UInt64.ofNat (if negative then twoPow 63 + bits else bits))

/-- The float nearest to a numeral.  Numbers from `10 ^ 310` on are infinite and those up
to `10 ^ (-326)` are zero, which keeps the powers of ten small. -/
def nearest : Numeral → Float
  | .nan => 0.0 / 0.0
  | .infinite negative => if negative then -1.0 / 0.0 else 1.0 / 0.0
  | .finite negative digits exponent =>
    let size := exponent + (Nat.toDigits 10 digits).length
    if digits == 0 || size < -325 then ofRatio negative 0 1
    else if 311 < size then if negative then -1.0 / 0.0 else 1.0 / 0.0
    else match exponent with
      | .ofNat e => ofRatio negative (digits * tenPow e) 1
      | .negSucc e => ofRatio negative digits (tenPow (e + 1))

end Binary64

instance : Decimal Float where
  shortest := Binary64.shortest
  rounded := Binary64.rounded
  nearest := Binary64.nearest

end ZeroSet
