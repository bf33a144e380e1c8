/-!
# Decimal numerals

A `Numeral` is a number as it is written: a sign, decimal digits and the power of
ten they are scaled by, or one of the values no digits stand for.  `Decimal K` ties
the scalars of `K` to numerals in both directions; how a numeral is laid out as text
is decided by `Numeral.plain` here and by the layouts of the formats that need one.

* `divideRounding` — the quotient of two naturals to the nearest natural.
* `Numeral.plain` — positional notation, never an exponent.
* `Numeral.parse?` — the numerals people type: signs, points, exponents, `inf`, `nan`.
-/

namespace ZeroSet

/-- The power `2 ^ n`, by which binary formats are measured. -/
def twoPow (n : Nat) : Nat := Nat.pow 2 n

/-- The power `10 ^ n`, by which numerals are scaled. -/
def tenPow (n : Nat) : Nat := Nat.pow 10 n

/-- Where a number exactly half way between two candidates goes. -/
inductive Ties where
  /-- To the candidate further from zero. -/
  | away
  /-- To the candidate whose last digit is even. -/
  | toEven
deriving DecidableEq

/-- `num / den` rounded to the nearest natural number. -/
def divideRounding (ties : Ties) (num den : Nat) : Nat :=
  let quotient := num / den
  let twice := 2 * (num % den)
  if twice < den then quotient
  else if den < twice then quotient + 1
  else match ties with
    | .away => quotient + 1
    | .toEven => quotient + quotient % 2

/-- A number in decimal notation; the finite ones stand for `digits · 10 ^ exponent`. -/
inductive Numeral where
  /-- Not a number. -/
  | nan
  /-- Beyond every finite number, on either side. -/
  | infinite (negative : Bool)
  /-- The number `digits · 10 ^ exponent`, negated if `negative`. -/
  | finite (negative : Bool) (digits : Nat) (exponent : Int)
deriving DecidableEq

/-- Scalars that can be written in decimal and read back. -/
class Decimal (K : Type) where
  /-- The fewest digits that read back as the scalar and, among those, the nearest. -/
  shortest : Ties → K → Numeral
  /-- The scalar to a number of decimal places, a half going to the even neighbour. -/
  rounded : (places : Nat) → K → Numeral
  /-- The scalar nearest to a numeral. -/
  nearest : Numeral → K

namespace Numeral

/-! ## Writing -/

/-- The minus sign of a negative number. -/
def sign (negative : Bool) : String := if negative then "-" else ""

/-- `text` filled up with leading zeros to `width` characters. -/
def padZeros (width : Nat) (text : String) : String :=
  String.ofList (List.replicate (width - text.length) '0') ++ text

/-- `digits · 10 ^ exponent` with a point before the fraction, if there is one. -/
def positional (digits : Nat) : Int → String
  | .ofNat n => Nat.repr (digits * tenPow n)
  | .negSucc n =>
    Nat.repr (digits / tenPow (n + 1)) ++ "." ++
      padZeros (n + 1) (Nat.repr (digits % tenPow (n + 1)))

/-- Positional notation: no exponent, and no point in a whole number. -/
def plain : Numeral → String
  | nan => "NaN"
  | infinite negative => sign negative ++ "inf"
  | finite negative digits exponent => sign negative ++ positional digits exponent

/-! ## Reading -/

/-- The natural number that a run of decimal digits stands for. -/
def ofDigits (digits : List Char) : Nat :=
  digits.foldl (fun n c => 10 * n + (c.toNat - '0'.toNat)) 0

/-- Whether a minus sign stands in front, and the text without its sign. -/
def splitSign : List Char → Bool × List Char
  | '-' :: rest => (true, rest)
  | '+' :: rest => (false, rest)
  | rest => (false, rest)

theorem length_splitSign_le (cs : List Char) : (splitSign cs).2.length ≤ cs.length := by
  unfold splitSign
  split <;> simp

/-- The integer that a run of digits stands for. -/
def signed (negative : Bool) (digits : List Char) : Int :=
  if negative then -(ofDigits digits : Int) else ofDigits digits

/-- The exponent part after its letter: an optional sign and at least one digit. -/
def parseExponent? (text : List Char) : Option Int :=
  let parts := splitSign text
  if parts.2.isEmpty || !parts.2.all Char.isDigit then none
  else some (signed parts.1 parts.2)

/-- Digits with a point anywhere among them, at least one digit, and an optional exponent. -/
def parseFinite? (negative : Bool) (text : List Char) : Option Numeral :=
  let whole := text.takeWhile Char.isDigit
  let rest := text.dropWhile Char.isDigit
  let fraction := match rest with
    | '.' :: more => more.takeWhile Char.isDigit
    | _ => []
  let tail := match rest with
    | '.' :: more => more.dropWhile Char.isDigit
    | _ => rest
  if whole.isEmpty && fraction.isEmpty then none
  else
    let scaled (exponent : Int) : Numeral :=
      finite negative (ofDigits (whole ++ fraction)) (exponent - fraction.length)
    match tail with
    | [] => some (scaled 0)
    | letter :: exponent =>
      if letter == 'e' || letter == 'E' then (parseExponent? exponent).map scaled else none

/-- A number without its sign: a finite one, or a word for an infinity or for not a number. -/
def parseUnsigned? (negative : Bool) (text : List Char) : Option Numeral :=
  let word := String.ofList (text.map Char.toLower)
  if word == "inf" || word == "infinity" then some (infinite negative)
  else if word == "nan" then some nan
  else parseFinite? negative text

/-- A number with an optional sign. -/
def parse? (text : String) : Option Numeral :=
  let parts := splitSign text.toList
  parseUnsigned? parts.1 parts.2

end Numeral

/-- The text of a scalar: its shortest digits in positional notation, a tie going up. -/
def Decimal.text {K : Type} [Decimal K] (x : K) : String :=
  (Decimal.shortest Ties.away x).plain

end ZeroSet
