import ZeroSet.Decimal.Numeral
import ZeroSet.Scalar

/-!
# JSON trees

A JSON text denotes a tree of arrays and objects over numbers, strings and the three
words.  Numbers keep the digits they were written with and strings keep the code points
their escapes spell, lone surrogates included, so that a part of a text nobody asks for
may hold numbers of any size and strings of any content.

* `Json.Number` — a number by its digits; `Number.value?` is the scalar it stands for and
  `Number.natural?` the natural number, if it is written as one.
* `Json.Text` — a string by its code points; `Text.toString?` joins surrogate pairs.
-/

namespace ZeroSet

namespace Json

/-! ## Numbers -/

/-- A number by the digits it is written with. -/
structure Number where
  /-- Whether a minus sign stands in front. -/
  negative : Bool
  /-- The digits before the point. -/
  whole : List Char
  /-- The digits after the point; empty when there is no point. -/
  fraction : List Char
  /-- The exponent, if one is written. -/
  exponent : Option Int
deriving DecidableEq

namespace Number

/-- Reads digits as long as the number stays below `2 ^ 64`; the digits from the first one
that does not fit on are left over. -/
def absorb (n : Nat) : List Char → Nat × List Char
  | [] => (n, [])
  | c :: cs =>
    let next := 10 * n + (c.toNat - '0'.toNat)
    if next < twoPow 64 then absorb next cs else (n, c :: cs)

/-- The number as `significand · 10 ^ exponent` without its sign.  Whole digits that do not
fit the significand count as zeros, and fraction digits that do not fit are dropped. -/
def scientific (x : Number) : Nat × Int :=
  let whole := absorb 0 x.whole
  let all := absorb whole.1 x.fraction
  let read := x.fraction.length - all.2.length
  (all.1, x.exponent.getD 0 + (whole.2.length : Int) - (read : Int))

section

variable {K : Type} [Scalar K] [Decimal K]

/-- The scalar nearest to a power of ten. -/
def powerOfTen (n : Nat) : K := Decimal.nearest (.finite false 1 n)

/-- `x` divided by a power of ten, in steps of the largest power a float holds. -/
def divideByPowerOfTen (x : K) (n : Nat) : K :=
  if n ≤ 308 then x / powerOfTen n
  else if x == 0 then x
  else divideByPowerOfTen (x / powerOfTen 308) (n - 308)
termination_by n

/-- `x · 10 ^ exponent`, unless that is too large. -/
def shift? (x : K) : (exponent : Int) → Option K
  | .ofNat n =>
    if n ≤ 308 then
      let scaled := x * powerOfTen n
      if Scalar.isFinite scaled then some scaled else none
    else if x == 0 then some x
    else none
  | .negSucc n => some (divideByPowerOfTen x (n + 1))

/-- The scalar a number stands for: its significand, then the power of ten, then the sign.
A number that is too large has no value, and one that is too small is zero. -/
def value? (x : Number) : Option K :=
  let parts := x.scientific
  (shift? (Decimal.nearest (.finite false parts.1 0)) parts.2).map fun v =>
    if x.negative then -v else v

end

/-- The natural number up to `limit` that is written as plain digits without a sign. -/
def natural? (limit : Nat) (x : Number) : Option Nat :=
  if x.negative || !x.fraction.isEmpty || x.exponent.isSome then none
  else
    let n := Numeral.ofDigits x.whole
    if n ≤ limit then some n else none

/-- The number for a natural. -/
def ofNat (n : Nat) : Number := ⟨false, Nat.toDigits 10 n, [], none⟩

/-- A finite numeral as a number that is visibly not an integer: positional from `1e-5` up to
`1e16`, with an exponent outside that range. -/
def ofNumeral? : Numeral → Option Number
  | .nan => none
  | .infinite _ => none
  | .finite negative digits exponent =>
    let written := Nat.toDigits 10 digits
    let point : Int := written.length + exponent
    if point < -4 || 16 < point then
      some ⟨negative, written.take 1, written.drop 1, some (point - 1)⟩
    else if 0 ≤ exponent then
      some ⟨negative, written ++ List.replicate exponent.toNat '0', ['0'], none⟩
    else if 0 < point then
      some ⟨negative, written.take point.toNat, written.drop point.toNat, none⟩
    else
      some ⟨negative, ['0'], List.replicate (-point).toNat '0' ++ written, none⟩

end Number

/-! ## Strings -/

/-- A string by its code points; an escape may spell half of a surrogate pair. -/
abbrev Text := List Nat

namespace Text

/-- The code points of a string. -/
def ofString (s : String) : Text := s.toList.map Char.toNat

/-- Whether a code point is the first half of a surrogate pair. -/
def isHighSurrogate (c : Nat) : Bool := 0xD800 ≤ c && c < 0xDC00

/-- Whether a code point is the second half of a surrogate pair. -/
def isLowSurrogate (c : Nat) : Bool := 0xDC00 ≤ c && c < 0xE000

/-- The characters, with surrogate pairs joined; a lone half is no character. -/
def toChars? : Text → Option (List Char)
  | [] => some []
  | [c] =>
    if isHighSurrogate c || isLowSurrogate c then none else some [Char.ofNat c]
  | c :: d :: rest =>
    if isHighSurrogate c then
      if isLowSurrogate d then
        (toChars? rest).map (Char.ofNat (0x10000 + (c - 0xD800) * 0x400 + (d - 0xDC00)) :: ·)
      else none
    else if isLowSurrogate c then none
    else (toChars? (d :: rest)).map (Char.ofNat c :: ·)

/-- The string a text spells, if it holds no lone half of a surrogate pair. -/
def toString? (t : Text) : Option String := t.toChars?.map String.ofList

end Text

end Json

/-! ## Trees -/

/-- A JSON tree; the members of an object keep their order and may repeat a key. -/
inductive Json where
  /-- The word `null`. -/
  | null
  /-- The word `true` or `false`. -/
  | bool (b : Bool)
  /-- A number. -/
  | number (n : Json.Number)
  /-- A string. -/
  | string (t : Json.Text)
  /-- An array. -/
  | array (items : List Json)
  /-- An object. -/
  | object (members : List (Json.Text × Json))

namespace Json

/-- A string as a tree. -/
def ofString (s : String) : Json := .string (Text.ofString s)

/-- An object from its keys and values. -/
def record (members : List (String × Json)) : Json :=
  .object (members.map fun m => (Text.ofString m.1, m.2))

/-- A natural number as a tree. -/
def ofNat (n : Nat) : Json := .number (Number.ofNat n)

/-- A scalar by its shortest digits, an even last digit on a tie; what has no digits is
`null`. -/
def ofScalar {K : Type} [Decimal K] (x : K) : Json :=
  match Number.ofNumeral? (Decimal.shortest .toEven x) with
  | some n => .number n
  | none => .null

end Json

end ZeroSet
