import ZeroSet.Proofs.Exact

/-!
# Floats without rounding

The real numbers together with what machine floats have besides them: a second zero, two infinities
and a value that is not a number.  Finite arithmetic is exact.  Dividing by a zero gives an
infinity, the difference of an infinity from itself and its product with a zero are not a number,
and comparing what is not a number is always false.

* `Extended` — the values, which are a scalar.
* `Extended.value?` — where a value stands on the extended real line.
* `Extended.Is` — that a value is finite, and which number it is; the operations on such values.
* `Extended.one_div_zero`, `Extended.mul_infinite_of_pos` — how infinities come about and go on.
* `Extended.value?_lesser`, `Extended.value?_greater` — minima and maxima skip what is not a number.
-/

namespace ZeroSet

/-- A float without rounding. -/
inductive Extended where
  /-- A real number; zero is the positive zero. -/
  | number (x : ℝ)
  /-- The negative zero. -/
  | minusZero
  /-- An infinity. -/
  | infinite (negative : Bool)
  /-- Not a number. -/
  | nan

namespace Extended

noncomputable section

/-- Where a value stands on the extended real line; what is not a number stands nowhere. -/
def value? : Extended → Option EReal
  | number x => some x
  | minusZero => some 0
  | infinite negative => some (if negative then ⊥ else ⊤)
  | nan => none

/-- The number that a finite value is. -/
def real : Extended → ℝ
  | number x => x
  | _ => 0

/-- The sign bit. -/
def isNegative : Extended → Bool
  | number x => x < 0
  | minusZero => true
  | infinite negative => negative
  | nan => false

/-- A real number, and the sign it has if it is zero. -/
def signed (negative : Bool) (x : ℝ) : Extended :=
  if x = 0 ∧ negative then minusZero else number x

/-! ## Arithmetic -/

/-- The value of the other sign. -/
def opposite : Extended → Extended
  | number x => signed true (-x)
  | minusZero => number 0
  | infinite negative => infinite !negative
  | nan => nan

/-- A sum.  Infinities of different signs have none. -/
def sum : Extended → Extended → Extended
  | nan, _ => nan
  | _, nan => nan
  | infinite s, infinite t => if s = t then infinite s else nan
  | infinite s, _ => infinite s
  | _, infinite t => infinite t
  | minusZero, minusZero => minusZero
  | a, b => number (a.real + b.real)

/-- A product.  That of an infinity and a zero is not a number. -/
def product : Extended → Extended → Extended
  | nan, _ => nan
  | _, nan => nan
  | infinite s, b => if b.value? = some 0 then nan else infinite (s != b.isNegative)
  | a, infinite t => if a.value? = some 0 then nan else infinite (a.isNegative != t)
  | a, b => signed (a.isNegative != b.isNegative) (a.real * b.real)

/-- A quotient.  Dividing anything but zero by a zero gives an infinity. -/
def quotient : Extended → Extended → Extended
  | nan, _ => nan
  | _, nan => nan
  | infinite _, infinite _ => nan
  | infinite s, b => infinite (s != b.isNegative)
  | a, infinite t => signed (a.isNegative != t) 0
  | a, b =>
    if b.real = 0 then if a.real = 0 then nan else infinite (a.isNegative != b.isNegative)
    else signed (a.isNegative != b.isNegative) (a.real / b.real)

/-! ## Elementary functions -/

/-- The exponential function. -/
def exponential : Extended → Extended
  | number x => number (Real.exp x)
  | minusZero => number 1
  | infinite negative => if negative then number 0 else infinite false
  | nan => nan

/-- The logarithm, which is infinite at zero and not a number below it. -/
def logarithm : Extended → Extended
  | number x => if x < 0 then nan else if x = 0 then infinite true else number (Real.log x)
  | minusZero => infinite true
  | infinite negative => if negative then nan else infinite false
  | nan => nan

/-- The square root, which is not a number below zero. -/
def root : Extended → Extended
  | number x => if x < 0 then nan else number √x
  | minusZero => minusZero
  | infinite negative => if negative then nan else infinite false
  | nan => nan

/-- The odd whole numbers, the exponents for which the sign of the base matters. -/
def IsOdd (y : ℝ) : Prop := ∃ n : ℤ, Odd n ∧ y = n

open Classical in
/-- A power.  With the exponent zero or the base one it is one, whatever the other operand is. -/
def power (base exponent : Extended) : Extended :=
  if base.value? = some 1 ∨ exponent.value? = some 0 then number 1
  else match base, exponent with
    | nan, _ => nan
    | _, nan => nan
    | base, infinite negative =>
      -- it matters on which side of one the base is, apart from its sign
      let size : EReal := max (base.value?.getD 0) (-base.value?.getD 0)
      if size = 1 then number 1
      else if decide (size < 1) = negative then infinite false else number 0
    | infinite s, exponent =>
      let negative := s && decide (IsOdd exponent.real)
      if 0 < exponent.real then infinite negative else signed negative 0
    | base, exponent =>
      let negative := base.isNegative && decide (IsOdd exponent.real)
      if base.real = 0 then
        if 0 < exponent.real then signed negative 0 else infinite negative
      else if base.real < 0 ∧ ¬∃ n : ℤ, exponent.real = n then nan
      else number (base.real ^ exponent.real)

/-! ## The scalar -/

/-- Values that are numbers compare as on the extended real line, zeros of both signs alike. -/
instance : Scalar Extended where
  add := sum
  sub a b := sum a (opposite b)
  mul := product
  div := quotient
  neg := opposite
  zero := number 0
  one := number 1
  le a b := ∃ p ∈ a.value?, ∃ q ∈ b.value?, p ≤ q
  lt a b := ∃ p ∈ a.value?, ∃ q ∈ b.value?, p < q
  beq a b := decide (∃ p ∈ a.value?, p ∈ b.value?)
  ofScientific digits shrink places := number (Scalar.decimal digits shrink places)
  decideLE := Classical.decRel _
  decideLT := Classical.decRel _
  infinity := infinite false
  exp := exponential
  ln := logarithm
  sqrt := root
  pow := power
  halvings width tolerance := ⌈width.real / tolerance.real⌉₊

end

variable {a b : Extended} {x y : ℝ} {p q : EReal}

/-! ## Finite values -/

/-- The value is finite and is a real number. -/
def Is (a : Extended) (x : ℝ) : Prop := a.value? = some (x : EReal)

theorem is_iff : a.Is x ↔ a = number x ∨ a = minusZero ∧ x = 0 := by
  cases a with
  | number y => simp [Is, value?, eq_comm]
  | minusZero =>
    rw [Is, value?, Option.some_inj, ← EReal.coe_zero, EReal.coe_eq_coe_iff]
    simp [eq_comm]
  | infinite negative => cases negative <;> simp [Is, value?]
  | nan => simp [Is, value?]

theorem is_number (x : ℝ) : (number x).Is x := rfl

theorem Is.unique (hx : a.Is x) (hy : a.Is y) : x = y := by
  have h := hx.symm.trans hy
  simpa using h

theorem Is.eq_number (ha : a.Is x) (hx : x ≠ 0) : a = number x :=
  (is_iff.1 ha).resolve_right fun h => hx h.2

theorem is_signed (negative : Bool) (x : ℝ) : (signed negative x).Is x := by
  rw [signed, is_iff]
  split
  · rename_i h
    exact .inr ⟨rfl, h.1⟩
  · exact .inl rfl

theorem Is.neg (ha : a.Is x) : (-a).Is (-x) := by
  rcases is_iff.1 ha with rfl | ⟨rfl, rfl⟩
  · exact is_signed true (-x)
  · rw [neg_zero]
    exact is_number 0

theorem Is.add (ha : a.Is x) (hb : b.Is y) : (a + b).Is (x + y) := by
  rcases is_iff.1 ha with rfl | ⟨rfl, rfl⟩ <;> rcases is_iff.1 hb with rfl | ⟨rfl, rfl⟩
  · exact is_number (x + y)
  · exact is_number (x + 0)
  · exact is_number (0 + y)
  · rw [add_zero]
    exact ha

theorem Is.sub (ha : a.Is x) (hb : b.Is y) : (a - b).Is (x - y) := by
  rw [sub_eq_add_neg]
  exact ha.add hb.neg

theorem Is.mul (ha : a.Is x) (hb : b.Is y) : (a * b).Is (x * y) := by
  rcases is_iff.1 ha with rfl | ⟨rfl, rfl⟩ <;> rcases is_iff.1 hb with rfl | ⟨rfl, rfl⟩ <;>
    exact is_signed _ _

theorem Is.div (ha : a.Is x) (hb : b.Is y) (hy : y ≠ 0) : (a / b).Is (x / y) := by
  obtain rfl := hb.eq_number hy
  rcases is_iff.1 ha with rfl | ⟨rfl, rfl⟩
  · show (if y = 0 then _ else _ : Extended).Is _
    rw [if_neg hy]
    exact is_signed _ _
  · show (if y = 0 then _ else _ : Extended).Is _
    rw [if_neg hy]
    exact is_signed _ _

/-! ## Infinities -/

theorem value?_infinite (negative : Bool) :
    (infinite negative).value? = some (if negative then ⊥ else ⊤) := rfl

/-- One divided by a zero is the infinity with the sign of the zero. -/
theorem one_div_zero (hb : b.Is 0) : 1 / b = infinite b.isNegative := by
  show quotient (number 1) b = _
  rcases is_iff.1 hb with rfl | ⟨rfl, -⟩
  · simp [quotient, real, isNegative]
  · simp [quotient, real, isNegative]

theorem mul_infinite_of_pos (ha : a.Is x) (hx : 0 < x) (negative : Bool) :
    a * infinite negative = infinite negative := by
  obtain rfl := ha.eq_number hx.ne'
  show product (number x) (infinite negative) = _
  simp [product, value?, isNegative, hx.ne', not_lt.2 hx.le]

theorem mul_infinite_of_neg (ha : a.Is x) (hx : x < 0) (negative : Bool) :
    a * infinite negative = infinite !negative := by
  obtain rfl := ha.eq_number hx.ne
  show product (number x) (infinite negative) = _
  simp [product, value?, isNegative, hx, hx.ne]

/-- The product of a zero with an infinity is not a number. -/
theorem mul_infinite_of_zero (ha : a.Is 0) (negative : Bool) : a * infinite negative = nan := by
  show product a (infinite negative) = _
  rcases is_iff.1 ha with rfl | ⟨rfl, -⟩
  · simp [product, value?]
  · simp [product, value?]

/-! ## Comparisons -/

theorem le_iff (ha : a.value? = some p) (hb : b.value? = some q) : a ≤ b ↔ p ≤ q := by
  show (∃ p' ∈ a.value?, ∃ q' ∈ b.value?, p' ≤ q') ↔ _
  simp [ha, hb]

theorem lt_iff (ha : a.value? = some p) (hb : b.value? = some q) : a < b ↔ p < q := by
  show (∃ p' ∈ a.value?, ∃ q' ∈ b.value?, p' < q') ↔ _
  simp [ha, hb]

theorem beq_iff (ha : a.value? = some p) (hb : b.value? = some q) : (a == b) = true ↔ p = q := by
  show decide (∃ p' ∈ a.value?, p' ∈ b.value?) = true ↔ _
  simp [ha, hb, eq_comm]

theorem isNaN_iff : Scalar.isNaN a = true ↔ a.value? = none := by
  have hself : (a == a) = decide (∃ p ∈ a.value?, p ∈ a.value?) := rfl
  rw [Scalar.isNaN, hself]
  cases a.value? <;> simp

theorem not_le_of_value?_eq_none (h : a.value? = none ∨ b.value? = none) : ¬a ≤ b := by
  rintro ⟨p, hp, q, hq, -⟩
  rcases h with h | h
  · simp [h] at hp
  · simp [h] at hq

/-- A choice between two values takes the one that is a number, if the other one is not. -/
theorem value?_choice {f : EReal → EReal → EReal} {left : Bool}
    (hnone : a.value? = none → left = false)
    (hsome : ∀ p q, a.value? = some p → b.value? = some q → f p q = if left then p else q) :
    (if left || Scalar.isNaN b then a else b).value? = Option.merge f a.value? b.value? := by
  cases hb : b.value? with
  | none => rw [isNaN_iff.2 hb, Bool.or_true, if_pos rfl, Option.merge_none_right]
  | some q =>
    have hnumber : Scalar.isNaN b = false := by simp [← Bool.not_eq_true, isNaN_iff, hb]
    rw [hnumber, Bool.or_false]
    cases ha : a.value? with
    | none => rw [hnone ha, if_neg Bool.false_ne_true, hb, Option.merge_none_left]
    | some p =>
      rw [Option.merge_some_some, hsome p q ha hb]
      cases left
      · exact hb
      · exact ha

/-- The smaller of two values, or the one that is a number if the other one is not. -/
theorem value?_lesser (a b : Extended) :
    (Scalar.lesser a b).value? = Option.merge min a.value? b.value? := by
  refine value?_choice (fun h => decide_eq_false (not_le_of_value?_eq_none (.inl h)))
    fun p q ha hb => ?_
  simp only [decide_eq_true_iff, le_iff ha hb, min_def]

/-- The larger of two values, or the one that is a number if the other one is not. -/
theorem value?_greater (a b : Extended) :
    (Scalar.greater a b).value? = Option.merge max a.value? b.value? := by
  refine value?_choice (fun h => decide_eq_false (not_le_of_value?_eq_none (.inr h)))
    fun p q ha hb => ?_
  simp only [decide_eq_true_iff, le_iff hb ha, max_comm p q, max_def]

/-! ## Finite values told by their arithmetic -/

theorem exists_is_or (a : Extended) : (∃ x, a.Is x) ∨ (∃ s, a = infinite s) ∨ a = nan := by
  cases a with
  | number x => exact .inl ⟨x, rfl⟩
  | minusZero => exact .inl ⟨0, rfl⟩
  | infinite s => exact .inr (.inl ⟨s, rfl⟩)
  | nan => exact .inr (.inr rfl)

theorem not_is_infinite (s : Bool) (x : ℝ) : ¬(infinite s).Is x := by
  cases s <;> simp [Is, value?]

theorem not_is_nan (x : ℝ) : ¬nan.Is x := by
  simp [Is, value?]

/-- Nothing finite comes of adding to an infinity. -/
theorem not_is_infinite_add (s : Bool) (b : Extended) (x : ℝ) :
    ¬(infinite s + b).Is x ∧ ¬(b + infinite s).Is x := by
  show ¬(sum (infinite s) b).Is x ∧ ¬(sum b (infinite s)).Is x
  cases b with
  | number y => exact ⟨not_is_infinite s x, not_is_infinite s x⟩
  | minusZero => exact ⟨not_is_infinite s x, not_is_infinite s x⟩
  | infinite t => cases s <;> cases t <;> simp [sum, not_is_infinite, not_is_nan]
  | nan => exact ⟨not_is_nan x, not_is_nan x⟩

/-- Only finite values have a finite sum. -/
theorem Is.exists_of_add (h : (a + b).Is x) : (∃ y, a.Is y) ∧ ∃ y, b.Is y := by
  rcases exists_is_or a with ha | ⟨s, rfl⟩ | rfl
  · refine ⟨ha, ?_⟩
    rcases exists_is_or b with hb | ⟨s, rfl⟩ | rfl
    · exact hb
    · exact absurd h (not_is_infinite_add s a x).2
    · cases a <;> exact absurd h (not_is_nan x)
  · exact absurd h (not_is_infinite_add s b x).1
  · exact absurd h (not_is_nan x)

/-- Only finite values have a finite square. -/
theorem Is.exists_of_mul_self (h : (a * a).Is x) : ∃ y, a.Is y := by
  rcases exists_is_or a with ha | ⟨s, rfl⟩ | rfl
  · exact ha
  · have hsquare : infinite s * infinite s = infinite false := by
      show product (infinite s) (infinite s) = _
      cases s <;> simp [product, value?, isNegative]
    exact absurd (hsquare ▸ h) (not_is_infinite false x)
  · exact absurd h (not_is_nan x)

/-- The test for finite values does find them. -/
theorem isFinite_iff : Scalar.isFinite a = true ↔ ∃ x, a.Is x := by
  have hzero : (0 : Extended).value? = some 0 := rfl
  rw [Scalar.isFinite]
  constructor
  · intro h
    obtain ⟨p, hp, hq⟩ := of_decide_eq_true h
    rw [hzero] at hq
    cases hq
    exact (Is.exists_of_add (a := a) (b := opposite a) (x := 0) hp).1
  · rintro ⟨x, hx⟩
    have hdifference : (a - a).value? = some 0 := by
      have := hx.sub hx
      rwa [sub_self] at this
    exact (beq_iff hdifference hzero).2 rfl

end Extended

end ZeroSet
