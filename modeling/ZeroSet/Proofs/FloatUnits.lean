import ZeroSet.Proofs.FloatArithmetic
import ZeroSet.Proofs.FloatGrid

/-!
# Machine floats on their grid

A finite float is a whole number of units, with a sign, and nothing else about it matters: sums,
differences and halves of floats are those of their units, rounded to the grid, and floats are in
the order of their units.

* `UnpackedFloat.roundedMantissa_shiftRight` — guard bits round a quotient.
* `UnpackedFloat.Measures` — how many units the parts of a float stand for.
* `UnpackedFloat.measures_round` — rounding goes to the grid.
* `Binary64.Units` — how many units a float is.
* `Binary64.Units.add`, `Binary64.Units.sub`, `Binary64.Units.half_mul` — arithmetic on units.
* `Binary64.Units.lt_iff`, `Binary64.Units.le_iff` — the order of floats.
* `Binary64.exists_units_of_le`, `Binary64.exists_of_onGrid` — which numbers of units there are.
-/

namespace ZeroSet

open Float.Model Binary64

namespace UnpackedFloat

/-! ## Guard bits -/

/-- What is shifted out is kept in two bits: whether it is half of a unit or more, and whether it is
neither nothing nor half of a unit. -/
theorem shiftRight_eq (m k : ℕ) :
    (⟨m, false, false⟩ : UnpackedFloat.ExtendedMantissa) >>> k =
      ⟨m / 2 ^ k, decide (2 ^ k ≤ 2 * (m % 2 ^ k)),
        decide (2 * (m % 2 ^ k) ≠ 0 ∧ 2 * (m % 2 ^ k) ≠ 2 ^ k)⟩ := by
  show k.repeat UnpackedFloat.ExtendedMantissa.shiftRightOne _ = _
  induction k with
  | zero => simp [Nat.repeat, Nat.mod_one]
  | succ k ih =>
    have hpos := Nat.two_pow_pos k
    have hlt := Nat.mod_lt m hpos
    have hdigit := Nat.mod_two_eq_zero_or_one (m / 2 ^ k)
    rw [Nat.repeat, ih, UnpackedFloat.ExtendedMantissa.shiftRightOne, Nat.mod_pow_succ, pow_succ,
      ← Nat.div_div_eq_div_mul]
    congr 1
    · rcases hdigit with h | h <;> rw [h] <;> simp <;> omega
    · rcases hdigit with h | h <;> rw [h, ← Bool.decide_or, decide_eq_decide] <;> omega

/-- Two bits are enough to round. -/
theorem roundedMantissa_shiftRight (m k : ℕ) :
    ((⟨m, false, false⟩ : UnpackedFloat.ExtendedMantissa) >>> k).roundedMantissa =
      divideRounding .toEven m (2 ^ k) := by
  have hpos := Nat.two_pow_pos k
  rw [shiftRight_eq, divideRounding]
  rcases lt_trichotomy (2 * (m % 2 ^ k)) (2 ^ k) with hlt | heq | hgt
  · rw [if_pos hlt, decide_eq_false (not_le.2 hlt)]
    cases decide (2 * (m % 2 ^ k) ≠ 0 ∧ 2 * (m % 2 ^ k) ≠ 2 ^ k) <;> rfl
  · rw [if_neg heq.not_lt, if_neg heq.not_gt, decide_eq_true heq.ge,
      decide_eq_false fun h => h.2 heq]
    rfl
  · rw [if_neg hgt.not_gt, if_pos hgt, decide_eq_true hgt.le,
      decide_eq_true ⟨(hpos.trans hgt).ne', hgt.ne'⟩]
    rfl

/-! ## Parts as units -/

/-- The units that the parts of a float stand for. -/
inductive Measures : UnpackedFloat → ℤ → Prop
  /-- A zero. -/
  | zero (s : UnpackedFloat.Sign) : Measures (.zero s) 0
  /-- A mantissa that counts gaps of the grid. -/
  | finite (s : UnpackedFloat.Sign) {m k : ℕ} (hm : 0 < m) (hk : (2 ^ k * m).log2 - 52 = k) :
    Measures (.finite s m (k - 1074) hm) (s.apply (2 ^ k * m : ℕ))

variable {m k : ℕ} {a b : UnpackedFloat} {x y : ℤ}

/-- The exponent that the format wants is that of the gap. -/
theorem isTarget_iff (hm : m ≠ 0) :
    IsTarget .binary64 m (k - 1074) ↔ (2 ^ k * m).log2 - 52 = k := by
  rw [IsTarget, targetExponent_eq, totalExponent, log2_two_pow_mul hm]
  omega

theorem spacing_two_pow_mul (hk : (2 ^ k * m).log2 - 52 = k) : spacing (2 ^ k * m) = 2 ^ k := by
  rw [spacing, hk]

theorem natAbs_apply (s : UnpackedFloat.Sign) (n : ℕ) : (s.apply n).natAbs = n := by
  cases s
  · exact Int.natAbs_neg _
  · rfl

/-- What the parts of a float stand for is on the grid. -/
theorem Measures.onGrid (h : Measures a x) : OnGrid x.natAbs := by
  cases h with
  | zero s => exact onGrid_zero
  | @finite s m k hm hk =>
    rw [natAbs_apply, OnGrid, spacing_two_pow_mul hk]
    exact dvd_mul_right _ _

theorem Measures.neg (h : Measures a x) : Measures a.neg (-x) := by
  cases h with
  | zero s => exact .zero (-s)
  | finite s hm hk =>
    cases s
    · rw [UnpackedFloat.Sign.apply, Int.neg_neg]
      exact .finite .positive hm hk
    · exact .finite .negative hm hk

/-! ## Rounding -/

/-- The last step of rounding makes sure that there are not too many digits, and changes no
number. -/
theorem measures_shiftToTargetExponent (s : UnpackedFloat.Sign) {r t : ℕ} (hr : r ≤ 2 ^ 53)
    (hfull : t = 0 ∨ 2 ^ 52 ≤ r) :
    Measures (match UnpackedFloat.shiftToTargetExponent .binary64 r (t - 1074) .exact with
      | (em, e) => if h : em.mantissa = 0 then UnpackedFloat.zero s
        else .finite s em.mantissa e (Nat.pos_of_ne_zero h)) (s.apply (2 ^ t * r : ℕ)) := by
  rcases Nat.eq_zero_or_pos r with rfl | hpos
  · obtain rfl : t = 0 := by omega
    cases s <;> exact .zero _
  · rcases hr.eq_or_lt with rfl | hlt
    · -- one digit too many
      have hk : (2 ^ (t + 1) * 2 ^ 52).log2 - 52 = t + 1 := by
        rw [← pow_add, Nat.log2_two_pow]
        omega
      have hexponent : ((t + 1 : ℕ) - 1074 : ℤ) - (1 : ℕ) = t - 1074 := by omega
      have hshift := shiftToTargetExponent_two_pow_mul (by norm_num)
        ((isTarget_iff (by norm_num)).2 hk) 1
      rw [hexponent] at hshift
      have hsame : 2 ^ t * 2 ^ 53 = 2 ^ (t + 1) * 2 ^ 52 := by
        rw [← pow_add, ← pow_add]
      rw [hsame, show (2 : ℕ) ^ 53 = 2 ^ 1 * 2 ^ 52 from rfl, hshift]
      exact .finite s (by norm_num) hk
    · have hlog : r.log2 < 53 := (Nat.log2_lt hpos.ne').2 hlt
      have hk : (2 ^ t * r).log2 - 52 = t := by
        rw [log2_two_pow_mul hpos.ne']
        rcases hfull with rfl | hfull
        · omega
        · have := (Nat.le_log2 hpos.ne').2 hfull
          omega
      have hshift := shiftToTargetExponent_two_pow_mul hpos.ne' ((isTarget_iff hpos.ne').2 hk) 0
      rw [pow_zero, Nat.one_mul, Nat.cast_zero, Int.sub_zero] at hshift
      rw [hshift]
      dsimp only
      rw [dif_neg hpos.ne']
      exact .finite s hpos hk

/-- A number of `2 ^ i`-ths of units is rounded to a multiple of the gap. -/
theorem measures_roundWithAccuracy (s : UnpackedFloat.Sign) {i t : ℕ}
    (ht : m.log2 + k - (52 + i) = t) (hk : k ≤ t + i) :
    Measures (UnpackedFloat.roundWithAccuracy .binary64 s m (k - i - 1074) .exact)
      (s.apply (2 ^ t * divideRounding .toEven m (2 ^ (t + i - k)) : ℕ)) := by
  have htarget : Format.binary64.targetExponent (totalExponent m (k - i - 1074)) = t - 1074 := by
    rw [targetExponent_eq, totalExponent]
    omega
  have hamount : ((t - 1074 : ℤ) - (k - i - 1074)).toNat = t + i - k := by omega
  have hshift : UnpackedFloat.shiftToTargetExponent .binary64 m (k - i - 1074) .exact =
      ((⟨m, false, false⟩ : UnpackedFloat.ExtendedMantissa) >>> (t + i - k), (t - 1074 : ℤ)) := by
    rw [UnpackedFloat.shiftToTargetExponent, htarget, UnpackedFloat.shiftToExponent, hamount]
    refine Prod.ext rfl ?_
    dsimp only
    omega
  have hdigits : m ≤ 2 ^ 53 * 2 ^ (t + i - k) := by
    rw [← pow_add]
    exact Nat.lt_log2_self.le.trans (Nat.pow_le_pow_right Nat.two_pos (by omega))
  have hfull : t = 0 ∨ 2 ^ 52 * 2 ^ (t + i - k) ≤ m := by
    refine (Nat.eq_zero_or_pos t).imp_right fun hpos => ?_
    have hm : m ≠ 0 := by
      rintro rfl
      rw [Nat.log2_zero] at ht
      omega
    rw [← pow_add, ← Nat.le_log2 hm]
    omega
  rw [UnpackedFloat.roundWithAccuracy, hshift]
  dsimp only
  rw [roundedMantissa_shiftRight]
  exact measures_shiftToTargetExponent s (divideRounding_le hdigits (Nat.two_pow_pos _))
    (hfull.imp_right fun h => le_divideRounding h (Nat.two_pow_pos _))

/-- A number of units is rounded to the grid. -/
theorem measures_round (s : UnpackedFloat.Sign) (hm : m ≠ 0) (k : ℕ) :
    Measures (UnpackedFloat.round .binary64 s m (k - 1074)) (s.apply (toGrid (2 ^ k * m) : ℕ)) := by
  obtain ⟨t, ht⟩ : ∃ t, m.log2 + k - 52 = t := ⟨_, rfl⟩
  have htarget : Format.binary64.targetExponent (totalExponent m (k - 1074)) = t - 1074 := by
    rw [targetExponent_eq, totalExponent]
    omega
  have hamount : ((k - 1074 : ℤ) - (t - 1074)).toNat = k - t := by omega
  have hspacing : spacing (2 ^ k * m) = 2 ^ t := by
    rw [spacing, log2_two_pow_mul hm, Nat.add_comm, ht]
  -- the mantissa gets `j` digits more, which takes the exponent down to `i`
  obtain ⟨j, hj⟩ : ∃ j, k - t = j := ⟨_, rfl⟩
  obtain ⟨i, rfl⟩ : ∃ i, k = i + j := ⟨k - j, by omega⟩
  obtain ⟨d, rfl⟩ : ∃ d, t = i + d := ⟨t - i, by omega⟩
  have hexponent : ((i + j : ℕ) - 1074 : ℤ) - j = i - (0 : ℕ) - 1074 := by omega
  have hround := measures_roundWithAccuracy (m := 2 ^ j * m) (k := i) (i := 0) (t := i + d) s
    (by rw [log2_two_pow_mul hm]; omega) (by omega)
  have hquotient : divideRounding .toEven (2 ^ (i + j) * m) (2 ^ (i + d)) =
      divideRounding .toEven (2 ^ j * m) (2 ^ d) := by
    rw [pow_add, pow_add, Nat.mul_assoc, divideRounding_mul_mul _ _ _ (Nat.two_pow_pos i)]
  rw [UnpackedFloat.round, htarget, UnpackedFloat.decreaseExponent, hamount, hj, hexponent,
    Nat.shiftLeft_eq, Nat.mul_comm m, toGrid, hspacing, Nat.mul_comm _ (2 ^ (i + d)), hquotient]
  rwa [Nat.add_zero, Nat.add_sub_cancel_left] at hround

end UnpackedFloat

namespace Binary64

/-! ## Units on either side of zero -/

/-- The number of units that is nearest to so many of them, on either side of zero. -/
def roundUnits (z : ℤ) : ℤ := z.sign * toGrid z.natAbs

theorem roundUnits_natCast (n : ℕ) : roundUnits n = toGrid n := by
  rcases Nat.eq_zero_or_pos n with rfl | hn
  · rfl
  · rw [roundUnits, Int.sign_natCast_of_ne_zero hn.ne', Int.one_mul, Int.natAbs_natCast]

theorem roundUnits_neg (z : ℤ) : roundUnits (-z) = -roundUnits z := by
  rw [roundUnits, roundUnits, Int.sign_neg, Int.natAbs_neg, Int.neg_mul]

theorem roundUnits_of_onGrid {z : ℤ} (h : OnGrid z.natAbs) : roundUnits z = z := by
  rw [roundUnits, toGrid_of_onGrid h, Int.sign_mul_natAbs]

/-- Half of so many units, on either side of zero. -/
def halfUnits (z : ℤ) : ℤ := z.sign * half z.natAbs

theorem halfUnits_natCast (n : ℕ) : halfUnits n = half n := by
  rcases Nat.eq_zero_or_pos n with rfl | hn
  · rfl
  · rw [halfUnits, Int.sign_natCast_of_ne_zero hn.ne', Int.one_mul, Int.natAbs_natCast]

theorem halfUnits_neg (z : ℤ) : halfUnits (-z) = -halfUnits z := by
  rw [halfUnits, halfUnits, Int.sign_neg, Int.natAbs_neg, Int.neg_mul]

theorem natAbs_halfUnits_le (z : ℤ) : (halfUnits z).natAbs ≤ z.natAbs := by
  have hhalf := half_error z.natAbs
  rw [halfUnits, Int.natAbs_mul, Int.natAbs_natCast, Int.natAbs_sign]
  split
  · omega
  · omega

/-- So many units are too large a number for a float. -/
def overflow : ℕ := 2 ^ 2098

theorem overflow_pos : 0 < overflow := by
  unfold overflow
  positivity

end Binary64

namespace UnpackedFloat

variable {m k : ℕ} {a b : UnpackedFloat} {x y : ℤ}

/-! ## Arithmetic -/

theorem measures_normalize (z : ℤ) (k : ℕ) (s : UnpackedFloat.Sign) :
    Measures (UnpackedFloat.normalize .binary64 z (k - 1074) s) (roundUnits (2 ^ k * z)) := by
  rcases lt_trichotomy z 0 with hneg | rfl | hpos
  · obtain ⟨n, rfl⟩ := Int.exists_eq_neg_ofNat hneg.le
    have hround := measures_round .negative (m := n) (by omega) k
    have hunits : roundUnits (2 ^ k * -(n : ℤ)) = -(toGrid (2 ^ k * n) : ℕ) := by
      rw [Int.mul_neg, roundUnits_neg, ← roundUnits_natCast]
      push_cast
      rfl
    rw [UnpackedFloat.normalize, Int.compare_eq_lt.2 hneg, hunits, Int.neg_neg, Int.toNat_natCast]
    exact hround
  · rw [Int.mul_zero]
    exact .zero s
  · obtain ⟨n, rfl⟩ := Int.eq_ofNat_of_zero_le hpos.le
    have hround := measures_round .positive (m := n) (by omega) k
    have hunits : roundUnits (2 ^ k * (n : ℤ)) = (toGrid (2 ^ k * n) : ℕ) := by
      rw [← roundUnits_natCast]
      push_cast
      rfl
    rw [UnpackedFloat.normalize, Int.compare_eq_gt.2 hpos, hunits, Int.toNat_natCast]
    exact hround

/-- A mantissa at a smaller exponent. -/
theorem two_pow_mul_apply_shiftLeft (s : UnpackedFloat.Sign) (m : ℕ) {i k : ℕ} (hik : i ≤ k) :
    (2 ^ i : ℤ) * s.apply (m <<< (k - i) : ℕ) = s.apply (2 ^ k * m : ℕ) := by
  have hpow : 2 ^ i * (m <<< (k - i)) = 2 ^ k * m := by
    rw [Nat.shiftLeft_eq, Nat.mul_comm m, ← Nat.mul_assoc, ← pow_add, Nat.add_sub_cancel' hik]
  rw [← hpow]
  cases s <;> simp [UnpackedFloat.Sign.apply]

/-- The sum of floats is the rounded sum of their units. -/
theorem Measures.add (ha : Measures a x) (hb : Measures b y) :
    Measures (UnpackedFloat.add .binary64 a b) (roundUnits (x + y)) := by
  have hx := roundUnits_of_onGrid ha.onGrid
  have hy := roundUnits_of_onGrid hb.onGrid
  cases ha with
  | zero s =>
    cases hb with
    | zero t => cases s <;> cases t <;> exact .zero _
    | finite t hn hl =>
      rw [Int.zero_add, hy]
      exact .finite t hn hl
  | @finite s m k hm hk =>
    cases hb with
    | zero t =>
      rw [Int.add_zero, hx]
      exact .finite s hm hk
    | @finite t n l hn hl =>
      obtain ⟨i, hi⟩ : ∃ i, min k l = i := ⟨_, rfl⟩
      have hmin : min (k - 1074 : ℤ) (l - 1074) = i - 1074 := by omega
      have hfirst : ((k - 1074 : ℤ) - (i - 1074)).toNat = k - i := by omega
      have hsecond : ((l - 1074 : ℤ) - (i - 1074)).toNat = l - i := by omega
      rw [← two_pow_mul_apply_shiftLeft s m (by omega : i ≤ k),
        ← two_pow_mul_apply_shiftLeft t n (by omega : i ≤ l), ← Int.mul_add, UnpackedFloat.add,
        UnpackedFloat.decreaseExponent, UnpackedFloat.decreaseExponent, hmin, hfirst, hsecond]
      exact measures_normalize _ i .positive

theorem Measures.sub (ha : Measures a x) (hb : Measures b y) :
    Measures (UnpackedFloat.sub .binary64 a b) (roundUnits (x - y)) := by
  rw [sub_eq_add_neg, Int.sub_eq_add_neg]
  exact ha.add hb.neg

/-- The parts of one half. -/
def oneHalf : UnpackedFloat := .finite .positive (2 ^ 52) (-53) (Nat.two_pow_pos 52)

/-- Half of a float is half of its units, which is rounded if it lies between two units. -/
theorem Measures.half_mul (ha : Measures a x) :
    Measures (UnpackedFloat.mul .binary64 oneHalf a) (halfUnits x) := by
  cases ha with
  | zero s => exact .zero _
  | @finite s m k hm hk =>
    have hsign : UnpackedFloat.Sign.positive * s = s := by cases s <;> rfl
    have hunits : halfUnits (s.apply (2 ^ k * m : ℕ)) = s.apply (half (2 ^ k * m) : ℕ) := by
      cases s
      · exact (halfUnits_neg _).trans (congrArg _ (halfUnits_natCast _))
      · exact halfUnits_natCast _
    have hexponent : (-53 + (k - 1074) : ℤ) = k - (53 : ℕ) - 1074 := by omega
    have hlog := log2_two_pow_mul hm.ne' 52
    rw [log2_two_pow_mul hm.ne'] at hk
    rw [oneHalf, UnpackedFloat.mul, hsign, hexponent, hunits]
    cases k with
    | zero =>
      have hround := measures_roundWithAccuracy (m := 2 ^ 52 * m) (k := 0) (i := 53) (t := 0) s
        (by omega) (by omega)
      rw [show 2 ^ (0 + 53 - 0) = 2 ^ 52 * 2 from rfl,
        divideRounding_mul_mul _ _ _ (Nat.two_pow_pos 52), pow_zero, Nat.one_mul] at hround
      rwa [half, pow_zero, Nat.one_mul]
    | succ j =>
      have hround := measures_roundWithAccuracy (m := 2 ^ 52 * m) (k := j + 1) (i := 53) (t := j) s
        (by omega) (by omega)
      rw [show j + 53 - (j + 1) = 52 by omega, Nat.mul_comm (2 ^ 52),
        divideRounding_mul _ _ (Nat.two_pow_pos 52), Nat.mul_comm m] at hround
      have hhalf : half (2 ^ (j + 1) * m) = 2 ^ j * m := by
        rw [pow_succ', Nat.mul_assoc, half_two_mul]
      rwa [hhalf]

/-! ## The order -/

/-- Of two numbers that stand for units the one with the larger exponent is larger. -/
theorem two_pow_mul_lt_of_lt {n l : ℕ} (hm : 0 < m) (hn : 0 < n) (hk : (2 ^ k * m).log2 - 52 = k)
    (hl : (2 ^ l * n).log2 - 52 = l) (hkl : k < l) : 2 ^ k * m < 2 ^ l * n := by
  have hpos : 2 ^ k * m ≠ 0 := by positivity
  have hpos' : 2 ^ l * n ≠ 0 := by positivity
  calc 2 ^ k * m < 2 ^ (l + 52) := (Nat.log2_lt hpos).1 (by omega)
    _ ≤ 2 ^ l * n := (Nat.le_log2 hpos').1 (by omega)

/-- Numbers that stand for units compare by their exponents first. -/
theorem two_pow_mul_lt_iff {n l : ℕ} (hm : 0 < m) (hn : 0 < n) (hk : (2 ^ k * m).log2 - 52 = k)
    (hl : (2 ^ l * n).log2 - 52 = l) : 2 ^ k * m < 2 ^ l * n ↔ k < l ∨ k = l ∧ m < n := by
  rcases lt_trichotomy k l with hlt | rfl | hgt
  · exact iff_of_true (two_pow_mul_lt_of_lt hm hn hk hl hlt) (.inl hlt)
  · rw [Nat.mul_lt_mul_left (Nat.two_pow_pos k)]
    omega
  · have hlt := two_pow_mul_lt_of_lt hn hm hl hk hgt
    omega

/-- The parts of a number have a place among the others. -/
theorem Measures.exists_place (h : Measures a x) : ∃ p, p ∈ place a := by
  cases h with
  | zero s => exact ⟨_, rfl⟩
  | finite s hm hk => cases s <;> exact ⟨_, rfl⟩

/-- No number is at most the negative infinity. -/
theorem Measures.not_le_infinity (h : Measures a x) : ¬a.le (.infinity .negative) = true := by
  cases h with
  | zero s => exact Bool.false_ne_true
  | finite s hm hk => cases s <;> exact Bool.false_ne_true

/-- The positive infinity is at most no number. -/
theorem Measures.not_infinity_le (h : Measures a x) :
    ¬(UnpackedFloat.infinity .positive).le a = true := by
  cases h with
  | zero s => exact Bool.false_ne_true
  | finite s hm hk => cases s <;> exact Bool.false_ne_true

/-- The places of numbers are in the order of their units. -/
theorem Measures.place_lt_iff (ha : Measures a x) (hb : Measures b y) {p q : ℤ ×ₗ ℤ ×ₗ ℤ}
    (hp : p ∈ place a) (hq : q ∈ place b) : p < q ↔ x < y := by
  cases ha with
  | zero s =>
    cases hb with
    | zero t =>
      cases hp
      cases hq
      exact iff_of_false (lt_irrefl _) (lt_irrefl _)
    | @finite t n l hn hl =>
      have hpos : 0 < 2 ^ l * n := Nat.mul_pos (Nat.two_pow_pos l) hn
      cases t <;> cases hp <;> cases hq <;>
        simp only [Prod.Lex.toLex_lt_toLex, UnpackedFloat.Sign.apply] <;> omega
  | @finite s m k hm hk =>
    have hpos : 0 < 2 ^ k * m := Nat.mul_pos (Nat.two_pow_pos k) hm
    cases hb with
    | zero t =>
      cases s <;> cases hp <;> cases hq <;>
        simp only [Prod.Lex.toLex_lt_toLex, UnpackedFloat.Sign.apply] <;> omega
    | @finite t n l hn hl =>
      have hpos' : 0 < 2 ^ l * n := Nat.mul_pos (Nat.two_pow_pos l) hn
      have hlt := two_pow_mul_lt_iff hm hn hk hl
      have hgt := two_pow_mul_lt_iff hn hm hl hk
      generalize 2 ^ k * m = x at *
      generalize 2 ^ l * n = y at *
      cases s <;> cases t <;> cases hp <;> cases hq <;>
        simp only [Prod.Lex.toLex_lt_toLex, UnpackedFloat.Sign.apply, true_and] <;> omega

/-! ## Packing -/

theorem unpack_packedInfinity (s : UnpackedFloat.Sign) :
    UnpackedFloat.unpack .binary64 (UnpackedFloat.packedInfinity .binary64 s) = .infinity s := by
  cases s <;> rfl

/-- Where packing overflows. -/
theorem two_pow_mul_lt_overflow_iff (hm : 0 < m) (hk : (2 ^ k * m).log2 - 52 = k) :
    2 ^ k * m < overflow ↔ k ≤ 2045 := by
  have hpos : 2 ^ k * m ≠ 0 := by positivity
  rw [overflow, ← Nat.log2_lt hpos]
  omega

/-- The bits of a float with a leading one before the mantissa. -/
theorem unpack_packComponents (s : UnpackedFloat.Sign) {e : ℕ} (he : 0 < e) (he' : e < 2047)
    (hm : 0 < m) (hlog : m.log2 = 52) :
    UnpackedFloat.unpack .binary64
        (UnpackedFloat.packComponents .binary64 s (BitVec.ofNat 11 e) (BitVec.ofNat 52 m)) =
      .finite s m (e - 1075) hm := by
  have hfield : (BitVec.ofNat 11 e).toNat = e := Nat.mod_eq_of_lt (by omega)
  have hfinite : BitVec.ofNat 11 e ≠ -1#11 := fun h => by
    have : e = 2047 := hfield.symm.trans (congrArg BitVec.toNat h)
    omega
  have hnormal : BitVec.ofNat 11 e ≠ 0#11 := fun h => by
    have : e = 0 := hfield.symm.trans (congrArg BitVec.toNat h)
    omega
  have hmantissa : (1#1 ++ BitVec.ofNat 52 m).toNat = m := by
    obtain ⟨hlo, hhi⟩ := (Nat.log2_eq_iff hm.ne').1 hlog
    rw [BitVec.toNat_append, ← Nat.shiftLeft_add_eq_or_of_lt (BitVec.isLt _)]
    show 2 ^ 52 + m % 2 ^ 52 = m
    omega
  unfold UnpackedFloat.unpack
  simp only [UnpackedFloat.unpackExponent_packComponents,
    UnpackedFloat.unpackMantissa_packComponents, UnpackedFloat.unpackSign_packComponents,
    UnpackedFloat.Sign.ofBitVec_toBitVec]
  rw [if_neg hfinite, if_neg hnormal]
  simp only [hmantissa, hfield]
  rfl

/-- The bits of a float without one. -/
theorem unpack_packComponents_zero (s : UnpackedFloat.Sign) (hm : 0 < m) (hlt : m < 2 ^ 52) :
    UnpackedFloat.unpack .binary64
        (UnpackedFloat.packComponents .binary64 s 0#11 (BitVec.ofNat 52 m)) =
      .finite s m (-1074) hm := by
  have hmantissa : (BitVec.ofNat 52 m).toNat = m := Nat.mod_eq_of_lt hlt
  have hpositive : BitVec.ofNat 52 m ≠ 0#52 := fun h => by
    have : m = 0 := hmantissa.symm.trans (congrArg BitVec.toNat h)
    omega
  unfold UnpackedFloat.unpack
  simp only [UnpackedFloat.unpackExponent_packComponents,
    UnpackedFloat.unpackMantissa_packComponents, UnpackedFloat.unpackSign_packComponents,
    UnpackedFloat.Sign.ofBitVec_toBitVec]
  rw [if_neg (by decide), if_pos trivial, dif_neg hpositive]
  simp only [hmantissa]
  rfl

/-- Packing parts that stand for units. -/
theorem pack_finite (s : UnpackedFloat.Sign) (hm : 0 < m) (k : ℕ) :
    UnpackedFloat.pack .binary64 (.finite s m (k - 1074) hm) =
      if 2046 ≤ k then UnpackedFloat.packedInfinity .binary64 s
      else if m.log2 = 52 then
        UnpackedFloat.packComponents .binary64 s (BitVec.ofNat 11 (k + 1)) (BitVec.ofNat 52 m)
      else UnpackedFloat.packComponents .binary64 s 0#11 (BitVec.ofNat 52 m) := by
  have hbias : Format.binary64.exponentBias = 1023 := rfl
  have hbits : Format.binary64.mantissaBits = 53 := rfl
  have hbiased : ((k - 1074 : ℤ) + (1023 : ℕ) + (52 : ℕ)).toNat = k + 1 := by omega
  rw [UnpackedFloat.pack, hbias, hbits]
  dsimp only
  rw [hbiased]
  simp only [show 2 ^ 11 ≤ k + 1 + 1 ↔ 2046 ≤ k by omega,
    show m.log2 + 1 = 53 ↔ m.log2 = 52 by omega]

/-- Numbers that do not overflow survive packing. -/
theorem Measures.unpack_pack (ha : Measures a x) (hx : x.natAbs < overflow) :
    UnpackedFloat.unpack .binary64 (UnpackedFloat.pack .binary64 a) = a := by
  cases ha with
  | zero s => cases s <;> rfl
  | @finite s m k hm hk =>
    rw [natAbs_apply, two_pow_mul_lt_overflow_iff hm hk] at hx
    rw [log2_two_pow_mul hm.ne'] at hk
    rw [pack_finite, if_neg (by omega)]
    by_cases hlog : m.log2 = 52
    · rw [if_pos hlog, unpack_packComponents s (Nat.succ_pos k) (by omega) hm hlog]
      congr 1
      omega
    · obtain rfl : k = 0 := by omega
      have hlt : m < 2 ^ 52 := (Nat.log2_lt hm.ne').1 (by omega)
      rw [if_neg hlog, unpack_packComponents_zero s hm hlt]
      rfl

/-- Others do not. -/
theorem Measures.unpack_pack_of_le (ha : Measures a x) (hx : overflow ≤ x.natAbs) :
    ∃ s, UnpackedFloat.unpack .binary64 (UnpackedFloat.pack .binary64 a) = .infinity s := by
  cases ha with
  | zero s => exact absurd hx (not_le.2 overflow_pos)
  | @finite s m k hm hk =>
    rw [natAbs_apply, ← not_lt, two_pow_mul_lt_overflow_iff hm hk] at hx
    refine ⟨s, ?_⟩
    rw [pack_finite, if_pos (by omega), unpack_packedInfinity]

end UnpackedFloat

/-! ## Floats as units -/

namespace Binary64

open UnpackedFloat

/-- The float is so many units. -/
def Units (x : Float) (z : ℤ) : Prop := Measures (unpack x) z

variable {x y : Float} {z w : ℤ} {a : UnpackedFloat}

theorem units_zero : Units 0 0 := .zero .positive

theorem Units.onGrid (h : Units x z) : OnGrid z.natAbs := Measures.onGrid h

/-- Floats are not too large to be floats. -/
theorem Units.lt_overflow (h : Units x z) : z.natAbs < overflow := by
  by_contra! hle
  obtain ⟨s, hs⟩ := Measures.unpack_pack_of_le h hle
  have hself : unpack (ofParts (unpack x)) = .infinity s := hs
  rw [ofParts_unpack] at hself
  rw [Units, hself] at h
  cases h

/-- The float with the given parts. -/
theorem units_ofParts (ha : Measures a z) (hz : z.natAbs < overflow) : Units (ofParts a) z := by
  have hparts : unpack (ofParts a) = a := ha.unpack_pack hz
  rw [Units, hparts]
  exact ha

/-! ### Arithmetic -/

/-- Sums are the rounded sums of units, unless these are too large. -/
theorem Units.add {v : ℤ} (hx : Units x z) (hy : Units y w) (hv : roundUnits (z + w) = v)
    (hfits : v.natAbs < overflow) : Units (x + y) v := by
  subst hv
  exact units_ofParts (Measures.add hx hy) hfits

/-- Differences are the rounded differences of units, unless these are too large. -/
theorem Units.sub {v : ℤ} (hx : Units x z) (hy : Units y w) (hv : roundUnits (z - w) = v)
    (hfits : v.natAbs < overflow) : Units (x - y) v := by
  subst hv
  exact units_ofParts (Measures.sub hx hy) hfits

theorem Units.half_mul (hx : Units x z) : Units (0.5 * x) (halfUnits z) :=
  units_ofParts (Measures.half_mul hx) ((natAbs_halfUnits_le z).trans_lt hx.lt_overflow)

section

variable {m n : ℕ}

theorem Units.add_natCast (hx : Units x m) (hy : Units y n) (hfits : toGrid (m + n) < overflow) :
    Units (x + y) (toGrid (m + n) : ℕ) :=
  hx.add hy (by rw [← Nat.cast_add, roundUnits_natCast]) hfits

/-- A difference that is not negative. -/
theorem Units.sub_natCast (hx : Units x m) (hy : Units y n) (hle : n ≤ m) :
    Units (x - y) (toGrid (m - n) : ℕ) := by
  refine hx.sub hy (by rw [← Nat.cast_sub hle, roundUnits_natCast]) ?_
  exact (toGrid_le hx.onGrid (Nat.sub_le m n)).trans_lt hx.lt_overflow

/-- A difference that is not positive. -/
theorem Units.sub_natCast_neg (hx : Units x m) (hy : Units y n) (hle : m ≤ n) :
    Units (x - y) (-(toGrid (n - m) : ℕ)) := by
  refine hx.sub hy ?_ ?_
  · rw [← Int.neg_sub, roundUnits_neg, ← Nat.cast_sub hle, roundUnits_natCast]
  · rw [Int.natAbs_neg, Int.natAbs_natCast]
    exact (toGrid_le hy.onGrid (Nat.sub_le n m)).trans_lt hy.lt_overflow

theorem Units.half_mul_natCast (hx : Units x n) : Units (0.5 * x) (half n : ℕ) := by
  rw [← halfUnits_natCast]
  exact hx.half_mul

end

/-! ### The order -/

/-- Floats are in the order of their units. -/
theorem Units.lt_iff (hx : Units x z) (hy : Units y w) : x < y ↔ z < w := by
  obtain ⟨p, hp⟩ := Measures.exists_place hx
  obtain ⟨q, hq⟩ := Measures.exists_place hy
  rw [lt_iff_lt_unpack, UnpackedFloat.lt_iff, ← Measures.place_lt_iff hx hy hp hq]
  constructor
  · rintro ⟨p', hp', q', hq', hlt⟩
    cases Option.mem_unique hp hp'
    cases Option.mem_unique hq hq'
    exact hlt
  · exact fun hlt => ⟨p, hp, q, hq, hlt⟩

theorem Units.le_iff (hx : Units x z) (hy : Units y w) : x ≤ y ↔ z ≤ w := by
  obtain ⟨p, hp⟩ := Measures.exists_place hx
  obtain ⟨q, hq⟩ := Measures.exists_place hy
  rw [le_iff_le_unpack, UnpackedFloat.le_iff, ← not_lt (a := w),
    ← Measures.place_lt_iff hy hx hq hp, not_lt]
  constructor
  · rintro ⟨p', hp', q', hq', hle⟩
    cases Option.mem_unique hp hp'
    cases Option.mem_unique hq hq'
    exact hle
  · exact fun hle => ⟨p, hp, q, hq, hle⟩

/-- The lesser of a float and a number of units is at most that number. -/
theorem Units.lesser_le (hy : Units y w) : Scalar.lesser x y ≤ y := by
  have hnan : Scalar.isNaN y ≠ true := by
    intro hnan
    rw [Units, isNaN_iff.1 hnan] at hy
    cases hy
  rw [Scalar.lesser]
  split
  · rename_i h
    rw [Bool.or_eq_true, or_iff_left hnan] at h
    exact of_decide_eq_true h
  · exact (hy.le_iff hy).2 le_rfl

/-! ### Which numbers of units there are -/

/-- What is neither infinite nor not a number is a number of units. -/
theorem exists_units (hinfinite : ∀ s, unpack x ≠ .infinity s) (hnan : unpack x ≠ .notANumber) :
    ∃ z, Units x z := by
  cases hparts : unpack x with
  | infinity s => exact absurd hparts (hinfinite s)
  | notANumber => exact absurd hparts hnan
  | zero s =>
    refine ⟨0, ?_⟩
    rw [Units, hparts]
    exact .zero s
  | finite s m e hm =>
    have htarget : IsTarget .binary64 m e := isTarget_of_unpack hparts
    have hlow : -1074 ≤ e := by
      rw [← htarget]
      exact le_max_right _ _
    obtain ⟨k, rfl⟩ : ∃ k : ℕ, e = k - 1074 := ⟨(e + 1074).toNat, by omega⟩
    refine ⟨s.apply (2 ^ k * m : ℕ), ?_⟩
    rw [Units, hparts]
    exact .finite s hm ((isTarget_iff hm.ne').1 htarget)

theorem exists_units_of_isFinite (h : Scalar.isFinite x = true) : ∃ z, Units x z := by
  rcases unpack_of_isFinite h with ⟨s, hx⟩ | ⟨s, m, e, hm, hx⟩ <;>
    exact exists_units (by simp [hx]) (by simp [hx])

/-- A positive float that is not infinite is a positive number of units. -/
theorem exists_units_of_pos (hfinite : Scalar.isFinite x = true) (hpos : 0 < x) :
    ∃ n : ℕ, 0 < n ∧ Units x n := by
  obtain ⟨z, hz⟩ := exists_units_of_isFinite hfinite
  rw [units_zero.lt_iff hz] at hpos
  obtain ⟨n, rfl⟩ := Int.eq_ofNat_of_zero_le hpos.le
  exact ⟨n, Int.natCast_pos.1 hpos, hz⟩

/-- What lies between numbers of units is a number of units. -/
theorem exists_units_of_le {u : Float} (hx : Units x z) (hy : Units y w) (hxu : x ≤ u)
    (huy : u ≤ y) : ∃ v, Units u v := by
  replace hxu : (unpack x).le (unpack u) = true := le_iff_le_unpack.1 hxu
  replace huy : (unpack u).le (unpack y) = true := le_iff_le_unpack.1 huy
  refine exists_units ?_ ?_
  · rintro s hs
    rw [hs] at hxu huy
    cases s with
    | negative => exact absurd hxu (Measures.not_le_infinity hx)
    | positive => exact absurd huy (Measures.not_infinity_le hy)
  · intro hu
    rw [hu] at huy
    cases huy

/-- What lies between zero and a number of units is a smaller number of units. -/
theorem exists_natCast_units_of_le {n : ℕ} (hy : Units y n) (hzero : 0 ≤ x) (hle : x ≤ y) :
    ∃ m : ℕ, m ≤ n ∧ Units x m := by
  obtain ⟨z, hz⟩ := exists_units_of_le units_zero hy hzero hle
  rw [units_zero.le_iff hz] at hzero
  obtain ⟨m, rfl⟩ := Int.eq_ofNat_of_zero_le hzero
  exact ⟨m, Nat.cast_le.1 ((hz.le_iff hy).1 hle), hz⟩

/-- Every number on the grid is a float, if it is not too large. -/
theorem exists_of_onGrid {n : ℕ} (hn : OnGrid n) (hlt : n < overflow) : ∃ x, Units x n := by
  rcases Nat.eq_zero_or_pos n with rfl | hpos
  · exact ⟨0, units_zero⟩
  · obtain ⟨m, hm⟩ : ∃ m, n = spacing n * m := hn
    have hmpos : 0 < m := by
      rcases Nat.eq_zero_or_pos m with rfl | h
      · omega
      · exact h
    have hlog : (2 ^ (n.log2 - 52) * m).log2 - 52 = n.log2 - 52 := by
      rw [← spacing, ← hm]
    have hmeasures := Measures.finite .positive hmpos hlog
    rw [← spacing, ← hm] at hmeasures
    exact ⟨_, units_ofParts hmeasures hlt⟩

end Binary64

end ZeroSet
