import Mathlib
import ZeroSet.Decimal.Numeral

/-!
# The grid of floats

Floats that are not negative are whole numbers of units, where the unit is the smallest positive
float.  Up to `2 ^ 53` every whole number of units is a float; from there on floats are two units
apart, twice as far beyond each further power of two.  Rounding goes to a nearest one of them.

* `divideRounding_le`, `le_divideRounding` — a rounded quotient stays between whole numbers.
* `Binary64.spacing`, `Binary64.OnGrid`, `Binary64.toGrid` — the gaps, the floats and rounding.
* `Binary64.toGrid_le`, `Binary64.le_toGrid` — rounding does not cross a float.
* `Binary64.onGrid_toGrid` — what is rounded is a float.
* `Binary64.exists_between` — the last gap below a float is the widest one.
* `Binary64.middle` — midpoints as they are computed.
* `Binary64.lt_middle`, `Binary64.middle_lt`, `Binary64.toGrid_halves_lt` — with a float between the
  bounds the midpoint is between them, and both halves are shorter.
* `Binary64.HalvedWithin` — how often a cell can be halved before no float is left between the
  bounds.
-/

namespace ZeroSet

/-! ## Rounded quotients -/

section

variable {ties : Ties} {n d q : ℕ}

/-- A quotient is rounded down or up. -/
theorem divideRounding_eq (ties : Ties) (n d : ℕ) :
    divideRounding ties n d = n / d ∨ divideRounding ties n d = n / d + 1 := by
  unfold divideRounding
  dsimp only
  split_ifs
  · exact .inl rfl
  · exact .inr rfl
  · cases ties with
    | away => exact .inr rfl
    | toEven =>
      show n / d + n / d % 2 = n / d ∨ n / d + n / d % 2 = n / d + 1
      omega

/-- The error is at most half of the divisor. -/
theorem divideRounding_error (ties : Ties) (n : ℕ) (hd : 0 < d) :
    2 * (divideRounding ties n d * d) ≤ 2 * n + d ∧
      2 * n ≤ 2 * (divideRounding ties n d * d) + d := by
  have hn : n / d * d + n % d = n := Nat.div_add_mod' n d
  have hmod := Nat.mod_lt n hd
  have hdown : divideRounding ties n d = n / d → 2 * (n % d) ≤ d := by
    unfold divideRounding
    dsimp only
    split_ifs with hlt hgt
    · exact fun _ => hlt.le
    · exact fun h => absurd h (Nat.succ_ne_self _)
    · exact fun _ => not_lt.1 hgt
  have hup : divideRounding ties n d = n / d + 1 → d ≤ 2 * (n % d) := by
    unfold divideRounding
    dsimp only
    split_ifs with hlt hgt
    · exact fun h => absurd h (Nat.succ_ne_self _).symm
    · exact fun _ => hgt.le
    · exact fun _ => not_lt.1 hlt
  rcases divideRounding_eq ties n d with h | h
  · have := hdown h
    rw [h]
    omega
  · have := hup h
    rw [h, Nat.add_mul, Nat.one_mul]
    omega

theorem le_divideRounding (h : q * d ≤ n) (hd : 0 < d) : q ≤ divideRounding ties n d := by
  have hq : q ≤ n / d := (Nat.le_div_iff_mul_le hd).2 h
  rcases divideRounding_eq ties n d with h | h <;> omega

theorem divideRounding_le (h : n ≤ q * d) (hd : 0 < d) : divideRounding ties n d ≤ q := by
  obtain ⟨hle, -⟩ := divideRounding_error ties n hd
  by_contra! hlt
  have hmul : (q + 1) * d ≤ divideRounding ties n d * d := Nat.mul_le_mul_right d hlt
  rw [Nat.add_mul, Nat.one_mul] at hmul
  omega

theorem divideRounding_mul (ties : Ties) (q : ℕ) (hd : 0 < d) :
    divideRounding ties (q * d) d = q :=
  (divideRounding_le le_rfl hd).antisymm (le_divideRounding le_rfl hd)

/-- Common factors do not matter. -/
theorem divideRounding_mul_mul (ties : Ties) (n d : ℕ) {c : ℕ} (hc : 0 < c) :
    divideRounding ties (c * n) (c * d) = divideRounding ties n d := by
  unfold divideRounding
  have htwice : 2 * (c * (n % d)) = c * (2 * (n % d)) := by ring
  simp only [Nat.mul_div_mul_left _ _ hc, Nat.mul_mod_mul_left, htwice,
    Nat.mul_lt_mul_left hc]

end

namespace Binary64

/-! ## The grid -/

/-- How far floats are apart around so many units. -/
def spacing (n : ℕ) : ℕ := 2 ^ (n.log2 - 52)

/-- So many units are a float, apart from being too many. -/
def OnGrid (n : ℕ) : Prop := spacing n ∣ n

/-- The nearest float, and of two nearest ones the one with the even mantissa. -/
def toGrid (n : ℕ) : ℕ := divideRounding .toEven n (spacing n) * spacing n

variable {m n k : ℕ}

theorem spacing_pos (n : ℕ) : 0 < spacing n := Nat.two_pow_pos _

theorem log2_le_log2 (h : m ≤ n) : m.log2 ≤ n.log2 := by
  rw [Nat.log2_eq_log_two, Nat.log2_eq_log_two]
  exact Nat.log_mono_right h

/-- Larger floats are further apart. -/
theorem spacing_dvd_spacing (h : m ≤ n) : spacing m ∣ spacing n :=
  Nat.pow_dvd_pow 2 (Nat.sub_le_sub_right (log2_le_log2 h) 52)

theorem spacing_le_spacing (h : m ≤ n) : spacing m ≤ spacing n :=
  Nat.le_of_dvd (spacing_pos n) (spacing_dvd_spacing h)

theorem spacing_eq_one (h : n < 2 ^ 53) : spacing n = 1 := by
  have hlog : n.log2 ≤ 52 := by
    rcases Nat.eq_zero_or_pos n with rfl | hn
    · simp
    · exact Nat.le_of_lt_succ ((Nat.log2_lt hn.ne').2 h)
  rw [spacing, Nat.sub_eq_zero_of_le hlog, pow_zero]

/-- A float has at most 53 binary digits. -/
theorem lt_mul_spacing (n : ℕ) : n < 2 ^ 53 * spacing n := by
  have hlog : n < 2 ^ (n.log2 + 1) := Nat.lt_log2_self
  rw [spacing, ← pow_add]
  exact hlog.trans_le (Nat.pow_le_pow_right Nat.two_pos (by omega))

/-- Floats that are more than a unit apart have 53 binary digits. -/
theorem mul_spacing_le (h : 2 ^ 52 ≤ n) : 2 ^ 52 * spacing n ≤ n := by
  have hn : n ≠ 0 := (Nat.two_pow_pos 52 |>.trans_le h).ne'
  have hlog : 52 ≤ n.log2 := (Nat.le_log2 hn).2 h
  rw [spacing, ← pow_add, Nat.add_sub_cancel' hlog]
  exact Nat.log2_self_le hn

/-- An odd number is a multiple of no gap but one unit. -/
theorem spacing_eq_one_of_dvd_odd (h : spacing m ∣ n) (hodd : Odd n) : spacing m = 1 := by
  have hspacing : Odd (2 ^ (m.log2 - 52)) := hodd.of_dvd_nat h
  rcases Nat.eq_zero_or_pos (m.log2 - 52) with hzero | hpos
  · rw [spacing, hzero, pow_zero]
  · exact absurd (Nat.even_pow.2 ⟨even_two, hpos.ne'⟩) (Nat.not_even_iff_odd.2 hspacing)

/-- Doubling a number moves floats at most twice as far apart. -/
theorem spacing_two_mul_add_one_le (hn : 0 < n) : spacing (2 * n + 1) ≤ 2 * spacing n := by
  have hlog : (2 * n + 1).log2 = n.log2 + 1 := by
    obtain ⟨hlo, hhi⟩ := (Nat.log2_eq_iff hn.ne').1 rfl
    rw [Nat.log2_eq_iff (Nat.succ_ne_zero _), pow_succ, pow_succ 2 (n.log2 + 1)]
    omega
  rw [spacing, spacing, hlog, ← pow_succ']
  exact Nat.pow_le_pow_right Nat.two_pos (by omega)

theorem onGrid_zero : OnGrid 0 := dvd_zero _

theorem onGrid_of_lt (h : n < 2 ^ 53) : OnGrid n := by
  rw [OnGrid, spacing_eq_one h]
  exact one_dvd n

/-- A multiple of a gap with at most 53 binary digits is a float. -/
theorem onGrid_of_dvd (h : spacing m ∣ n) (hle : n ≤ 2 ^ 53 * spacing m) : OnGrid n := by
  rcases Nat.eq_zero_or_pos n with rfl | hn
  · exact onGrid_zero
  · rw [spacing, ← pow_add] at hle
    rcases hle.eq_or_lt with rfl | hlt
    · rw [OnGrid, spacing, Nat.log2_two_pow]
      exact Nat.pow_dvd_pow 2 (Nat.sub_le _ _)
    · have hlog : n.log2 < 53 + (m.log2 - 52) := (Nat.log2_lt hn.ne').2 hlt
      exact (Nat.pow_dvd_pow 2 (by omega)).trans h

/-- Every float is a multiple of the gap below it. -/
theorem OnGrid.dvd_of_le (h : OnGrid n) (hle : m ≤ n) : spacing m ∣ n :=
  (spacing_dvd_spacing hle).trans h

/-- One gap further there is a float. -/
theorem OnGrid.add_spacing (h : OnGrid n) : OnGrid (n + spacing n) := by
  refine onGrid_of_dvd (dvd_add h dvd_rfl) ?_
  obtain ⟨q, hq⟩ : ∃ q, n = spacing n * q := h
  have hlt : q < 2 ^ 53 := by
    refine Nat.lt_of_mul_lt_mul_left (a := spacing n) ?_
    rw [← hq, Nat.mul_comm]
    exact lt_mul_spacing n
  calc n + spacing n = spacing n * (q + 1) := by rw [Nat.mul_succ, ← hq]
    _ ≤ spacing n * 2 ^ 53 := Nat.mul_le_mul_left _ hlt
    _ = 2 ^ 53 * spacing n := Nat.mul_comm ..

/-- The difference of floats is a float if it is no larger than the smaller one. -/
theorem OnGrid.sub {l h : ℕ} (hl : OnGrid l) (hh : OnGrid h) (hle : l ≤ h) (hnear : h ≤ 2 * l) :
    OnGrid (h - l) := by
  refine onGrid_of_dvd (Nat.dvd_sub (hh.dvd_of_le hle) hl) ?_
  have hlt := lt_mul_spacing l
  omega

/-- Floats that are more than a unit apart are even. -/
theorem OnGrid.even (h : OnGrid n) (hlarge : 2 ^ 53 ≤ n) : 2 ∣ n := by
  have hlog : 53 ≤ n.log2 := (Nat.le_log2 (by omega)).2 hlarge
  exact (dvd_pow_self 2 (by omega)).trans h

/-- Half of a float that is not odd is a float. -/
theorem OnGrid.of_two_mul (h : OnGrid (2 * n)) : OnGrid n := by
  by_cases hsmall : n < 2 ^ 53
  · exact onGrid_of_lt hsmall
  · have hn : n ≠ 0 := by omega
    have hlog : 53 ≤ n.log2 := (Nat.le_log2 hn).2 (not_lt.1 hsmall)
    have htwice : spacing (2 * n) = 2 * spacing n := by
      rw [spacing, spacing, Nat.log2_two_mul hn, ← pow_succ']
      congr 1
      omega
    rw [OnGrid, htwice] at h
    exact Nat.dvd_of_mul_dvd_mul_left Nat.two_pos h

/-! ## Rounding -/

theorem toGrid_of_onGrid (h : OnGrid n) : toGrid n = n := by
  obtain ⟨q, hq⟩ : ∃ q, n = q * spacing n := exists_eq_mul_left_of_dvd h
  have hround := divideRounding_mul .toEven q (spacing_pos n)
  rw [← hq] at hround
  rw [toGrid, hround, ← hq]

/-- Differences of floats that are close to each other, or small, are not rounded. -/
theorem toGrid_sub_eq {l h : ℕ} (hl : OnGrid l) (hh : OnGrid h) (hle : l ≤ h)
    (hclose : h ≤ 2 * l ∨ h < 2 ^ 53) : toGrid (h - l) = h - l := by
  refine toGrid_of_onGrid ?_
  rcases hclose with hnear | hsmall
  · exact hl.sub hh hle hnear
  · exact onGrid_of_lt (by omega)

/-- The error is at most half of the gap. -/
theorem toGrid_error (n : ℕ) :
    2 * toGrid n ≤ 2 * n + spacing n ∧ 2 * n ≤ 2 * toGrid n + spacing n :=
  divideRounding_error .toEven n (spacing_pos n)

theorem spacing_dvd_toGrid (n : ℕ) : spacing n ∣ toGrid n := Dvd.intro_left _ rfl

/-- Numbers are not rounded up past a float. -/
theorem toGrid_le (hm : OnGrid m) (h : n ≤ m) : toGrid n ≤ m := by
  obtain ⟨q, hq⟩ : ∃ q, m = q * spacing n := exists_eq_mul_left_of_dvd (hm.dvd_of_le h)
  rw [hq] at h ⊢
  exact Nat.mul_le_mul_right _ (divideRounding_le h (spacing_pos n))

/-- What is rounded is a float. -/
theorem onGrid_toGrid (n : ℕ) : OnGrid (toGrid n) := by
  refine onGrid_of_dvd (spacing_dvd_toGrid n) ?_
  exact Nat.mul_le_mul_right _ (divideRounding_le (lt_mul_spacing n).le (spacing_pos n))

/-- Numbers are not rounded down past a float. -/
theorem le_toGrid (hm : OnGrid m) (h : m ≤ n) : m ≤ toGrid n := by
  have hmultiple : ∀ a, spacing n ∣ a → a ≤ n → a ≤ toGrid n := by
    rintro a ⟨q, rfl⟩ ha
    rw [Nat.mul_comm] at ha ⊢
    exact Nat.mul_le_mul_right _ (le_divideRounding ha (spacing_pos n))
  rcases (log2_le_log2 h).eq_or_lt with hlog | hlog
  · refine hmultiple m ?_ h
    rwa [spacing, ← hlog]
  · -- the power of two between them is rounded to itself
    have hn : n ≠ 0 := by
      rintro rfl
      exact absurd hlog (Nat.not_lt_zero _)
    calc m ≤ 2 ^ (m.log2 + 1) := Nat.lt_log2_self.le
      _ ≤ 2 ^ n.log2 := Nat.pow_le_pow_right Nat.two_pos hlog
      _ ≤ toGrid n := hmultiple _ (Nat.pow_dvd_pow 2 (Nat.sub_le _ _)) (Nat.log2_self_le hn)

theorem toGrid_pos (h : 0 < n) : 0 < toGrid n :=
  le_toGrid (onGrid_of_lt (by norm_num)) h

/-- A float and a further one are at least as far apart as floats are below them. -/
theorem OnGrid.add_spacing_le (hm : OnGrid m) (hn : OnGrid n) (hmn : m < n) (hkm : k ≤ m) :
    m + spacing k ≤ n := by
  have hdvd : spacing k ∣ n - m :=
    Nat.dvd_sub (hn.dvd_of_le (hkm.trans hmn.le)) (hm.dvd_of_le hkm)
  have hle := Nat.le_of_dvd (Nat.sub_pos_of_lt hmn) hdvd
  omega

/-- The gap below a float is the widest one before it: what is longer, as it is computed, than the
way from some float to there has a float inside. -/
theorem exists_between {l h p : ℕ} (hl : OnGrid l) (hh : OnGrid h) (hp : OnGrid p) (hn : OnGrid n)
    (hhn : h ≤ n) (hpn : p < n) (hlong : toGrid (n - p) < toGrid (h - l)) :
    ∃ m, OnGrid m ∧ l < m ∧ m < h := by
  have hlh : l < h := by
    by_contra! hle
    rw [Nat.sub_eq_zero_of_le hle, toGrid_of_onGrid onGrid_zero] at hlong
    exact absurd hlong (Nat.not_lt_zero _)
  refine ⟨l + spacing l, hl.add_spacing, Nat.lt_add_of_pos_right (spacing_pos l), ?_⟩
  by_contra! hnone
  have hgap : OnGrid (spacing l) :=
    onGrid_of_dvd (m := l) dvd_rfl (Nat.le_mul_of_pos_left _ (by norm_num))
  have hshort : toGrid (h - l) ≤ spacing l := toGrid_le hgap (by omega)
  have hwide : spacing l ≤ n - p := by
    rcases le_or_gt l p with hle | hlt
    · have := hp.add_spacing_le hn hpn hle
      omega
    · have := hl.add_spacing_le hh hlh le_rfl
      omega
  exact absurd (le_toGrid hgap hwide) (not_le.2 (hlong.trans_le hshort))

/-! ## Midpoints -/

/-- Half of so many units, which goes to an even number of units if it lies between two. -/
def half (d : ℕ) : ℕ := divideRounding .toEven d 2

/-- The midpoint as it is computed: half of the rounded difference is added and rounded again. -/
def middle (l h : ℕ) : ℕ := toGrid (l + half (toGrid (h - l)))

variable {l h : ℕ}

theorem half_error (d : ℕ) : 2 * half d ≤ d + 1 ∧ d ≤ 2 * half d + 1 := by
  have := divideRounding_error .toEven d Nat.two_pos
  rw [half]
  omega

theorem half_two_mul (n : ℕ) : half (2 * n) = n := by
  rw [half, Nat.mul_comm, divideRounding_mul _ _ Nat.two_pos]

/-- Half of the rounded difference is no more than the difference. -/
theorem half_toGrid_le (d : ℕ) : half (toGrid d) ≤ d := by
  have hhalf := half_error (toGrid d)
  by_cases hsmall : d < 2 ^ 53
  · rw [toGrid_of_onGrid (onGrid_of_lt hsmall)] at hhalf ⊢
    rcases Nat.eq_zero_or_pos d with rfl | hd
    · rfl
    · omega
  · have herror := toGrid_error d
    have hspacing := mul_spacing_le (n := d) (by omega)
    omega

theorem le_middle (hl : OnGrid l) : l ≤ middle l h := le_toGrid hl (Nat.le_add_right _ _)

theorem middle_le (hh : OnGrid h) (hle : l ≤ h) : middle l h ≤ h := by
  refine toGrid_le hh ?_
  have := half_toGrid_le (h - l)
  omega

/-- If the bounds are far from each other, then all errors are small against the upper one. -/
theorem middle_lt_of_far (hlarge : 2 ^ 53 ≤ h) (hfar : 2 * l < h) : middle l h < h := by
  have hgap := mul_spacing_le (n := h) (by omega)
  have hdifference := spacing_le_spacing (Nat.sub_le h l)
  have hhalf := half_error (toGrid (h - l))
  have hle := half_toGrid_le (h - l)
  have hsum : spacing (l + half (toGrid (h - l))) ≤ spacing h := spacing_le_spacing (by omega)
  have herror := toGrid_error (h - l)
  have herror' := toGrid_error (l + half (toGrid (h - l)))
  rw [middle]
  omega

section

variable (hl : OnGrid l) (hm : OnGrid m) (hh : OnGrid h) (hlm : l < m) (hmh : m < h)

include hl hm hh hlm hmh

/-- With a float between them the bounds are two gaps apart. -/
theorem two_mul_spacing_le : l + 2 * spacing l ≤ h := by
  have hfirst := hl.add_spacing_le hm hlm le_rfl
  have hsecond := hm.add_spacing_le hh hmh hlm.le
  omega

/-- With a float between the bounds the midpoint reaches the next float above the lower one. -/
theorem lt_middle : l < middle l h := by
  have hapart := two_mul_spacing_le hl hm hh hlm hmh
  have hdouble : OnGrid (2 * spacing l) :=
    onGrid_of_dvd (m := l) (dvd_mul_left _ _) (Nat.mul_le_mul_right _ (by norm_num))
  have hle : 2 * spacing l ≤ toGrid (h - l) := le_toGrid hdouble (by omega)
  have hhalf := half_error (toGrid (h - l))
  calc l < l + spacing l := Nat.lt_add_of_pos_right (spacing_pos l)
    _ ≤ middle l h := le_toGrid hl.add_spacing (by omega)

/-- Small numbers are not rounded. -/
theorem middle_lt_of_small (hsmall : h < 2 ^ 53) : middle l h < h := by
  have hapart := two_mul_spacing_le hl hm hh hlm hmh
  have hspacing := spacing_pos l
  have hhalf := half_error (h - l)
  have hdifference : toGrid (h - l) = h - l := toGrid_of_onGrid (onGrid_of_lt (by omega))
  rw [middle, hdifference, toGrid_of_onGrid (onGrid_of_lt (by omega))]
  omega

/-- If the bounds are close to each other, then the difference is not rounded, and the midpoint is
at most a gap away from where it ought to be. -/
theorem middle_lt_of_near (hlarge : 2 ^ 53 ≤ h) (hnear : h ≤ 2 * l) : middle l h < h := by
  have hapart := two_mul_spacing_le hl hm hh hlm hmh
  have hle : l ≤ h := by omega
  have hgaps : spacing l ∣ h - l := Nat.dvd_sub (hh.dvd_of_le hle) hl
  have hhalf := half_error (h - l)
  rw [middle, toGrid_of_onGrid (hl.sub hh hle hnear)]
  rcases (show 2 * spacing l ≤ h - l by omega).eq_or_lt with htwo | hmore
  · have hone : half (h - l) = spacing l := by omega
    rw [hone, toGrid_of_onGrid hl.add_spacing]
    have := spacing_pos l
    omega
  · have hspacing : spacing (l + half (h - l)) ≤ 2 * spacing l := by
      refine (spacing_le_spacing ?_).trans (spacing_two_mul_add_one_le (n := l) ?_)
      · omega
      · omega
    have herror := toGrid_error (l + half (h - l))
    rcases Nat.even_or_odd' (h - l) with ⟨c, hc | hc⟩
    · omega
    · -- an odd distance leads from below `2 ^ 53` to above it, and three is the least
      have hunit : spacing l = 1 := spacing_eq_one_of_dvd_odd hgaps ⟨c, hc⟩
      by_cases hthree : h = l + 3
      · have hlt := lt_mul_spacing l
        have hthird : half (h - l) = 2 := by
          rw [hthree, Nat.add_sub_cancel_left]
          rfl
        have hplace : l = 2 ^ 53 - 3 ∨ l = 2 ^ 53 - 2 ∨ l = 2 ^ 53 - 1 := by omega
        rw [hthird, hthree]
        rcases hplace with rfl | rfl | rfl <;> decide +kernel
      · omega

theorem middle_lt : middle l h < h := by
  by_cases hsmall : h < 2 ^ 53
  · exact middle_lt_of_small hl hm hh hlm hmh hsmall
  · by_cases hnear : h ≤ 2 * l
    · exact middle_lt_of_near hl hm hh hlm hmh (by omega) hnear
    · exact middle_lt_of_far (by omega) (by omega)

/-- With a float between the bounds both halves are shorter, also as their lengths are computed. -/
theorem toGrid_halves_lt : toGrid (middle l h - l) < toGrid (h - l) ∧
    toGrid (h - middle l h) < toGrid (h - l) := by
  have hlower := lt_middle hl hm hh hlm hmh
  have hupper := middle_lt hl hm hh hlm hmh
  have hmiddle : OnGrid (middle l h) := onGrid_toGrid _
  by_cases hclose : h ≤ 2 * l ∨ h < 2 ^ 53
  · rw [toGrid_sub_eq hl hh (by omega) hclose, toGrid_sub_eq hl hmiddle hlower.le (by omega),
      toGrid_sub_eq hmiddle hh hupper.le (by omega)]
    omega
  · -- all errors are small against the upper bound, as is a quarter of the difference not
    have hgap := mul_spacing_le (n := h) (by omega)
    have hdifference := spacing_le_spacing (Nat.sub_le h l)
    have hsum : spacing (l + half (toGrid (h - l))) ≤ spacing h := by
      have hle := half_toGrid_le (h - l)
      exact spacing_le_spacing (by omega)
    have hfirst := spacing_le_spacing (show middle l h - l ≤ h by omega)
    have hsecond := spacing_le_spacing (show h - middle l h ≤ h by omega)
    have hhalf := half_error (toGrid (h - l))
    have herror := toGrid_error (h - l)
    have herror' : 2 * middle l h ≤ _ ∧ _ ≤ 2 * middle l h + _ :=
      toGrid_error (l + half (toGrid (h - l)))
    have hlength := toGrid_error (middle l h - l)
    have hlength' := toGrid_error (h - middle l h)
    omega

end

/-! ## How often a cell can be halved -/

/-- Between the bounds, which are close to each other or small, floats are so many units apart, or
twice as many. -/
structure Grained (g l h : ℕ) : Prop where
  /-- Floats above the lower bound are multiples of the grain. -/
  grain_dvd : g ∣ spacing l
  /-- Floats up to the upper bound are at most two grains apart. -/
  spacing_le : spacing h ≤ 2 * g
  /-- The difference of the bounds is not rounded. -/
  close : h ≤ 2 * l ∨ h < 2 ^ 53

/-- The halvings of a cell do not go on for more than so many times in a row, if they stop where
no float is left between the bounds. -/
inductive HalvedWithin : (budget l h : ℕ) → Prop
  /-- A cell that starts at zero: its upper halves have at most 53 binary digits to lose. -/
  | fromZero {j budget h : ℕ} (hle : h ≤ 2 ^ j) (hbudget : j + 56 ≤ budget) :
    HalvedWithin budget 0 h
  /-- A cell of many grains: their number is halved, up to the errors of rounding. -/
  | coarse {g k budget l h : ℕ} (hgrained : Grained g l h) (hle : h ≤ l + g * (2 ^ k + 3))
    (hbudget : k + 3 ≤ budget) : HalvedWithin budget l h
  /-- A cell of few grains: a halving takes one of them away at least. -/
  | fine {g budget l h : ℕ} (hgrained : Grained g l h) (hle : h ≤ l + g * (budget + 1)) :
    HalvedWithin budget l h

theorem Grained.lower {g : ℕ} (hgrained : Grained g l h) (hm : m ≤ h) : Grained g l m :=
  ⟨hgrained.grain_dvd, (spacing_le_spacing hm).trans hgrained.spacing_le,
    hgrained.close.imp hm.trans hm.trans_lt⟩

theorem Grained.upper {g : ℕ} (hgrained : Grained g l h) (hm : l ≤ m) : Grained g m h :=
  ⟨hgrained.grain_dvd.trans (spacing_dvd_spacing hm), hgrained.spacing_le,
    hgrained.close.imp_left fun hnear => hnear.trans (Nat.mul_le_mul_left 2 hm)⟩

/-- Halving a grained cell leaves half of its length and some grains. -/
theorem Grained.two_mul_halves_le {g : ℕ} (hgrained : Grained g l h) (hl : OnGrid l)
    (hh : OnGrid h) (hle : l ≤ h) :
    2 * middle l h ≤ l + h + 3 * g ∧ l + h ≤ 2 * middle l h + 3 * g := by
  have hgrain : 0 < g := Nat.pos_of_dvd_of_pos hgrained.grain_dvd (spacing_pos l)
  have hhalf := half_error (h - l)
  have hinside := half_toGrid_le (h - l)
  rw [middle]
  rw [toGrid_sub_eq hl hh hle hgrained.close] at hinside ⊢
  have hspacing : spacing (l + half (h - l)) ≤ 2 * g :=
    (spacing_le_spacing (by omega)).trans hgrained.spacing_le
  have herror := toGrid_error (l + half (h - l))
  omega

/-- The first halving of a cell that starts at zero. -/
theorem middle_zero (hh : OnGrid h) : middle 0 h = half h := by
  have herror := half_error h
  rw [middle, Nat.sub_zero, Nat.zero_add, toGrid_of_onGrid hh]
  refine toGrid_of_onGrid ?_
  by_cases hsmall : h < 2 ^ 53
  · exact onGrid_of_lt (by omega)
  · obtain ⟨c, rfl⟩ : 2 ∣ h := hh.even (not_lt.1 hsmall)
    rw [half_two_mul]
    exact hh.of_two_mul

section

variable {budget : ℕ} (hl : OnGrid l) (hm : OnGrid m) (hh : OnGrid h) (hlm : l < m) (hmh : m < h)

include hl hm hh hlm hmh

/-- In a cell of few grains a halving takes one of them away from each half. -/
theorem Grained.exists_fewer_of_fine {g : ℕ} (hgrained : Grained g l h)
    (hle : h ≤ l + g * (budget + 1)) :
    ∃ fewer, budget = fewer + 1 ∧ HalvedWithin fewer l (middle l h) ∧
      HalvedWithin fewer (middle l h) h := by
  have hlower := lt_middle hl hm hh hlm hmh
  have hupper := middle_lt hl hm hh hlm hmh
  have hmiddle : OnGrid (middle l h) := onGrid_toGrid _
  have hgrain : 0 < g := Nat.pos_of_dvd_of_pos hgrained.grain_dvd (spacing_pos l)
  have hgap : g ≤ spacing l := Nat.le_of_dvd (spacing_pos l) hgrained.grain_dvd
  have hbelow := hl.add_spacing_le hmiddle hlower le_rfl
  have habove := hmiddle.add_spacing_le hh hupper hlower.le
  cases budget with
  | zero => omega
  | succ fewer =>
    rw [Nat.mul_succ] at hle
    exact ⟨fewer, rfl, .fine (hgrained.lower hupper.le) (by omega),
      .fine (hgrained.upper hlower.le) (by omega)⟩

/-- A cell with a float between its bounds has a halving left, and its halves need one fewer. -/
theorem HalvedWithin.exists_fewer (hwithin : HalvedWithin budget l h) :
    ∃ fewer, budget = fewer + 1 ∧ HalvedWithin fewer l (middle l h) ∧
      HalvedWithin fewer (middle l h) h := by
  have hlower := lt_middle hl hm hh hlm hmh
  have hupper := middle_lt hl hm hh hlm hmh
  cases hwithin with
  | fine hgrained hle => exact hgrained.exists_fewer_of_fine hl hm hh hlm hmh hle
  | @coarse g k _ _ _ hgrained hle hbudget =>
    cases k with
    | zero =>
      refine hgrained.exists_fewer_of_fine hl hm hh hlm hmh (hle.trans ?_)
      exact Nat.add_le_add_left (Nat.mul_le_mul_left _ (by omega)) _
    | succ k =>
      obtain ⟨hbelow, habove⟩ := hgrained.two_mul_halves_le hl hh (by omega)
      have htwice : g * (2 ^ (k + 1) + 3) + 3 * g = 2 * (g * (2 ^ k + 3)) := by
        rw [pow_succ]
        ring
      obtain ⟨fewer, rfl⟩ : ∃ fewer, budget = fewer + 1 := ⟨budget - 1, by omega⟩
      exact ⟨fewer, rfl, .coarse (k := k) (hgrained.lower hupper.le) (by omega) (by omega),
        .coarse (k := k) (hgrained.upper hlower.le) (by omega) (by omega)⟩
  | @fromZero j _ _ hle hbudget =>
    -- the lower half starts at zero again, the upper half has a gap of its lower bound as its grain
    have hhalf := half_error h
    rw [middle_zero hh] at hlower hupper ⊢
    obtain ⟨fewer, rfl⟩ : ∃ fewer, budget = fewer + 1 := ⟨budget - 1, by omega⟩
    obtain ⟨i, rfl⟩ : ∃ i, j = i + 1 := by
      refine Nat.exists_eq_succ_of_ne_zero ?_
      rintro rfl
      omega
    rw [pow_succ] at hle
    have hdigits := lt_mul_spacing (half h)
    refine ⟨fewer, rfl, .fromZero (j := i) (by omega) (by omega), .coarse (g := spacing (half h))
      (k := 53) ⟨dvd_rfl, ?_, ?_⟩ (by omega) (by omega)⟩
    · exact (spacing_le_spacing (by omega)).trans (spacing_two_mul_add_one_le hlower)
    · by_cases hsmall : h < 2 ^ 53
      · exact .inr hsmall
      · have heven := hh.even (not_lt.1 hsmall)
        omega

end

end Binary64

end ZeroSet
