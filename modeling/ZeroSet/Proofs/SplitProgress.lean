import ZeroSet.Proofs.FloatUnits
import ZeroSet.Proofs.HalvingDepth

/-!
# Halvings that make progress

Between two floats that are neighbours there is no midpoint: the midpoint is computed as one of
them, and one half is the cell itself.  As the gaps between floats grow with the distance, a search
over floats comes to an end for every expression just if the last gap below the far end is narrower
than the tolerance.

* `Interval.Spans` — a cell of floats in units.
* `Interval.Spans.splits_iff` — a cell is split if there is a float between its bounds.
* `Bisection.Reaches` — the cells that a search without a limit on its halvings comes to.
* `Bisection.Resolves` — the tolerance can be reached at the far end.
* `Bisection.Resolves.bounds` — then there are never more halvings than the limit has.
* `Bisection.not_concludes_of_ends` — otherwise a search for the far end goes on for ever.
* `Bisection.split_progress` — all of this for the window of a search.
-/

namespace ZeroSet

open Binary64

/-! ## Cells of floats -/

namespace Interval

/-- The midpoint lies strictly between the bounds. -/
def Splits {K : Type} [Scalar K] (cell : Interval K) : Prop :=
  cell.lo < cell.midpoint ∧ cell.midpoint < cell.hi

theorem eq_of_bounds {K : Type} {cell : Interval K} {x y : K} (hlo : cell.lo = x)
    (hhi : cell.hi = y) : cell = ⟨x, y⟩ := by
  subst hlo hhi
  rfl

/-- The bounds are so many units, in order. -/
structure Spans (cell : Interval Float) (l h : ℕ) : Prop where
  /-- The lower bound. -/
  lo : Units cell.lo l
  /-- The upper bound. -/
  hi : Units cell.hi h
  /-- The bounds are in order. -/
  le : l ≤ h

namespace Spans

variable {cell : Interval Float} {l h : ℕ}

theorem onGrid_lo (hcell : cell.Spans l h) : OnGrid l := hcell.lo.onGrid

theorem onGrid_hi (hcell : cell.Spans l h) : OnGrid h := hcell.hi.onGrid

theorem middle_le (hcell : cell.Spans l h) : middle l h ≤ h :=
  Binary64.middle_le hcell.onGrid_hi hcell.le

theorem length (hcell : cell.Spans l h) : Units cell.length (toGrid (h - l) : ℕ) :=
  hcell.hi.sub_natCast hcell.lo hcell.le

theorem midpoint (hcell : cell.Spans l h) : Units cell.midpoint (middle l h : ℕ) := by
  refine hcell.lo.add_natCast hcell.length.half_mul_natCast ?_
  exact hcell.middle_le.trans_lt hcell.hi.lt_overflow

theorem lowerHalf (hcell : cell.Spans l h) : cell.lowerHalf.Spans l (middle l h) :=
  ⟨hcell.lo, hcell.midpoint, le_middle hcell.onGrid_lo⟩

theorem upperHalf (hcell : cell.Spans l h) : cell.upperHalf.Spans (middle l h) h :=
  ⟨hcell.midpoint, hcell.hi, hcell.middle_le⟩

/-- The midpoint in units. -/
theorem splits_iff_middle (hcell : cell.Spans l h) :
    cell.Splits ↔ l < middle l h ∧ middle l h < h := by
  rw [Splits, hcell.lo.lt_iff hcell.midpoint, hcell.midpoint.lt_iff hcell.hi, Nat.cast_lt,
    Nat.cast_lt]

/-- The floats between the bounds in units. -/
theorem exists_between_iff (hcell : cell.Spans l h) :
    (∃ x, cell.lo < x ∧ x < cell.hi) ↔ ∃ m, OnGrid m ∧ l < m ∧ m < h := by
  constructor
  · rintro ⟨x, hlo, hhi⟩
    obtain ⟨z, hz⟩ := exists_units_of_le hcell.lo hcell.hi (le_of_lt hlo) (le_of_lt hhi)
    rw [hcell.lo.lt_iff hz] at hlo
    rw [hz.lt_iff hcell.hi] at hhi
    obtain ⟨m, rfl⟩ := Int.eq_ofNat_of_zero_le ((Int.natCast_nonneg l).trans hlo.le)
    exact ⟨m, hz.onGrid, Nat.cast_lt.1 hlo, Nat.cast_lt.1 hhi⟩
  · rintro ⟨m, hm, hlo, hhi⟩
    obtain ⟨x, hx⟩ := exists_of_onGrid hm (hhi.trans hcell.hi.lt_overflow)
    exact ⟨x, (hcell.lo.lt_iff hx).2 (Nat.cast_lt.2 hlo),
      (hx.lt_iff hcell.hi).2 (Nat.cast_lt.2 hhi)⟩

/-- A cell is split exactly if there is a float between its bounds. -/
theorem splits_iff (hcell : cell.Spans l h) :
    cell.Splits ↔ ∃ x, cell.lo < x ∧ x < cell.hi := by
  constructor
  · exact fun hsplits => ⟨cell.midpoint, hsplits⟩
  · intro hbetween
    obtain ⟨m, hm, hlm, hmh⟩ := hcell.exists_between_iff.1 hbetween
    exact hcell.splits_iff_middle.2 ⟨lt_middle hcell.onGrid_lo hm hcell.onGrid_hi hlm hmh,
      middle_lt hcell.onGrid_lo hm hcell.onGrid_hi hlm hmh⟩

/-- The halves of a cell that is split are shorter than the cell. -/
theorem length_halves_lt (hcell : cell.Spans l h) (hsplits : cell.Splits) :
    cell.lowerHalf.length < cell.length ∧ cell.upperHalf.length < cell.length := by
  obtain ⟨hlm, hmh⟩ := hcell.splits_iff_middle.1 hsplits
  have hshorter :=
    toGrid_halves_lt hcell.onGrid_lo hcell.midpoint.onGrid hcell.onGrid_hi hlm hmh
  rw [hcell.lowerHalf.length.lt_iff hcell.length, hcell.upperHalf.length.lt_iff hcell.length,
    Nat.cast_lt, Nat.cast_lt]
  exact hshorter

end Spans

end Interval

/-! ## The cells that a search comes to -/

namespace Bisection

section

variable {K : Type} [Scalar K]

/-- The cell is long, and its enclosure leaves room for a root. -/
def IsHalved (b : Bisection K) (g : Expr K) (name : String) (env : Env K) (cell : Interval K) :
    Prop :=
  ∃ enclosure, (enclose g name cell).value env = .ok enclosure ∧
    enclosure.containsZero = true ∧ ¬cell.length < b.rootTolerance

/-- The enclosure of the cell excludes zero. -/
def IsPruned (g : Expr K) (name : String) (env : Env K) (cell : Interval K) : Prop :=
  ∃ enclosure, (enclose g name cell).value env = .ok enclosure ∧ enclosure.containsZero = false

/-- A search without a limit on its halvings comes to a cell after `depth` halvings, with so much
effort. -/
inductive Reaches (b : Bisection K) (g : Expr K) (name : String) (env : Env K)
    (window : Interval K) : (depth : ℕ) → Interval K → Effort → Prop
  /-- It starts with the window. -/
  | window : Reaches b g name env window 0 window .zero
  /-- Of a cell that is halved it searches the lower half. -/
  | lower {depth : ℕ} {cell : Interval K} {effort : Effort}
    (hcell : Reaches b g name env window depth cell effort) (hhalved : b.IsHalved g name env cell) :
    Reaches b g name env window (depth + 1) cell.lowerHalf (effort.examine depth)
  /-- When the lower half has nothing to offer, it searches the upper half. -/
  | upper {depth : ℕ} {cell : Interval K} {effort effort' : Effort}
    (hcell : Reaches b g name env window depth cell effort) (hhalved : b.IsHalved g name env cell)
    (hlower : b.Concludes g name env (depth + 1) cell.lowerHalf (effort.examine depth)
      (.ok (none, effort'))) :
    Reaches b g name env window (depth + 1) cell.upperHalf effort'

variable {b : Bisection K} {g : Expr K} {name : String} {env : Env K} {window cell : Interval K}
  {depth : ℕ} {effort : Effort}

/-- A cell of a line. -/
theorem isHalved_line {c : K} (horder : cell.lo ≤ cell.hi)
    (hzero : (⟨cell.lo - c, cell.hi - c⟩ : Interval K).containsZero = true)
    (hlong : ¬cell.length < b.rootTolerance) :
    b.IsHalved (.var "t" - .num c) "t" .empty cell :=
  ⟨_, enclose_line horder, hzero, hlong⟩

theorem isPruned_line {c : K} (horder : cell.lo ≤ cell.hi)
    (hzero : (⟨cell.lo - c, cell.hi - c⟩ : Interval K).containsZero = false) :
    IsPruned (.var "t" - .num c) "t" .empty cell :=
  ⟨_, enclose_line horder, hzero⟩

/-- A cell that is pruned has nothing to offer. -/
theorem concludes_of_isPruned (h : IsPruned g name env cell) (depth : ℕ) (effort : Effort) :
    b.Concludes g name env depth cell effort (.ok (none, (effort.examine depth).prune)) := by
  obtain ⟨enclosure, henclosure, hzero⟩ := h
  exact .pruned henclosure hzero

/-- It has no other outcome. -/
theorem Concludes.eq_of_isPruned {outcome : Except (EvalError K) (Option (Interval K) × Effort)}
    (hconcludes : b.Concludes g name env depth cell effort outcome)
    (h : IsPruned g name env cell) : outcome = .ok (none, (effort.examine depth).prune) := by
  obtain ⟨enclosure, henclosure, hzero⟩ := h
  cases hconcludes <;> simp_all

/-- A search descends through lower halves. -/
theorem Reaches.iterate_lowerHalf (h : b.Reaches g name env window depth cell effort) {k : ℕ}
    (hhalved : ∀ i < k, b.IsHalved g name env (Interval.lowerHalf^[i] cell)) :
    ∃ depth' effort', b.Reaches g name env window depth' (Interval.lowerHalf^[k] cell) effort' := by
  induction k with
  | zero => exact ⟨depth, effort, h⟩
  | succ k ih =>
    obtain ⟨depth', effort', hreaches⟩ := ih fun i hi => hhalved i (hi.trans (Nat.lt_succ_self k))
    rw [Function.iterate_succ_apply']
    exact ⟨_, _, hreaches.lower (hhalved k (Nat.lt_succ_self k))⟩

/-- A search climbs through upper halves when the lower ones are pruned. -/
theorem concludes_of_iterate_upperHalf {k : ℕ}
    (hhalved : ∀ i < k, b.IsHalved g name env (Interval.upperHalf^[i] cell) ∧
      IsPruned g name env (Interval.upperHalf^[i] cell).lowerHalf)
    (hlast : ∀ depth effort, ∃ effort',
      b.Concludes g name env depth (Interval.upperHalf^[k] cell) effort (.ok (none, effort'))) :
    ∀ depth effort, ∃ effort', b.Concludes g name env depth cell effort (.ok (none, effort')) := by
  induction k generalizing cell with
  | zero => exact hlast
  | succ k ih =>
    intro depth effort
    obtain ⟨⟨enclosure, henclosure, hzero, hlong⟩, hpruned⟩ := hhalved 0 (Nat.succ_pos k)
    have hbelow := concludes_of_isPruned (b := b) hpruned (depth + 1) (effort.examine depth)
    obtain ⟨effort', habove⟩ := @ih cell.upperHalf
      (fun i hi => hhalved (i + 1) (Nat.succ_lt_succ hi)) hlast (depth + 1) _
    exact ⟨effort', .upper henclosure hzero hlong hbelow habove⟩

end

/-- Some float before the far end is less than a tolerance away from it. -/
def Resolves (b : Bisection Float) : Prop :=
  ∃ x, 0 ≤ x ∧ x < b.maxDistance ∧ b.maxDistance - x < b.rootTolerance

variable {b : Bisection Float} {g : Expr Float} {name : String} {env : Env Float}
  {cell window : Interval Float} {depth l h n : ℕ} {effort : Effort}

/-- The cells that are reached lie in the window. -/
theorem Reaches.spans (h : b.Reaches g name env window depth cell effort)
    (hwindow : window.Spans 0 n) : ∃ l h, cell.Spans l h ∧ h ≤ n := by
  induction h with
  | window => exact ⟨0, n, hwindow, le_rfl⟩
  | lower _ _ ih =>
    obtain ⟨l, h, hcell, hle⟩ := ih
    exact ⟨l, _, hcell.lowerHalf, hcell.middle_le.trans hle⟩
  | upper _ _ _ ih =>
    obtain ⟨l, h, hcell, hle⟩ := ih
    exact ⟨_, h, hcell.upperHalf, hle⟩

/-! ### Accepted settings in units -/

section

variable {settings : Settings Float} {t : ℕ}

/-- The limits of accepted settings in units. -/
theorem exists_units_of_ofSettings (hb : ofSettings settings = .ok b) :
    ∃ n t : ℕ, Units b.maxDistance n ∧ 0 < n ∧ Units b.rootTolerance t ∧ 0 < b.epsilon := by
  obtain ⟨haccepted, rfl⟩ := ofSettings_iff.1 hb
  obtain ⟨n, hpos, hn⟩ := exists_units_of_pos haccepted.maxDistance.1 haccepted.maxDistance.2
  obtain ⟨t, -, ht⟩ := exists_units_of_pos haccepted.rootTolerance.1 haccepted.rootTolerance.2
  exact ⟨n, t, hn, hpos, ht, haccepted.epsilon.2⟩

/-- The window in units. -/
theorem spans_window (hn : Units b.maxDistance n) (hepsilon : 0 < b.epsilon) {far : Float}
    (hopen : b.epsilon < (b.window far).hi) : ∃ m, m ≤ n ∧ (b.window far).Spans 0 m := by
  have hpos : 0 < (b.window far).hi := IsTrans.trans _ _ _ hepsilon hopen
  obtain ⟨m, hmn, hm⟩ := exists_natCast_units_of_le hn (le_of_lt hpos) hn.lesser_le
  exact ⟨m, hmn, units_zero, hm, Nat.zero_le m⟩

/-- Whether the tolerance can be reached, in units. -/
theorem resolves_iff (hn : Units b.maxDistance n) (ht : Units b.rootTolerance t) :
    b.Resolves ↔ ∃ p, OnGrid p ∧ p < n ∧ toGrid (n - p) < t := by
  constructor
  · rintro ⟨x, hzero, hx, hnear⟩
    obtain ⟨p, hle, hp⟩ := exists_natCast_units_of_le hn hzero (le_of_lt hx)
    rw [hp.lt_iff hn, Nat.cast_lt] at hx
    rw [(hn.sub_natCast hp hle).lt_iff ht, Nat.cast_lt] at hnear
    exact ⟨p, hp.onGrid, hx, hnear⟩
  · rintro ⟨p, hp, hlt, hnear⟩
    obtain ⟨x, hx⟩ := exists_of_onGrid hp (hlt.trans hn.lt_overflow)
    refine ⟨x, (units_zero.le_iff hx).2 (Int.natCast_nonneg p), (hx.lt_iff hn).2 ?_, ?_⟩
    · exact Nat.cast_lt.2 hlt
    · exact ((hn.sub_natCast hx hlt.le).lt_iff ht).2 (Nat.cast_lt.2 hnear)

/-- If the tolerance can be reached, then every long cell has a float inside. -/
theorem Resolves.exists_between (hresolves : b.Resolves) (hn : Units b.maxDistance n)
    (ht : Units b.rootTolerance t) (hcell : cell.Spans l h) (hle : h ≤ n)
    (hlong : ¬cell.length < b.rootTolerance) : ∃ m, OnGrid m ∧ l < m ∧ m < h := by
  obtain ⟨p, hp, hpn, hnear⟩ := (resolves_iff hn ht).1 hresolves
  rw [hcell.length.lt_iff ht, Nat.cast_lt, not_lt] at hlong
  exact Binary64.exists_between hcell.onGrid_lo hcell.onGrid_hi hp hn.onGrid hle hpn
    (hnear.trans_le hlong)

theorem Resolves.splits (hresolves : b.Resolves) (hn : Units b.maxDistance n)
    (ht : Units b.rootTolerance t) (hcell : cell.Spans l h) (hle : h ≤ n)
    (hlong : ¬cell.length < b.rootTolerance) : cell.Splits :=
  hcell.splits_iff.2 (hcell.exists_between_iff.2 (hresolves.exists_between hn ht hcell hle hlong))

/-- If the tolerance can be reached, then the numbers of units bound the halvings. -/
theorem Resolves.bounds (hresolves : b.Resolves) (hn : Units b.maxDistance n)
    (ht : Units b.rootTolerance t) :
    b.Bounds fun budget cell => ∃ l h, cell.Spans l h ∧ h ≤ n ∧ HalvedWithin budget l h := by
  rintro budget cell ⟨l, h, hcell, hle, hwithin⟩ hlong
  obtain ⟨m, hm, hlm, hmh⟩ := hresolves.exists_between hn ht hcell hle hlong
  obtain ⟨fewer, rfl, hlower, hupper⟩ :=
    hwithin.exists_fewer hcell.onGrid_lo hm hcell.onGrid_hi hlm hmh
  exact ⟨fewer, rfl, ⟨l, _, hcell.lowerHalf, hcell.middle_le.trans hle, hlower⟩,
    ⟨_, h, hcell.upperHalf, hle, hupper⟩⟩

/-- A search starts with more halvings than its window needs. -/
theorem halvedWithin_halvings (far tolerance : Float) (hn : n < overflow) :
    HalvedWithin (Scalar.halvings far tolerance) 0 n := by
  have hbudget : 2098 + 56 ≤ Scalar.halvings far tolerance := show 2098 + 56 ≤ 2200 by norm_num
  exact .fromZero hn.le hbudget

/-! ### A search that goes on for ever -/

/-- The line through the far end. -/
def lineToEnd (b : Bisection Float) : Expr Float := .var "t" - .num b.maxDistance

/-- The enclosure of the line over a cell up to the far end leaves room for a root just if the cell
ends there. -/
theorem enclose_lineToEnd (hn : Units b.maxDistance n) (hcell : cell.Spans l h) (hle : h ≤ n) :
    ∃ enclosure, (enclose b.lineToEnd "t" cell).value .empty = .ok enclosure ∧
      (enclosure.containsZero = true ↔ h = n) := by
  have horder : cell.lo ≤ cell.hi := (hcell.lo.le_iff hcell.hi).2 (Nat.cast_le.2 hcell.le)
  have hlower := hcell.lo.sub_natCast_neg hn (hcell.le.trans hle)
  have hupper := hcell.hi.sub_natCast_neg hn hle
  refine ⟨_, enclose_line horder, ?_⟩
  rw [Interval.containsZero, Bool.and_eq_true, decide_eq_true_eq, decide_eq_true_eq,
    hlower.le_iff units_zero, units_zero.le_iff hupper]
  constructor
  · rintro ⟨-, hzero⟩
    by_contra hne
    have := toGrid_pos (n := n - h) (by omega)
    omega
  · rintro rfl
    rw [Nat.sub_self, toGrid_of_onGrid onGrid_zero]
    omega

/-- The lower half of a cell that ends at the far end does so, too, or is pruned. -/
theorem lowerHalf_ends_or_isPruned (hn : Units b.maxDistance n) (hcell : cell.Spans l n) :
    cell.lowerHalf.Spans l n ∨ IsPruned b.lineToEnd "t" .empty cell.lowerHalf := by
  have hlower := hcell.lowerHalf
  by_cases heq : middle l n = n
  · rw [heq] at hlower
    exact .inl hlower
  · obtain ⟨enclosure, henclosure, hzero⟩ := enclose_lineToEnd hn hlower hcell.middle_le
    exact .inr ⟨enclosure, henclosure, Bool.eq_false_iff.2 (mt hzero.1 heq)⟩

/-- If the tolerance cannot be reached at the far end, then a search for the far end has no outcome:
the cell that ends there stays long, and one of its halves ends there. -/
theorem not_concludes_of_ends (hresolves : ¬b.Resolves) (hn : Units b.maxDistance n)
    (ht : Units b.rootTolerance t)
    {outcome : Except (EvalError Float) (Option (Interval Float) × Effort)}
    (hcell : cell.Spans l n) (hl : l < n) :
    ¬b.Concludes b.lineToEnd "t" .empty depth cell effort outcome := by
  intro hconcludes
  induction hconcludes generalizing l with
  | failed h =>
    obtain ⟨enclosure, henclosure, -⟩ := enclose_lineToEnd hn hcell le_rfl
    rw [h] at henclosure
    cases henclosure
  | pruned h hzero =>
    obtain ⟨enclosure, henclosure, hcontains⟩ := enclose_lineToEnd hn hcell le_rfl
    rw [h] at henclosure
    cases henclosure
    rw [hcontains.2 rfl] at hzero
    cases hzero
  | short h hzero hshort =>
    rw [hcell.length.lt_iff ht, Nat.cast_lt] at hshort
    exact hresolves ((resolves_iff hn ht).2 ⟨l, hcell.onGrid_lo, hl, hshort⟩)
  | lowerFailed h hzero hlong hlower ih =>
    rcases lowerHalf_ends_or_isPruned hn hcell with hends | hpruned
    · exact ih hends hl
    · cases hlower.eq_of_isPruned hpruned
  | lower h hzero hlong hlower ih =>
    rcases lowerHalf_ends_or_isPruned hn hcell with hends | hpruned
    · exact ih hends hl
    · cases hlower.eq_of_isPruned hpruned
  | upper h hzero hlong hlower hupper ihlower ihupper =>
    rcases hcell.middle_le.eq_or_lt with heq | hlt
    · have hspans := hcell.lowerHalf
      rw [heq] at hspans
      exact ihlower hspans hl
    · exact ihupper hcell.upperHalf hlt

theorem window_maxDistance (hn : Units b.maxDistance n) :
    b.window b.maxDistance = ⟨0, b.maxDistance⟩ := by
  have hle : b.maxDistance ≤ b.maxDistance := (hn.le_iff hn).2 le_rfl
  rw [window, Scalar.lesser, if_pos (by rw [decide_eq_true hle, Bool.true_or])]

theorem not_concludes_lineToEnd (hb : ofSettings settings = .ok b) (hresolves : ¬b.Resolves)
    (outcome : Except (EvalError Float) (Option (Interval Float) × Effort)) :
    ¬b.Concludes b.lineToEnd "t" .empty 0 (b.window b.maxDistance) .zero outcome := by
  obtain ⟨n, t, hn, hnpos, ht, -⟩ := exists_units_of_ofSettings hb
  rw [window_maxDistance hn]
  exact not_concludes_of_ends hresolves hn ht ⟨units_zero, hn, Nat.zero_le n⟩ hnpos

end

/-- With accepted settings, a long cell that a search comes to is split exactly if there is a float
between its bounds, and then both of its halves are shorter.  There is one, and the search comes to
an end by itself, whatever it is that is searched, if some float before the far end is less than a
tolerance away from it; if not, then a search for the far end goes on for ever. -/
theorem split_progress {settings : Settings Float} (hb : ofSettings settings = .ok b) :
    (∀ (g : Expr Float) (name : String) (env : Env Float) (far : Float),
      b.epsilon < (b.window far).hi → ∀ (depth : ℕ) (cell : Interval Float) (effort : Effort),
        b.Reaches g name env (b.window far) depth cell effort → ¬cell.length < b.rootTolerance →
          (cell.Splits ↔ ∃ x, cell.lo < x ∧ x < cell.hi) ∧
          (cell.Splits →
            cell.lowerHalf.length < cell.length ∧ cell.upperHalf.length < cell.length) ∧
          (b.Resolves → cell.Splits)) ∧
      (b.Resolves → ∀ (g : Expr Float) (name : String) (env : Env Float) (far : Float),
        b.epsilon < (b.window far).hi → ∀ outcome,
          b.Concludes g name env 0 (b.window far) .zero outcome ↔
            (b.findLeafWithin g name far).value env = outcome) ∧
      (¬b.Resolves → ∀ outcome,
        ¬b.Concludes b.lineToEnd "t" .empty 0 (b.window b.maxDistance) .zero outcome) := by
  obtain ⟨n, t, hn, -, ht, hepsilon⟩ := exists_units_of_ofSettings hb
  refine ⟨fun g name env far hopen depth cell effort hreaches hlong => ?_,
    fun hresolves g name env far hopen outcome => ?_, not_concludes_lineToEnd hb⟩
  · obtain ⟨m, hmn, hwindow⟩ := spans_window hn hepsilon hopen
    obtain ⟨l, h, hcell, hle⟩ := hreaches.spans hwindow
    exact ⟨hcell.splits_iff, hcell.length_halves_lt,
      fun hresolves => hresolves.splits hn ht hcell (hle.trans hmn) hlong⟩
  · obtain ⟨m, hmn, hwindow⟩ := spans_window hn hepsilon hopen
    rw [value_findLeafWithin_of_lt hopen, (hresolves.bounds hn ht).concludes_iff]
    exact ⟨0, m, hwindow, hmn, halvedWithin_halvings _ _ hwindow.hi.lt_overflow⟩

/-- The standard settings reach their tolerance. -/
theorem split_progress_standard : ∃ b : Bisection Float,
    ofSettings .standard = .ok b ∧ b.Resolves ∧ b.epsilon < (b.window b.maxDistance).hi ∧
      ∀ (g : Expr Float) (name : String) (env : Env Float) outcome,
        b.Concludes g name env 0 (b.window b.maxDistance) .zero outcome ↔
          (b.findLeaf g name).value env = outcome := by
  have hb : ofSettings (.standard : Settings Float) = .ok ⟨100.0, 1e-3, defaultEpsilon⟩ := by
    refine ofSettings_iff.2 ⟨⟨?_, ?_, ?_, ?_⟩, rfl⟩ <;> decide +kernel
  have hresolves : (⟨100.0, 1e-3, defaultEpsilon⟩ : Bisection Float).Resolves :=
    ⟨99.9999, by decide +kernel⟩
  have hopen : (defaultEpsilon : Float) <
      ((⟨100.0, 1e-3, defaultEpsilon⟩ : Bisection Float).window 100.0).hi := by decide +kernel
  exact ⟨_, hb, hresolves, hopen,
    fun g name env => (split_progress hb).2.1 hresolves g name env _ hopen⟩

/-! ## A tolerance as wide as a gap -/

/-- A search up to two, for which the tolerance is the gap between the floats from one to two. -/
def gapWide : Bisection Float := ⟨2, 1 / 4503599627370496, 1 - 1 / 9007199254740992⟩

theorem ofSettings_gapWide :
    ofSettings ⟨2, 1 / 4503599627370496, 1 - 1 / 9007199254740992, 0⟩ = .ok gapWide := by
  refine ofSettings_iff.2 ⟨⟨?_, ?_, ?_, ?_⟩, rfl⟩ <;> decide +kernel

/-- The last cell before two is long, but its midpoint is two. -/
theorem not_resolves_gapWide : ¬gapWide.Resolves := by
  intro hresolves
  obtain ⟨n, t, hn, -, ht, -⟩ := exists_units_of_ofSettings ofSettings_gapWide
  obtain ⟨m, hmn, hm⟩ := exists_natCast_units_of_le (x := 2 - 1 / 4503599627370496) hn
    (by decide +kernel) (by decide +kernel)
  have hcell : (⟨2 - 1 / 4503599627370496, gapWide.maxDistance⟩ : Interval Float).Spans m n :=
    ⟨hm, hn, hmn⟩
  obtain ⟨-, hsplits⟩ := hresolves.splits hn ht hcell le_rfl (by decide +kernel)
  exact absurd hsplits (by decide +kernel)

/-- The search for one climbs through the upper halves of the cells below one in vain. -/
theorem concludes_below_one (depth : ℕ) (effort : Effort) : ∃ effort',
    gapWide.Concludes (.var "t" - .num 1) "t" .empty depth ⟨0, 1⟩ effort (.ok (none, effort')) := by
  have hcells : (∀ i < 53,
      let cell := Interval.upperHalf^[i] (⟨0, 1⟩ : Interval Float)
      (cell.lo ≤ cell.hi ∧
        (⟨cell.lo - 1, cell.hi - 1⟩ : Interval Float).containsZero = true ∧
        ¬cell.length < gapWide.rootTolerance) ∧
      (cell.lowerHalf.lo ≤ cell.lowerHalf.hi ∧
        (⟨cell.lowerHalf.lo - 1, cell.lowerHalf.hi - 1⟩ : Interval Float).containsZero = false)) ∧
      let last := Interval.upperHalf^[53] (⟨0, 1⟩ : Interval Float)
      last.lo ≤ last.hi ∧ (⟨last.lo - 1, last.hi - 1⟩ : Interval Float).containsZero = true ∧
        last.length < gapWide.rootTolerance ∧ ¬gapWide.epsilon < last.lo := by
    decide +kernel
  obtain ⟨hclimb, horder, hzero, hshort, hnear⟩ := hcells
  refine concludes_of_iterate_upperHalf (k := 53) (fun i hi => ?_) (fun depth effort => ?_) depth
    effort
  · obtain ⟨⟨horder, hzero, hlong⟩, horder', hzero'⟩ := hclimb i hi
    exact ⟨isHalved_line horder hzero hlong, isPruned_line horder' hzero'⟩
  · -- the last cell is short, but starts no later than what is passed over
    have hnone : gapWide.accepted (Interval.upperHalf^[53] ⟨0, 1⟩) = none := if_neg hnear
    refine ⟨(effort.examine depth).leaf, ?_⟩
    rw [← hnone]
    exact .short (enclose_line horder) hzero hshort

/-- In the search for one, the cell from one to the next float is reached, is long, and is not
split: its midpoint is one.  The search for two goes on for ever. -/
theorem not_splits_of_reaches : ∃ (depth : ℕ) (effort : Effort),
    ofSettings ⟨2, 1 / 4503599627370496, 1 - 1 / 9007199254740992, 0⟩ = .ok gapWide ∧
      gapWide.epsilon < (gapWide.window 2).hi ∧
      gapWide.Reaches (.var "t" - .num 1) "t" .empty (gapWide.window 2) depth
        ⟨1, 1 + 1 / 4503599627370496⟩ effort ∧
      ¬(⟨1, 1 + 1 / 4503599627370496⟩ : Interval Float).length < gapWide.rootTolerance ∧
      (⟨1, 1 + 1 / 4503599627370496⟩ : Interval Float).midpoint = 1 ∧
      ∀ outcome,
        ¬gapWide.Concludes (.var "t" - .num 2) "t" .empty 0 (gapWide.window 2) .zero outcome := by
  have hcells : (∀ i < 52,
      let cell := Interval.lowerHalf^[i] (⟨1, 2⟩ : Interval Float)
      cell.lo ≤ cell.hi ∧
        (⟨cell.lo - 1, cell.hi - 1⟩ : Interval Float).containsZero = true ∧
        ¬cell.length < gapWide.rootTolerance) ∧
      (Interval.lowerHalf^[52] (⟨1, 2⟩ : Interval Float)).lo = 1 ∧
        (Interval.lowerHalf^[52] (⟨1, 2⟩ : Interval Float)).hi = 1 + 1 / 4503599627370496 := by
    decide +kernel
  obtain ⟨hdescend, hlo, hhi⟩ := hcells
  have hwindow : gapWide.IsHalved (.var "t" - .num 1) "t" .empty (gapWide.window 2) :=
    isHalved_line (by decide +kernel) (by decide +kernel) (by decide +kernel)
  have hlower : (gapWide.window 2).lowerHalf = ⟨0, 1⟩ :=
    Interval.eq_of_bounds (by decide +kernel) (by decide +kernel)
  have hupper : (gapWide.window 2).upperHalf = ⟨1, 2⟩ :=
    Interval.eq_of_bounds (by decide +kernel) (by decide +kernel)
  have hcell : Interval.lowerHalf^[52] (⟨1, 2⟩ : Interval Float) =
      ⟨1, 1 + 1 / 4503599627370496⟩ := Interval.eq_of_bounds hlo hhi
  obtain ⟨effort', hbelow⟩ := concludes_below_one 1 (Effort.zero.examine 0)
  rw [← hlower] at hbelow
  have habove := Reaches.window.upper hwindow hbelow
  rw [hupper] at habove
  obtain ⟨depth, effort, hreaches⟩ := habove.iterate_lowerHalf (k := 52) fun i hi => by
    obtain ⟨horder, hzero, hlong⟩ := hdescend i hi
    exact isHalved_line horder hzero hlong
  rw [hcell] at hreaches
  exact ⟨depth, effort, ofSettings_gapWide, by decide +kernel, hreaches, by decide +kernel,
    by decide +kernel, not_concludes_lineToEnd ofSettings_gapWide not_resolves_gapWide⟩

end Bisection

end ZeroSet
