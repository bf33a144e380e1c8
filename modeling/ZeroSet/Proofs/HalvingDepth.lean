import ZeroSet.Proofs.Explorations

/-!
# How deep a search goes

Over exact scalars a search with accepted settings comes to an end by itself: it never halves a cell
more often than brings its window below the tolerance.  What it examines are cells of a dyadic
subdivision of the window.

* `Bisection.Concludes` — how a search goes that has no limit on its halvings.
* `Bisection.Bounds` — what bounds the halvings of a cell.
* `Bisection.Bounds.concludes_iff` — then it has one outcome, which a limit that is large enough
  does not change.
* `Exploration.length_of_mem_visits`, `Exploration.pairwise_visits` — how long the cells of a depth
  are, and that they do not overlap.
* `Bisection.Explores.depth_le` — how many halvings lead to a cell.
* `Bisection.depth_bounded` — all of this for the window of a search.
-/

namespace ZeroSet

variable {K : Type}

/-! ## Searching without a limit -/

namespace Bisection

/-- Searching a cell after `depth` halvings, with nothing but the tolerance to stop it, comes to an
end with an outcome. -/
inductive Concludes [Scalar K] (b : Bisection K) (g : Expr K) (name : String) (env : Env K) :
    (depth : ℕ) → Interval K → Effort →
      Except (EvalError K) (Option (Interval K) × Effort) → Prop
  /-- There is no enclosure over the cell. -/
  | failed {depth : ℕ} {cell : Interval K} {effort : Effort} {err : EvalError K}
    (h : (enclose g name cell).value env = .error err) :
    Concludes b g name env depth cell effort (.error err)
  /-- The enclosure excludes zero. -/
  | pruned {depth : ℕ} {cell enclosure : Interval K} {effort : Effort}
    (h : (enclose g name cell).value env = .ok enclosure)
    (hzero : enclosure.containsZero = false) :
    Concludes b g name env depth cell effort (.ok (none, (effort.examine depth).prune))
  /-- The cell is short. -/
  | short {depth : ℕ} {cell enclosure : Interval K} {effort : Effort}
    (h : (enclose g name cell).value env = .ok enclosure) (hzero : enclosure.containsZero = true)
    (hshort : cell.length < b.rootTolerance) :
    Concludes b g name env depth cell effort (.ok (b.accepted cell, (effort.examine depth).leaf))
  /-- The search of the lower half fails. -/
  | lowerFailed {depth : ℕ} {cell enclosure : Interval K} {effort : Effort} {err : EvalError K}
    (h : (enclose g name cell).value env = .ok enclosure) (hzero : enclosure.containsZero = true)
    (hlong : ¬cell.length < b.rootTolerance)
    (hlower : Concludes b g name env (depth + 1) cell.lowerHalf (effort.examine depth)
      (.error err)) :
    Concludes b g name env depth cell effort (.error err)
  /-- The lower half has a leaf to offer. -/
  | lower {depth : ℕ} {cell enclosure leaf : Interval K} {effort effort' : Effort}
    (h : (enclose g name cell).value env = .ok enclosure) (hzero : enclosure.containsZero = true)
    (hlong : ¬cell.length < b.rootTolerance)
    (hlower : Concludes b g name env (depth + 1) cell.lowerHalf (effort.examine depth)
      (.ok (some leaf, effort'))) :
    Concludes b g name env depth cell effort (.ok (some leaf, effort'))
  /-- The lower half has nothing to offer, and the upper half decides. -/
  | upper {depth : ℕ} {cell enclosure : Interval K} {effort effort' : Effort}
    {outcome : Except (EvalError K) (Option (Interval K) × Effort)}
    (h : (enclose g name cell).value env = .ok enclosure) (hzero : enclosure.containsZero = true)
    (hlong : ¬cell.length < b.rootTolerance)
    (hlower : Concludes b g name env (depth + 1) cell.lowerHalf (effort.examine depth)
      (.ok (none, effort')))
    (hupper : Concludes b g name env (depth + 1) cell.upperHalf effort' outcome) :
    Concludes b g name env depth cell effort outcome

/-- A bound on the halvings that a cell needs: a long cell has one left, and its halves need one
fewer. -/
def Bounds [Scalar K] (b : Bisection K) (within : ℕ → Interval K → Prop) : Prop :=
  ∀ (budget : ℕ) (cell : Interval K), within budget cell → ¬cell.length < b.rootTolerance →
    ∃ fewer, budget = fewer + 1 ∧ within fewer cell.lowerHalf ∧ within fewer cell.upperHalf

section

variable [Scalar K] {b : Bisection K} {g : Expr K} {name : String} {env : Env K}
  {within : ℕ → Interval K → Prop}

/-- With enough halvings left the limit is not felt: the search goes as one without it. -/
theorem Bounds.concludes_search (hbounds : b.Bounds within) {budget depth : ℕ} {cell : Interval K}
    {effort : Effort} (hcell : within budget cell) :
    b.Concludes g name env depth cell effort
      (Evaluation.value ((b.search g name budget depth cell).run effort) env) := by
  induction budget using Nat.strongRecOn generalizing depth cell effort with
  | ind budget ih =>
    cases henclosure : (enclose g name cell).value env with
    | error err =>
      rw [value_search, henclosure]
      exact .failed henclosure
    | ok enclosure =>
      cases hzero : enclosure.containsZero with
      | false =>
        rw [value_search_pruned henclosure hzero]
        exact .pruned henclosure hzero
      | true =>
        by_cases hshort : cell.length < b.rootTolerance
        · rw [value_search_short henclosure hzero hshort]
          exact .short henclosure hzero hshort
        · obtain ⟨fewer, rfl, hlower, hupper⟩ := hbounds _ _ hcell hshort
          have hbelow :
              b.Concludes g name env (depth + 1) cell.lowerHalf (effort.examine depth) _ :=
            ih fewer (Nat.lt_succ_self _) hlower
          rw [value_search_halved henclosure hzero hshort]
          rcases hvalue : Evaluation.value ((b.search g name fewer (depth + 1)
            cell.lowerHalf).run (effort.examine depth)) env with err | ⟨_ | leaf, effort'⟩
          · rw [hvalue] at hbelow
            exact .lowerFailed henclosure hzero hshort hbelow
          · rw [hvalue] at hbelow
            exact .upper henclosure hzero hshort hbelow (ih fewer (Nat.lt_succ_self _) hupper)
          · rw [hvalue] at hbelow
            exact .lower henclosure hzero hshort hbelow

/-- How a search without a limit comes to an end is how one with enough halvings left does. -/
theorem Bounds.value_search (hbounds : b.Bounds within) {depth : ℕ} {cell : Interval K}
    {effort : Effort} {outcome : Except (EvalError K) (Option (Interval K) × Effort)}
    (h : b.Concludes g name env depth cell effort outcome) {budget : ℕ}
    (hcell : within budget cell) :
    Evaluation.value ((b.search g name budget depth cell).run effort) env = outcome := by
  induction h generalizing budget with
  | failed h =>
    rw [Bisection.value_search, h]
    rfl
  | pruned h hzero => exact value_search_pruned h hzero
  | short h hzero hshort => exact value_search_short h hzero hshort
  | lowerFailed h hzero hlong _ ih =>
    obtain ⟨fewer, rfl, hlower, -⟩ := hbounds _ _ hcell hlong
    rw [value_search_halved h hzero hlong, ih hlower]
    rfl
  | lower h hzero hlong _ ih =>
    obtain ⟨fewer, rfl, hlower, -⟩ := hbounds _ _ hcell hlong
    rw [value_search_halved h hzero hlong, ih hlower]
    rfl
  | upper h hzero hlong _ _ ihlower ihupper =>
    obtain ⟨fewer, rfl, hlower, hupper⟩ := hbounds _ _ hcell hlong
    rw [value_search_halved h hzero hlong, ihlower hlower]
    exact ihupper hupper

/-- A search without a limit has exactly one outcome, that of a search with enough halvings left. -/
theorem Bounds.concludes_iff (hbounds : b.Bounds within) {budget depth : ℕ} {cell : Interval K}
    {effort : Effort} (hcell : within budget cell)
    (outcome : Except (EvalError K) (Option (Interval K) × Effort)) :
    b.Concludes g name env depth cell effort outcome ↔
      Evaluation.value ((b.search g name budget depth cell).run effort) env = outcome :=
  ⟨fun h => hbounds.value_search h hcell, fun h => h ▸ hbounds.concludes_search hcell⟩

end

variable [ExactScalar K] {b : Bisection K} {g : Expr K} {name : String} {env : Env K}

/-- Exact halving halves the length, which bounds the halvings. -/
theorem bounds_length (b : Bisection K) :
    b.Bounds fun budget cell => cell.length < b.rootTolerance * 2 ^ budget := by
  intro budget cell hlength hlong
  cases budget with
  | zero =>
    rw [pow_zero, mul_one] at hlength
    exact (hlong hlength).elim
  | succ fewer =>
    have hhalf : cell.length / 2 < b.rootTolerance * 2 ^ fewer := by
      rw [pow_succ] at hlength
      linarith
    refine ⟨fewer, rfl, ?_, ?_⟩
    · rwa [← Interval.length_lowerHalf] at hhalf
    · rwa [← Interval.length_upperHalf] at hhalf

/-- A search of a cell with enough halvings left for its length goes as one without a limit. -/
theorem concludes_iff {budget depth : ℕ} {cell : Interval K} {effort : Effort}
    (hlength : cell.length < b.rootTolerance * 2 ^ budget)
    (outcome : Except (EvalError K) (Option (Interval K) × Effort)) :
    b.Concludes g name env depth cell effort outcome ↔
      Evaluation.value ((b.search g name budget depth cell).run effort) env = outcome :=
  (bounds_length b).concludes_iff hlength outcome

end Bisection

/-! ## The cells that are examined -/

namespace Exploration

variable {found : Bool}

theorem le_depth_of_mem_visits [Scalar K] (t : Exploration found) {depth : ℕ} {cell : Interval K} :
    ∀ v ∈ t.visits depth cell, depth ≤ v.depth := by
  induction t generalizing depth cell with
  | pruned => exact List.forall_mem_singleton.2 le_rfl
  | near => exact List.forall_mem_singleton.2 le_rfl
  | leaf => exact List.forall_mem_singleton.2 le_rfl
  | lower below ih =>
    exact List.forall_mem_cons.2 ⟨le_rfl, fun v hv => Nat.le_of_succ_le (ih v hv)⟩
  | both below above ihbelow ihabove =>
    refine List.forall_mem_cons.2 ⟨le_rfl, List.forall_mem_append.2 ⟨?_, ?_⟩⟩
    · exact fun v hv => Nat.le_of_succ_le (ihbelow v hv)
    · exact fun v hv => Nat.le_of_succ_le (ihabove v hv)

/-- What is examined are cells of the window. -/
theorem isCellOf_of_mem_visits [Scalar K] (t : Exploration found) {depth : ℕ}
    {window cell : Interval K} (hcell : window.IsCellOf cell) :
    ∀ v ∈ t.visits depth cell, window.IsCellOf v.cell := by
  induction t generalizing depth cell with
  | pruned => exact List.forall_mem_singleton.2 hcell
  | near => exact List.forall_mem_singleton.2 hcell
  | leaf => exact List.forall_mem_singleton.2 hcell
  | lower below ih => exact List.forall_mem_cons.2 ⟨hcell, ih hcell.lower⟩
  | both below above ihbelow ihabove =>
    exact List.forall_mem_cons.2
      ⟨hcell, List.forall_mem_append.2 ⟨ihbelow hcell.lower, ihabove hcell.upper⟩⟩

variable [ExactScalar K]

/-- Every halving halves the length. -/
theorem length_of_mem_visits (t : Exploration found) {depth : ℕ} {cell : Interval K} :
    ∀ v ∈ t.visits depth cell, v.cell.length * 2 ^ v.depth = cell.length * 2 ^ depth := by
  have hhalf : ∀ (length : K) (depth : ℕ), length / 2 * 2 ^ (depth + 1) = length * 2 ^ depth := by
    intro length depth
    rw [pow_succ]
    ring
  induction t generalizing depth cell with
  | pruned => exact List.forall_mem_singleton.2 rfl
  | near => exact List.forall_mem_singleton.2 rfl
  | leaf => exact List.forall_mem_singleton.2 rfl
  | lower below ih =>
    refine List.forall_mem_cons.2 ⟨rfl, fun v hv => ?_⟩
    rw [ih v hv, Interval.length_lowerHalf, hhalf]
  | both below above ihbelow ihabove =>
    refine List.forall_mem_cons.2 ⟨rfl, List.forall_mem_append.2 ⟨fun v hv => ?_, fun v hv => ?_⟩⟩
    · rw [ihbelow v hv, Interval.length_lowerHalf, hhalf]
    · rw [ihabove v hv, Interval.length_upperHalf, hhalf]

/-- Of two cells after the same number of halvings, the one that is examined first ends where the
other one starts, or before. -/
theorem pairwise_visits (t : Exploration found) {depth : ℕ} {cell : Interval K}
    (hcell : cell.lo ≤ cell.hi) :
    (t.visits depth cell).Pairwise fun u v => u.depth = v.depth → u.cell.hi ≤ v.cell.lo := by
  have hmid := cell.midpoint_eq
  induction t generalizing depth cell with
  | pruned => exact List.pairwise_singleton ..
  | near => exact List.pairwise_singleton ..
  | leaf => exact List.pairwise_singleton ..
  | lower below ih =>
    have hlower : cell.lowerHalf.lo ≤ cell.lowerHalf.hi :=
      show cell.lo ≤ cell.midpoint by linarith
    refine List.pairwise_cons.2 ⟨fun v hv hdepth => ?_, ih hlower (Interval.midpoint_eq _)⟩
    exact absurd hdepth (Nat.ne_of_lt (below.le_depth_of_mem_visits v hv))
  | both below above ihbelow ihabove =>
    have hlower : cell.lowerHalf.lo ≤ cell.lowerHalf.hi :=
      show cell.lo ≤ cell.midpoint by linarith
    have hupper : cell.upperHalf.lo ≤ cell.upperHalf.hi :=
      show cell.midpoint ≤ cell.hi by linarith
    refine List.pairwise_cons.2 ⟨?_, List.pairwise_append.2
      ⟨ihbelow hlower (Interval.midpoint_eq _), ihabove hupper (Interval.midpoint_eq _), ?_⟩⟩
    · refine List.forall_mem_append.2 ⟨fun v hv hdepth => ?_, fun v hv hdepth => ?_⟩
      · exact absurd hdepth (Nat.ne_of_lt (below.le_depth_of_mem_visits v hv))
      · exact absurd hdepth (Nat.ne_of_lt (above.le_depth_of_mem_visits v hv))
    · -- the midpoint separates what is examined in the two halves
      intro u hu v hv _
      obtain ⟨-, -, hhi⟩ := (below.isCellOf_of_mem_visits .whole u hu).bounds hlower
      obtain ⟨hlo, -⟩ := (above.isCellOf_of_mem_visits .whole v hv).bounds hupper
      exact hhi.trans hlo

end Exploration

/-! ## The depth of a search -/

namespace Bisection

variable [ExactScalar K] {b : Bisection K} {g : Expr K} {name : String} {env : Env K}

/-- To a cell there lead no more halvings than make the first one short. -/
theorem Explores.depth_le {found : Bool} {t : Exploration found} {budget depth halvings : ℕ}
    {cell : Interval K} (h : b.Explores g name env budget cell t)
    (hlength : cell.length < b.rootTolerance * 2 ^ halvings) :
    ∀ v ∈ t.visits depth cell, v.depth ≤ depth + halvings := by
  induction h generalizing depth halvings with
  | pruned => exact List.forall_mem_singleton.2 (Nat.le_add_right _ _)
  | near => exact List.forall_mem_singleton.2 (Nat.le_add_right _ _)
  | leaf => exact List.forall_mem_singleton.2 (Nat.le_add_right _ _)
  | lower _ _ hlong _ ih =>
    obtain ⟨fewer, rfl, hlower, -⟩ := b.bounds_length _ _ hlength hlong
    refine List.forall_mem_cons.2 ⟨Nat.le_add_right _ _, fun v hv => ?_⟩
    have := ih hlower v hv
    omega
  | both _ _ hlong _ _ ihbelow ihabove =>
    obtain ⟨fewer, rfl, hlower, hupper⟩ := b.bounds_length _ _ hlength hlong
    refine List.forall_mem_cons.2
      ⟨Nat.le_add_right _ _, List.forall_mem_append.2 ⟨fun v hv => ?_, fun v hv => ?_⟩⟩
    · have := ihbelow hlower v hv
      omega
    · have := ihabove hupper v hv
      omega

/-- With enough halvings left a cell that is not pruned is a leaf exactly if it is short. -/
theorem Explores.leaf_iff_short {found : Bool} {t : Exploration found} {budget depth : ℕ}
    {cell : Interval K} (h : b.Explores g name env budget cell t)
    (hlength : cell.length < b.rootTolerance * 2 ^ budget) :
    ∀ v ∈ t.visits depth cell, v.fate ≠ .pruned →
      (v.fate = .leaf ↔ v.cell.length < b.rootTolerance) := by
  have hshort : ∀ {budget : ℕ} {cell : Interval K}, cell.length < b.rootTolerance * 2 ^ budget →
      cell.length < b.rootTolerance ∨ budget = 0 → cell.length < b.rootTolerance := by
    rintro budget cell hlength (hshort | rfl)
    · exact hshort
    · rwa [pow_zero, mul_one] at hlength
  induction h generalizing depth with
  | pruned => exact List.forall_mem_singleton.2 fun h => (h rfl).elim
  | near _ _ hend _ =>
    exact List.forall_mem_singleton.2 fun _ => iff_of_true rfl (hshort hlength hend)
  | leaf _ _ hend _ =>
    exact List.forall_mem_singleton.2 fun _ => iff_of_true rfl (hshort hlength hend)
  | lower _ _ hlong _ ih =>
    obtain ⟨_, ⟨⟩, hlower, -⟩ := b.bounds_length _ _ hlength hlong
    exact List.forall_mem_cons.2 ⟨fun _ => iff_of_false nofun hlong, ih hlower⟩
  | both _ _ hlong _ _ ihbelow ihabove =>
    obtain ⟨_, ⟨⟩, hlower, hupper⟩ := b.bounds_length _ _ hlength hlong
    exact List.forall_mem_cons.2 ⟨fun _ => iff_of_false nofun hlong,
      List.forall_mem_append.2 ⟨ihbelow hlower, ihabove hupper⟩⟩

theorem window_eq (b : Bisection K) (far : K) : b.window far = ⟨0, min far b.maxDistance⟩ := by
  rw [window, ExactScalar.lesser_eq_min]

theorem length_window (b : Bisection K) (far : K) :
    (b.window far).length = min far b.maxDistance := by
  rw [window_eq]
  exact sub_zero _

/-- A positive tolerance is reached by halving often enough. -/
theorem exists_isLeast_halvings (htolerance : 0 < b.rootTolerance) (far : K) :
    ∃ n : ℕ, IsLeast {n : ℕ | min far b.maxDistance / 2 ^ n < b.rootTolerance} n := by
  have hreached : Scalar.halvings (min far b.maxDistance) b.rootTolerance ∈
      {n : ℕ | min far b.maxDistance / 2 ^ n < b.rootTolerance} :=
    (div_lt_iff₀ (by positivity)).2 (ExactScalar.lt_halvings _ _ htolerance)
  exact ⟨_, Nat.sInf_mem ⟨_, hreached⟩, fun _ hn => Nat.sInf_le hn⟩

/-- A search with accepted settings comes to an end by itself, with the tolerance alone to stop it,
be it that it fails or not.  If it does not fail, its depth is at most the number of halvings that
bring the window below the tolerance, and what it examines are cells of a dyadic subdivision: those
after `k` halvings are as long as the window divided by `2 ^ k`, and have at most an endpoint in
common. -/
theorem depth_bounded {settings : Settings K} (hb : ofSettings settings = .ok b) (g : Expr K)
    (name : String) (env : Env K) (far : K) :
    ∃ n : ℕ, IsLeast {n : ℕ | min far b.maxDistance / 2 ^ n < b.rootTolerance} n ∧
      (b.epsilon < min far b.maxDistance → ∀ outcome,
        b.Concludes g name env 0 (b.window far) .zero outcome ↔
          (b.findLeafWithin g name far).value env = outcome) ∧
      (¬b.epsilon < min far b.maxDistance →
        (b.findLeafWithin g name far).value env = .ok (none, .zero)) ∧
      ∀ leaf? effort, (b.findLeafWithin g name far).value env = .ok (leaf?, effort) →
        effort.maxDepth ≤ n ∧
        (b.epsilon < min far b.maxDistance → ∃ (found : Bool) (t : Exploration found),
          b.Explores g name env (Scalar.halvings (b.window far).hi b.rootTolerance)
            (b.window far) t ∧
          effort.Accounts (t.visits 0 (b.window far)) ∧
          (∀ v ∈ t.visits 0 (b.window far), v.fate ≠ .pruned →
            (v.fate = .leaf ↔ v.cell.length < b.rootTolerance)) ∧
          (∀ v ∈ t.visits 0 (b.window far),
            v.cell.length = min far b.maxDistance / 2 ^ v.depth) ∧
          (t.visits 0 (b.window far)).Pairwise fun u v => u.depth = v.depth →
            ∀ x, x ∈ u.cell → x ∈ v.cell → x = u.cell.hi ∧ x = v.cell.lo) := by
  obtain ⟨htolerance, hepsilon⟩ := limits_of_ofSettings hb
  obtain ⟨n, hn, hleast⟩ := exists_isLeast_halvings htolerance far
  have hlength : (b.window far).length < b.rootTolerance *
      2 ^ Scalar.halvings (b.window far).hi b.rootTolerance := length_window_lt hb _
  have hhi : (b.window far).hi = min far b.maxDistance := by rw [window_eq]
  refine ⟨n, ⟨hn, hleast⟩, fun hopen outcome => ?_, fun hclosed => ?_, fun leaf? effort h => ?_⟩
  · rw [concludes_iff hlength, findLeafWithin, hhi, window_eq, ExactScalar.lesser_eq_min,
      if_pos hopen]
  · rw [value_findLeafWithin, if_neg hclosed]
  · by_cases hopen : b.epsilon < min far b.maxDistance
    · obtain ⟨found, t, ht, -, haccounts⟩ := exists_exploration (hhi ▸ hopen) h
      have hwindow : (b.window far).lo ≤ (b.window far).hi := by
        rw [hhi]
        exact (hepsilon.trans hopen).le
      have hdeep : ∀ v ∈ t.visits 0 (b.window far), v.depth ≤ 0 + n := by
        refine ht.depth_le ?_
        rw [length_window]
        exact (div_lt_iff₀ (by positivity)).1 hn
      refine ⟨(haccounts.maxDepth n).2 fun v hv => Nat.zero_add n ▸ hdeep v hv, fun _ =>
        ⟨found, t, ht, haccounts, ht.leaf_iff_short hlength, fun v hv => ?_, ?_⟩⟩
      · have hv := t.length_of_mem_visits v hv
        rw [pow_zero, mul_one, length_window] at hv
        rw [← hv, mul_div_assoc, div_self (by positivity), mul_one]
      · refine (t.pairwise_visits hwindow).imp fun {u v} huv hdepth x hu hv => ?_
        have hle := huv hdepth
        have hlast := hu.2
        have hfirst := hv.1
        exact ⟨by linarith, by linarith⟩
    · rw [value_findLeafWithin, if_neg hopen] at h
      cases h
      exact ⟨Nat.zero_le n, fun h => (hopen h).elim⟩

/-- For the line through seven the bound is reached: the search halves twice, and a single halving
would not do. -/
theorem depth_bounded_line :
    ∃ (b : Bisection ℝ) (n : ℕ) (leaf : Interval ℝ) (effort : Effort),
      ofSettings ⟨16, 5, 1, 0⟩ = .ok b ∧
        IsLeast {n : ℕ | min 16 b.maxDistance / 2 ^ n < b.rootTolerance} n ∧
        (b.findLeafWithin (.var "t" - .num 7) "t" 16).value .empty = .ok (some leaf, effort) ∧
        effort.maxDepth = n := by
  have hb : ofSettings (⟨16, 5, 1, 0⟩ : Settings ℝ) = .ok ⟨16, 5, 1⟩ :=
    ofSettings_eq_ok.2 ⟨by norm_num, rfl⟩
  obtain ⟨n, hn, -, -, hok⟩ := depth_bounded hb (.var "t" - .num 7) "t" .empty 16
  obtain ⟨hle, -⟩ := hok _ _ findLeafWithin_line
  have htwo : n ≤ 2 := hn.2 (show min (16 : ℝ) 16 / 2 ^ 2 < 5 by norm_num)
  exact ⟨_, n, _, _, hb, hn, findLeafWithin_line, hle.antisymm htwo⟩

end Bisection

end ZeroSet
