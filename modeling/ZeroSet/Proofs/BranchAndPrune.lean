import ZeroSet.Proofs.Enclosure
import ZeroSet.RootSearch.Bisection

/-!
# Branch and prune misses no root

Over exact scalars a search for the nearest root cannot step over one that is far enough from
the start.

* `Bisection.Finds` — how a result comes about: which cells are pruned, which are leaves, and
  which of two halves decides.
* `Bisection.finds_of_search` — every search that does not fail comes about in this way; the
  bound on the number of halvings never cuts one short.
* `Bisection.Finds.lo_le_root` — a root in a cell yields a leaf that does not start behind it.
* `Bisection.findLeafWithin_lo_le_root` — the same for the whole window of a search.
-/

namespace ZeroSet

variable {K : Type}

/-! ## Accepted settings -/

section

variable [Scalar K] {s : Settings K}

/-- Every limit is a positive real, and the tolerance is below the far end. -/
@[mk_iff]
structure Settings.Accepted (s : Settings K) : Prop where
  /-- How far to look. -/
  maxDistance : Scalar.isFinite s.maxDistance = true ∧ 0 < s.maxDistance
  /-- How closely to look. -/
  rootTolerance : Scalar.isFinite s.rootTolerance = true ∧ 0 < s.rootTolerance
  /-- What is too near. -/
  epsilon : Scalar.isFinite s.epsilon = true ∧ 0 < s.epsilon
  /-- The window does not count as short. -/
  narrow : ¬s.maxDistance ≤ s.rootTolerance

theorem Settings.checkLimit_eq_ok {limit : Limit} {value : K} {u : Unit} :
    checkLimit limit value = .ok u ↔ Scalar.isFinite value = true ∧ 0 < value := by
  rw [checkLimit]
  split
  · rename_i h
    simpa using h
  · rename_i h
    simpa using h

theorem Settings.check_eq_ok {u : Unit} : s.check = .ok u ↔ s.Accepted := by
  have hnarrow : (if s.maxDistance ≤ s.rootTolerance then
      throw (.invalidConstruction (.toleranceTooWide s.rootTolerance s.maxDistance))
      else pure () : Except (EvalError K) Unit) = .ok u ↔ ¬s.maxDistance ≤ s.rootTolerance := by
    split
    · rename_i h
      exact iff_of_false (fun h => by cases h) (not_not.2 h)
    · rename_i h
      exact iff_of_true rfl h
  rw [check]
  simp only [bind_eq_ok, checkLimit_eq_ok, exists_const, hnarrow, accepted_iff]

/-- A search is built with accepted settings, and keeps their limits. -/
theorem Bisection.ofSettings_iff {b : Bisection K} :
    ofSettings s = .ok b ↔ s.Accepted ∧ b = ⟨s.maxDistance, s.rootTolerance, s.epsilon⟩ := by
  rw [ofSettings, bind_eq_ok]
  constructor
  · rintro ⟨_, hcheck, h⟩
    cases h
    exact ⟨Settings.check_eq_ok.1 hcheck, rfl⟩
  · rintro ⟨hcheck, rfl⟩
    exact ⟨(), Settings.check_eq_ok.2 hcheck, rfl⟩

end

namespace Bisection

/-! ## What a search does to its environment -/

section

variable [Scalar K] {b : Bisection K} {g : Expr K} {name : String}

/-- A cell as a leaf, unless it starts too near. -/
def accepted (b : Bisection K) (cell : Interval K) : Option (Interval K) :=
  if b.epsilon < cell.lo then some cell else none

/-- A search with its effort as an argument: one cell, and what becomes of it. -/
theorem run_search (budget depth : Nat) (cell : Interval K) (effort : Effort) :
    (b.search g name budget depth cell).run effort = (do
      let enclosure ← enclose g name cell
      if enclosure.containsZero then
        match budget with
        | 0 => return (b.accepted cell, (effort.examine depth).leaf)
        | budget + 1 =>
          if cell.length < b.rootTolerance then
            return (b.accepted cell, (effort.examine depth).leaf)
          else do
            let (leaf?, effort) ←
              (b.search g name budget (depth + 1) cell.lowerHalf).run (effort.examine depth)
            match leaf? with
            | some leaf => return (some leaf, effort)
            | none => (b.search g name budget (depth + 1) cell.upperHalf).run effort
      else return (none, (effort.examine depth).prune)) := by
  rw [search.eq_def]
  simp only [StateT.run_bind, StateT.run_modify, pure_bind, StateT.run_monadLift, bind_assoc]
  congr 1
  funext enclosure
  split
  · cases budget with
    | zero => simp [accept, accepted]
    | succ budget =>
      simp only []
      split
      · simp [accept, accepted]
      · rw [StateT.run_bind]
        congr 1
        funext result
        rcases result with ⟨_ | leaf, effort⟩ <;> rfl
  · simp

theorem tidy_enclose (g : Expr K) (name : String) (cell : Interval K) :
    (enclose g name cell).Tidy :=
  .within (.bind (Expr.tidy_evaluate g .interval) fun _ => .lift _) _

theorem tidy_search (budget depth : Nat) (cell : Interval K) (effort : Effort) :
    Evaluation.Tidy ((b.search g name budget depth cell).run effort) := by
  induction budget generalizing depth cell effort with
  | zero =>
    rw [run_search]
    refine .bind (tidy_enclose g name cell) fun enclosure => ?_
    split
    · exact .pure _
    · exact .pure _
  | succ budget ih =>
    rw [run_search]
    refine .bind (tidy_enclose g name cell) fun enclosure => ?_
    split
    · dsimp only
      split
      · exact .pure _
      · refine .bind (ih _ _ _) fun result => ?_
        rcases result with ⟨_ | leaf, effort⟩
        · exact ih _ _ _
        · exact .pure _
    · exact .pure _

/-- What a search yields: the enclosure over the cell decides what becomes of it. -/
theorem value_search (budget depth : Nat) (cell : Interval K) (effort : Effort) (env : Env K) :
    Evaluation.value ((b.search g name budget depth cell).run effort) env = (do
      let enclosure ← (enclose g name cell).value env
      if enclosure.containsZero then
        match budget with
        | 0 => return (b.accepted cell, (effort.examine depth).leaf)
        | budget + 1 =>
          if cell.length < b.rootTolerance then
            return (b.accepted cell, (effort.examine depth).leaf)
          else do
            let (leaf?, effort) ← Evaluation.value
              ((b.search g name budget (depth + 1) cell.lowerHalf).run (effort.examine depth)) env
            match leaf? with
            | some leaf => return (some leaf, effort)
            | none =>
              Evaluation.value
                ((b.search g name budget (depth + 1) cell.upperHalf).run effort) env
      else return (none, (effort.examine depth).prune)) := by
  rw [run_search, Evaluation.value_bind (tidy_enclose g name cell)]
  congr 1
  funext enclosure
  split
  · cases budget with
    | zero => rfl
    | succ budget =>
      dsimp only
      split
      · rfl
      · rw [Evaluation.value_bind (tidy_search _ _ _ _)]
        congr 1
        funext result
        rcases result with ⟨_ | leaf, effort⟩ <;> rfl
  · rfl

variable {env : Env K}

/-- A cell whose enclosure excludes zero is pruned. -/
theorem value_search_pruned {cell enclosure : Interval K} {budget depth : Nat} {effort : Effort}
    (h : (enclose g name cell).value env = .ok enclosure)
    (hzero : enclosure.containsZero = false) :
    Evaluation.value ((b.search g name budget depth cell).run effort) env =
      .ok (none, (effort.examine depth).prune) := by
  rw [value_search, h]
  show (if enclosure.containsZero = true then _ else _) = _
  rw [hzero]
  rfl

/-- A short cell is a leaf. -/
theorem value_search_short {cell enclosure : Interval K} {budget depth : Nat} {effort : Effort}
    (h : (enclose g name cell).value env = .ok enclosure) (hzero : enclosure.containsZero = true)
    (hshort : cell.length < b.rootTolerance) :
    Evaluation.value ((b.search g name budget depth cell).run effort) env =
      .ok (b.accepted cell, (effort.examine depth).leaf) := by
  rw [value_search, h]
  show (if enclosure.containsZero = true then _ else _) = _
  rw [if_pos hzero]
  cases budget with
  | zero => rfl
  | succ budget => exact if_pos hshort

/-- Any other cell is halved. -/
theorem value_search_halved {cell enclosure : Interval K} {budget depth : Nat} {effort : Effort}
    (h : (enclose g name cell).value env = .ok enclosure) (hzero : enclosure.containsZero = true)
    (hlong : ¬cell.length < b.rootTolerance) :
    Evaluation.value ((b.search g name (budget + 1) depth cell).run effort) env = (do
      let (leaf?, effort) ← Evaluation.value
        ((b.search g name budget (depth + 1) cell.lowerHalf).run (effort.examine depth)) env
      match leaf? with
      | some leaf => return (some leaf, effort)
      | none =>
        Evaluation.value ((b.search g name budget (depth + 1) cell.upperHalf).run effort) env) := by
  rw [value_search, h]
  show (if enclosure.containsZero = true then _ else _) = _
  rw [if_pos hzero]
  exact if_neg hlong

/-- Along a line through `c` the enclosure is the cell with `c` taken away. -/
theorem enclose_line {c : K} {cell : Interval K} (h : cell.lo ≤ cell.hi) :
    (enclose (.var "t" - .num c) "t" cell).value .empty = .ok ⟨cell.lo - c, cell.hi - c⟩ := by
  rw [enclose, Evaluation.value_within, Expr.value_evaluateInterval]
  show Expr.outcome (.binary .sub _ _) _ _ _ >>= _ = _
  rw [Expr.outcome_binary, Expr.outcome_var, Expr.outcome_num]
  simp [Env.enter, Env.empty, Bindings.empty, Bindings.putAll, Expr.outcome_intervalOf,
    Interval.ofBounds, h, bind, Except.bind]
  rfl

end

/-! ## How a result comes about -/

section

variable [Scalar K]

/-- The result of searching a cell, apart from the effort. -/
inductive Finds (b : Bisection K) (g : Expr K) (name : String) (env : Env K) :
    Interval K → Option (Interval K) → Prop
  /-- The enclosure excludes zero. -/
  | pruned {cell enclosure : Interval K} (h : (enclose g name cell).value env = .ok enclosure)
      (hzero : enclosure.containsZero = false) : Finds b g name env cell none
  /-- The cell is short enough. -/
  | short {cell : Interval K} (h : cell.length < b.rootTolerance) :
      Finds b g name env cell (b.accepted cell)
  /-- The lower half has a leaf to offer. -/
  | lower {cell leaf : Interval K} (h : Finds b g name env cell.lowerHalf (some leaf)) :
      Finds b g name env cell (some leaf)
  /-- The lower half has nothing to offer. -/
  | upper {cell : Interval K} {leaf? : Option (Interval K)}
      (hlower : Finds b g name env cell.lowerHalf none)
      (hupper : Finds b g name env cell.upperHalf leaf?) : Finds b g name env cell leaf?

end

variable [ExactScalar K] {b : Bisection K} {g : Expr K} {name : String} {env : Env K}

/-- With enough halvings left, a search that does not fail only ever stops at a cell that is
pruned or short. -/
theorem finds_of_search {budget depth : Nat} {cell : Interval K} {effort effort' : Effort}
    {leaf? : Option (Interval K)} (hlength : cell.length < b.rootTolerance * 2 ^ budget)
    (h : Evaluation.value ((b.search g name budget depth cell).run effort) env =
      .ok (leaf?, effort')) :
    b.Finds g name env cell leaf? := by
  induction budget generalizing depth cell effort effort' leaf? with
  | zero =>
    rw [pow_zero, mul_one] at hlength
    rw [value_search] at h
    obtain ⟨enclosure, henclosure, h⟩ := bind_eq_ok.1 h
    split at h
    · cases h
      exact .short hlength
    · rename_i hzero
      cases h
      exact .pruned henclosure (Bool.eq_false_iff.2 hzero)
  | succ budget ih =>
    have hhalf : cell.length / 2 < b.rootTolerance * 2 ^ budget := by
      rw [pow_succ] at hlength
      linarith
    rw [value_search] at h
    obtain ⟨enclosure, henclosure, h⟩ := bind_eq_ok.1 h
    split at h
    · dsimp only at h
      split at h
      · rename_i hshort
        cases h
        exact .short hshort
      · obtain ⟨⟨lower?, lowerEffort⟩, hlower, h⟩ := bind_eq_ok.1 h
        have hlower := ih (by rw [Interval.length_lowerHalf]; exact hhalf) hlower
        cases lower? with
        | none => exact .upper hlower (ih (by rw [Interval.length_upperHalf]; exact hhalf) h)
        | some leaf =>
          cases h
          exact .lower hlower
    · rename_i hzero
      cases h
      exact .pruned henclosure (Bool.eq_false_iff.2 hzero)

/-! ## No root is missed -/

/-- The enclosure over a cell holds the value at every number in the cell. -/
theorem mem_of_enclose {cell enclosure : Interval K} {s x : K} (hs : s ∈ cell)
    (h : (enclose g name cell).value env = .ok enclosure)
    (hx : g.evaluateReal.value (env.enter [(name, .num s)]) = .ok x) : x ∈ enclosure := by
  have henv : Env.Samples (fun e => False → e.intervalFree = true)
      (env.enter [(name, .num s)]) (env.enter [(name, .intervalOf cell.lo cell.hi)]) :=
    (Env.Samples.refl fun _ _ _ => False.elim).enter (.cons ⟨rfl, .inside hs.1 hs.2⟩ .nil)
  rw [Expr.value_evaluateReal, henv.size_eq] at hx
  rw [enclose, Evaluation.value_within, Expr.value_evaluateInterval] at h
  obtain ⟨v, hv, h⟩ := bind_eq_ok.1 h
  obtain ⟨w, hw, hx⟩ := bind_eq_ok.1 hx
  obtain ⟨a, rfl⟩ := Expr.interval_of_outcome hv
  obtain ⟨y, rfl⟩ := Expr.real_of_outcome hw
  cases h
  cases hx
  have hencloses := Expr.encloses_outcome False.elim henv hv
  rw [hw] at hencloses
  exact hencloses

namespace Finds

variable {cell leaf : Interval K} {leaf? : Option (Interval K)}

/-- A leaf does not start behind its cell. -/
theorem lo_le_hi (h : b.Finds g name env cell (some leaf)) (hcell : cell.lo ≤ cell.hi) :
    leaf.lo ≤ cell.hi := by
  generalize hleaf : some leaf = leaf? at h
  have hmid := Interval.midpoint_eq cell
  induction h with
  | pruned _ _ => cases hleaf
  | short _ =>
    rw [accepted] at hleaf
    split at hleaf
    · cases hleaf
      exact hcell
    · cases hleaf
  | @lower cell _ _ ih =>
    have hle := ih (show cell.lo ≤ cell.midpoint by linarith) hleaf (Interval.midpoint_eq _)
    exact hle.trans (show cell.midpoint ≤ cell.hi by linarith)
  | @upper cell _ _ _ _ ih =>
    exact ih (show cell.midpoint ≤ cell.hi by linarith) hleaf (Interval.midpoint_eq _)

/-- If a cell holds a root that is further away than the leaves that are passed over, there is
a leaf that does not start behind the root. -/
theorem lo_le_root {s : K} (h : b.Finds g name env cell leaf?) (hs : s ∈ cell)
    (hnear : b.epsilon + b.rootTolerance ≤ s)
    (hroot : g.evaluateReal.value (env.enter [(name, .num s)]) = .ok 0) :
    ∃ leaf, leaf? = some leaf ∧ leaf.lo ≤ s := by
  induction h with
  | pruned henclosure hzero =>
    have hmem := Interval.containsZero_iff.2 (mem_of_enclose hs henclosure hroot)
    rw [hzero] at hmem
    cases hmem
  | @short cell hshort =>
    -- a short cell around the root starts after `epsilon`
    have hlo : b.epsilon < cell.lo := by
      have hhi := hs.2
      have : cell.hi - cell.lo < b.rootTolerance := hshort
      linarith
    exact ⟨cell, if_pos hlo, hs.1⟩
  | @lower cell leaf hlower ih =>
    by_cases hle : s ≤ cell.midpoint
    · exact ih ⟨hs.1, hle⟩
    · rw [not_le] at hle
      have hcell := Interval.lo_le_hi_of_mem hs
      have hmid := Interval.midpoint_eq cell
      have hleaf := hlower.lo_le_hi (show cell.lo ≤ cell.midpoint by linarith)
      exact ⟨leaf, rfl, hleaf.trans hle.le⟩
  | @upper cell _ _ _ ihlower ihupper =>
    by_cases hle : s ≤ cell.midpoint
    · obtain ⟨leaf, hnone, _⟩ := ihlower ⟨hs.1, hle⟩
      cases hnone
    · rw [not_le] at hle
      exact ihupper ⟨hle.le, hs.2⟩

end Finds

/-- Settings that are accepted have a positive tolerance and pass over a positive distance. -/
theorem limits_of_ofSettings {settings : Settings K} (h : ofSettings settings = .ok b) :
    0 < b.rootTolerance ∧ 0 < b.epsilon := by
  obtain ⟨haccepted, rfl⟩ := ofSettings_iff.1 h
  exact ⟨haccepted.rootTolerance.2, haccepted.epsilon.2⟩

/-- A search with accepted settings misses no root in its window but those that are as near as
the leaves it passes over: it answers a leaf that does not start behind the root. -/
theorem findLeafWithin_lo_le_root {settings : Settings K} {far s : K}
    {leaf? : Option (Interval K)} {effort : Effort} (hb : ofSettings settings = .ok b)
    (h : (b.findLeafWithin g name far).value env = .ok (leaf?, effort))
    (hnear : b.epsilon + b.rootTolerance ≤ s) (hfar : s ≤ far) (hmax : s ≤ b.maxDistance)
    (hroot : g.evaluateReal.value (env.enter [(name, .num s)]) = .ok 0) :
    ∃ leaf, leaf? = some leaf ∧ leaf.lo ≤ s := by
  obtain ⟨htolerance, hepsilon⟩ := limits_of_ofSettings hb
  have hwindow : s ≤ Scalar.lesser far b.maxDistance := by
    rw [ExactScalar.lesser_eq_min]
    exact le_min hfar hmax
  have hopen : b.epsilon < Scalar.lesser far b.maxDistance := by linarith
  rw [findLeafWithin] at h
  rw [if_pos hopen] at h
  generalize Scalar.lesser far b.maxDistance = far at h hwindow
  have hlength : (⟨0, far⟩ : Interval K).length <
      b.rootTolerance * 2 ^ Scalar.halvings far b.rootTolerance := by
    rw [show (⟨0, far⟩ : Interval K).length = far from sub_zero far]
    exact ExactScalar.lt_halvings far _ htolerance
  have hs : s ∈ (⟨0, far⟩ : Interval K) := ⟨show (0 : K) ≤ s by linarith, hwindow⟩
  exact (finds_of_search hlength h).lo_le_root hs hnear hroot

/-- The line through seven is searched in two halves, and the second one has the leaf. -/
theorem findLeafWithin_lo_le_root_line :
    ∃ (b : Bisection ℝ) (leaf : Interval ℝ) (effort : Effort),
      ofSettings ⟨10, 5, 1, 0⟩ = .ok b ∧
        (b.findLeafWithin (.var "t" - .num 7) "t" 8).value .empty = .ok (some leaf, effort) ∧
        leaf.lo ≤ 7 := by
  have hb : ofSettings (⟨10, 5, 1, 0⟩ : Settings ℝ) = .ok ⟨10, 5, 1⟩ := by
    simp [ofSettings, Settings.check, Settings.checkLimit, bind, Except.bind, pure, Except.pure]
    norm_num
  have h : (findLeafWithin (⟨10, 5, 1⟩ : Bisection ℝ) (.var "t" - .num 7) "t" 8).value .empty =
      .ok (some ⟨4, 8⟩, ⟨3, 1, 1, 1⟩) := by
    have hfar : Scalar.lesser (8 : ℝ) 10 = 8 := by
      rw [ExactScalar.lesser_eq_min]
      norm_num
    have hhalvings : Scalar.halvings (8 : ℝ) 5 = 2 := by
      show ⌈(8 : ℝ) / 5⌉₊ = 2
      rw [Nat.ceil_eq_iff] <;> norm_num
    have hlower : (⟨0, 8⟩ : Interval ℝ).lowerHalf = ⟨0, 4⟩ := by
      rw [Interval.lowerHalf, Interval.midpoint_eq]
      norm_num
    have hupper : (⟨0, 8⟩ : Interval ℝ).upperHalf = ⟨4, 8⟩ := by
      rw [Interval.upperHalf, Interval.midpoint_eq]
      norm_num
    have hprune (effort : Effort) : Evaluation.value
        ((search (⟨10, 5, 1⟩ : Bisection ℝ) (.var "t" - .num 7) "t" 1 1 ⟨0, 4⟩).run effort) .empty =
          .ok (none, (effort.examine 1).prune) := by
      rw [value_search, enclose_line (by norm_num)]
      simp [bind, Except.bind, Interval.containsZero]
      norm_num
      rfl
    have hleaf (effort : Effort) : Evaluation.value
        ((search (⟨10, 5, 1⟩ : Bisection ℝ) (.var "t" - .num 7) "t" 1 1 ⟨4, 8⟩).run effort) .empty =
          .ok (some ⟨4, 8⟩, (effort.examine 1).leaf) := by
      rw [value_search, enclose_line (by norm_num)]
      simp [bind, Except.bind, Interval.containsZero, Interval.length, accepted]
      norm_num
      rfl
    rw [findLeafWithin, hfar, if_pos (by norm_num), hhalvings, value_search,
      enclose_line (by norm_num), hlower, hupper]
    simp [bind, Except.bind, Interval.containsZero, Interval.length, hprune, hleaf]
    norm_num
    rfl
  have hroot : (Expr.var "t" - .num 7 : Expr ℝ).evaluateReal.value
      (Env.empty.enter [("t", .num 7)]) = .ok 0 := by
    rw [Expr.value_evaluateReal]
    show Expr.outcome (.binary .sub _ _) _ _ _ >>= _ = _
    rw [Expr.outcome_binary, Expr.outcome_var, Expr.outcome_num]
    simp [Env.enter, Env.empty, Bindings.empty, Bindings.putAll, Expr.outcome_num, bind,
      Except.bind]
    show Except.ok ((7 : ℝ) - 7) = .ok 0
    rw [sub_self]
  obtain ⟨leaf, hleaf, hlo⟩ := findLeafWithin_lo_le_root hb h (by norm_num) (by norm_num)
    (by norm_num) hroot
  cases hleaf
  exact ⟨_, _, _, hb, h, hlo⟩

end Bisection

end ZeroSet
