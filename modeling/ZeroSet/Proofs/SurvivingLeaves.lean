import ZeroSet.Proofs.BranchAndPrune
import ZeroSet.Proofs.RayParameter
import ZeroSet.Proofs.NestedScenes

/-!
# Hits lie in surviving leaves

A search that finds something finds a cell of its window that cannot be told from one with a root:
it comes from the window by halving, it is shorter than the tolerance, and the enclosure over it
holds zero.  Newton steps never leave that cell, so every hit that an implicit surface reports is
backed by one.

* `Interval.IsCellOf` — the intervals that repeated halving makes of a window.
* `Bisection.ofSettings_eq_ok` — which settings are accepted.
* `Bisection.Survives` — what a cell has to satisfy to become the answer of a search.
* `Bisection.survives_of_search` — every answer of a search does.
* `Surface.Built` — what holds of every surface that was built, whatever its look.
* `Surface.refine_mem` — Newton steps stay in the cell they start from.
* `Surface.hit_mem_survivingCell` — every hit lies in a cell that survived.
* `Surface.wall` — a plane as an implicit surface, which is searched coarsely enough to be followed.
-/

namespace ZeroSet

/-! ## Halving a window -/

/-- The intervals that repeated halving makes of a window. -/
inductive Interval.IsCellOf {K : Type} [Scalar K] (window : Interval K) : Interval K → Prop
  /-- The window itself. -/
  | whole : IsCellOf window window
  /-- The lower half of a cell. -/
  | lower {cell : Interval K} (h : IsCellOf window cell) : IsCellOf window cell.lowerHalf
  /-- The upper half of a cell. -/
  | upper {cell : Interval K} (h : IsCellOf window cell) : IsCellOf window cell.upperHalf

variable {K : Type} [ExactScalar K]

/-- Cells lie inside the window, and their bounds are in order. -/
theorem Interval.IsCellOf.bounds {window cell : Interval K} (h : window.IsCellOf cell)
    (hwindow : window.lo ≤ window.hi) :
    window.lo ≤ cell.lo ∧ cell.lo ≤ cell.hi ∧ cell.hi ≤ window.hi := by
  induction h with
  | whole => exact ⟨le_refl _, hwindow, le_refl _⟩
  | @lower cell _ ih =>
    obtain ⟨hlo, hcell, hhi⟩ := ih
    have hmid := cell.midpoint_eq
    exact ⟨hlo, show cell.lo ≤ cell.midpoint by linarith,
      show cell.midpoint ≤ window.hi by linarith⟩
  | @upper cell _ ih =>
    obtain ⟨hlo, hcell, hhi⟩ := ih
    have hmid := cell.midpoint_eq
    exact ⟨show window.lo ≤ cell.midpoint by linarith,
      show cell.midpoint ≤ cell.hi by linarith, hhi⟩

/-! ## Accepted settings -/

/-- The settings a search is built with, and the search; no limit is infinite here. -/
theorem Bisection.ofSettings_eq_ok {s : Settings K} {b : Bisection K} :
    ofSettings s = .ok b ↔ (0 < s.maxDistance ∧ 0 < s.rootTolerance ∧ 0 < s.epsilon ∧
      s.rootTolerance < s.maxDistance) ∧ b = ⟨s.maxDistance, s.rootTolerance, s.epsilon⟩ := by
  rw [ofSettings_iff, Settings.accepted_iff]
  simp only [ExactScalar.isFinite_eq_true, true_and, not_le]

/-! ## The answer of a search -/

namespace Bisection

/-- A cell that a search may answer: it starts far enough away, it is short enough, and its
enclosure leaves room for a root. -/
structure Survives (b : Bisection K) (g : Expr K) (name : String) (env : Env K)
    (cell : Interval K) : Prop where
  /-- The cell is not halved any more. -/
  short : cell.length < b.rootTolerance
  /-- The cell is not passed over. -/
  far : b.epsilon < cell.lo
  /-- The cell is not pruned. -/
  enclosed : ∃ enclosure, (enclose g name cell).value env = .ok enclosure ∧ (0 : K) ∈ enclosure

variable {b : Bisection K} {g : Expr K} {name : String} {env : Env K}

/-- A leaf is the cell itself, unless it starts too near. -/
theorem accepted_eq_some {cell leaf : Interval K} :
    b.accepted cell = some leaf ↔ b.epsilon < cell.lo ∧ cell = leaf := by
  rw [accepted]
  split
  · rename_i h
    simp [h]
  · rename_i h
    simp [h]

/-- With enough halvings left, the answer of a search is a cell that survives. -/
theorem survives_of_search {window cell leaf : Interval K} {budget depth : Nat}
    {effort effort' : Effort} (hcell : window.IsCellOf cell)
    (hlength : cell.length < b.rootTolerance * 2 ^ budget)
    (h : Evaluation.value ((b.search g name budget depth cell).run effort) env =
      .ok (some leaf, effort')) :
    window.IsCellOf leaf ∧ b.Survives g name env leaf := by
  -- a cell that is kept as a leaf, for whichever reason it is not halved
  have hkept : ∀ {cell enclosure : Interval K}, window.IsCellOf cell →
      cell.length < b.rootTolerance → (enclose g name cell).value env = .ok enclosure →
      enclosure.containsZero = true → b.accepted cell = some leaf →
      window.IsCellOf leaf ∧ b.Survives g name env leaf := by
    intro cell enclosure hcell hshort henclosure hzero haccepted
    obtain ⟨hfar, rfl⟩ := accepted_eq_some.1 haccepted
    exact ⟨hcell, hshort, hfar, enclosure, henclosure, Interval.containsZero_iff.1 hzero⟩
  induction budget generalizing depth cell effort effort' with
  | zero =>
    rw [pow_zero, mul_one] at hlength
    rw [value_search] at h
    obtain ⟨enclosure, henclosure, h⟩ := bind_eq_ok.1 h
    split at h
    · rename_i hzero
      exact hkept hcell hlength henclosure hzero (Prod.ext_iff.1 (Except.ok.inj h)).1
    · cases h
  | succ budget ih =>
    have hhalf : cell.length / 2 < b.rootTolerance * 2 ^ budget := by
      rw [pow_succ] at hlength
      linarith
    rw [value_search] at h
    obtain ⟨enclosure, henclosure, h⟩ := bind_eq_ok.1 h
    split at h
    · rename_i hzero
      dsimp only at h
      split at h
      · rename_i hshort
        exact hkept hcell hshort henclosure hzero (Prod.ext_iff.1 (Except.ok.inj h)).1
      · obtain ⟨⟨lower?, lowerEffort⟩, hlower, h⟩ := bind_eq_ok.1 h
        cases lower? with
        | none => exact ih hcell.upper (by rw [Interval.length_upperHalf]; exact hhalf) h
        | some found =>
          cases h
          exact ih hcell.lower (by rw [Interval.length_lowerHalf]; exact hhalf) hlower
    · cases h

/-- A search looks at nothing but its window, which the far end of the search cuts. -/
theorem value_findLeafWithin (b : Bisection K) (g : Expr K) (name : String) (far : K)
    (env : Env K) :
    (b.findLeafWithin g name far).value env =
      if b.epsilon < min far b.maxDistance then
        Evaluation.value ((b.search g name
          (Scalar.halvings (min far b.maxDistance) b.rootTolerance) 0
            ⟨0, min far b.maxDistance⟩).run .zero) env
      else .ok (none, .zero) := by
  rw [findLeafWithin, ExactScalar.lesser_eq_min]
  split
  · rfl
  · rfl

/-- With accepted settings there are enough halvings to make every cell of a window short. -/
theorem length_window_lt {settings : Settings K} (hb : ofSettings settings = .ok b) (far : K) :
    (⟨0, far⟩ : Interval K).length < b.rootTolerance * 2 ^ Scalar.halvings far b.rootTolerance := by
  rw [show (⟨0, far⟩ : Interval K).length = far from sub_zero far]
  exact ExactScalar.lt_halvings far _ (limits_of_ofSettings hb).1

/-- The answer of a search with accepted settings is a cell of its window that survives, and the
window reaches further than what is passed over. -/
theorem survives_of_findLeafWithin {settings : Settings K} {far : K} {leaf : Interval K}
    {effort : Effort} (hb : ofSettings settings = .ok b)
    (h : (b.findLeafWithin g name far).value env = .ok (some leaf, effort)) :
    b.epsilon < min far b.maxDistance ∧ Interval.IsCellOf ⟨0, min far b.maxDistance⟩ leaf ∧
      b.Survives g name env leaf := by
  rw [value_findLeafWithin] at h
  split at h
  · rename_i hopen
    exact ⟨hopen, survives_of_search .whole (length_window_lt hb _) h⟩
  · cases h

end Bisection

/-! ## Surfaces -/

namespace Surface

/-- What holds of every surface that was built, whatever its look. -/
structure Built (s : Surface K) : Prop where
  /-- The settings were accepted. -/
  finder : Bisection.ofSettings s.settings = .ok s.finder
  /-- Searches go over the field with its powers unrolled. -/
  intervalForm : s.intervalForm = s.field.unrollPowers

theorem Built.of_build {field : Expr K} {settings : Settings K} {ids ids' : IdSupply}
    {s : Surface K} (h : (build field settings).run.run ids = (.ok s, ids'))
    (material : Material K) : ({ s with material } : Surface K).Built := by
  obtain ⟨finder, _, _, _, hfinder, -, -, -, -, rfl, -⟩ := build_eq_ok.1 h
  exact ⟨hfinder, rfl⟩

theorem Built.of_ofFunction {f : Func K} {settings : Settings K} {ids ids' : IdSupply}
    {s : Surface K} (h : (ofFunction f settings).run.run ids = (.ok s, ids'))
    (material : Material K) : ({ s with material } : Surface K).Built := by
  rw [ofFunction] at h
  split at h
  · obtain ⟨field, -, h⟩ := Building.lift_bind_eq_ok.1 h
    exact .of_build h material
  · cases h

variable {s : Surface K} {ray : Ray K} {best t : K} {leaf : Interval K}

/-- The limits of the search are those of the settings. -/
theorem Built.finder_eq (hs : s.Built) :
    s.finder = ⟨s.settings.maxDistance, s.settings.rootTolerance, s.settings.epsilon⟩ :=
  (Bisection.ofSettings_eq_ok.1 hs.finder).2

/-- A step is taken only into the cell. -/
theorem refine_mem {steps : ℕ} {start : K} (hstart : start ∈ leaf)
    (h : s.refine ray leaf steps start = .ok t) : t ∈ leaf := by
  induction steps generalizing start with
  | zero =>
    cases h
    exact hstart
  | succ steps ih =>
    rw [refine] at h
    obtain ⟨value, -, h⟩ := bind_eq_ok.1 h
    obtain ⟨gradient, -, h⟩ := bind_eq_ok.1 h
    dsimp only at h
    split at h
    · rename_i hnext
      simp only [Bool.and_eq_true, Interval.contains, decide_eq_true_eq] at hnext
      exact ih hnext.2 h
    · cases h
      exact hstart

/-- A surface is met where a leaf is found, after the Newton steps in it. -/
theorem distance?_eq_some :
    s.distance? ray best = .ok (some t) ↔
      ∃ leaf, s.findLeaf ray best = .ok (some leaf) ∧
        s.refine ray leaf s.settings.newtonSteps leaf.lo = .ok t := by
  rw [distance?]
  constructor
  · intro h
    obtain ⟨leaf?, hleaf, h⟩ := bind_eq_ok.1 h
    cases leaf? with
    | none => cases h
    | some leaf =>
      obtain ⟨t', ht, h⟩ := bind_eq_ok.1 h
      cases h
      exact ⟨leaf, hleaf, ht⟩
  · rintro ⟨leaf, hleaf, ht⟩
    rw [hleaf]
    show (s.refine ray leaf s.settings.newtonSteps leaf.lo >>= fun t => pure (some t)) = _
    rw [ht]
    rfl

/-- The leaf that is found along a ray is a cell of the window up to the bound, which survives. -/
theorem Built.survives (hs : s.Built) (h : s.findLeaf ray best = .ok (some leaf)) :
    Interval.IsCellOf ⟨0, min best s.settings.maxDistance⟩ leaf ∧
      s.finder.Survives s.intervalForm rayParameter (alongRay ray) leaf ∧
      leaf.lo ≤ leaf.hi ∧ leaf.hi ≤ min best s.settings.maxDistance := by
  obtain ⟨⟨leaf?, effort⟩, hfound, h⟩ := bind_eq_ok.1 h
  cases h
  obtain ⟨hopen, hcell, hsurvives⟩ := Bisection.survives_of_findLeafWithin hs.finder hfound
  have hepsilon := (Bisection.limits_of_ofSettings hs.finder).2
  have hmax : s.finder.maxDistance = s.settings.maxDistance := by rw [hs.finder_eq]
  rw [hmax] at hopen hcell
  obtain ⟨-, hlo, hhi⟩ := hcell.bounds (hepsilon.trans hopen).le
  exact ⟨hcell, hsurvives, hlo, hhi⟩

end Surface

/-! ## Hits -/

section

variable {leaf : Leaf K} {ray : Ray K} {best : K} {hit : Hit K}

/-- Every hit on a surface lies in a cell that survived: the cell comes from the window up to the
bound by halving, it is short, it starts behind the guard, and its enclosure, which holds every
value that the field takes along the ray in it, holds zero.  Without Newton steps the hit is where
the cell starts. -/
theorem Surface.hit_mem_survivingCell {s : Surface K} (hs : s.Built)
    (h : (Leaf.surface s).intersect ray best = .ok hit) (hhit : hit.isHit = true) :
    ∃ cell enclosure : Interval K,
      Interval.IsCellOf ⟨0, min best s.settings.maxDistance⟩ cell ∧
      cell.hi - cell.lo < s.settings.rootTolerance ∧ s.settings.epsilon < cell.lo ∧
      (Bisection.enclose s.intervalForm rayParameter cell).value (alongRay ray) =
        .ok enclosure ∧ (0 : K) ∈ enclosure ∧
      (∀ t ∈ cell, ∀ x,
        s.intervalForm.evaluateReal.value ((alongRay ray).enter [(rayParameter, .num t)]) = .ok x →
          x ∈ enclosure) ∧
      hit.distance ∈ cell ∧ s.settings.epsilon < hit.distance ∧
      hit.distance ≤ min best s.settings.maxDistance ∧
      (s.settings.newtonSteps = 0 → hit.distance = cell.lo) := by
  rcases Leaf.intersect_eq_ok.1 h with ⟨t, ht, rfl⟩ | ⟨-, rfl⟩
  · obtain ⟨cell, hcell, hrefine⟩ := distance?_eq_some.1 ht
    obtain ⟨hof, ⟨hshort, hfar, enclosure, henclosure, hzero⟩, horder, hend⟩ := hs.survives hcell
    rw [hs.finder_eq] at hshort hfar
    have hmem : t ∈ cell := refine_mem ⟨le_refl _, horder⟩ hrefine
    refine ⟨cell, enclosure, hof, hshort, hfar, henclosure, hzero,
      fun t ht x hx => Bisection.mem_of_enclose ht henclosure hx, hmem,
      lt_of_lt_of_le hfar hmem.1, hmem.2.trans hend, fun hsteps => ?_⟩
    rw [hsteps] at hrefine
    cases hrefine
    rfl
  · cases hhit

end

/-! ## A wall -/

namespace Surface

/-- The field of the plane through seven. -/
noncomputable def wallField : Expr ℝ := .binary .sub (.var "x") (.num (7 : ℕ))

/-- The plane through seven as an implicit surface that is searched coarsely. -/
noncomputable def wall (newtonSteps : ℕ) : Surface ℝ where
  id := ⟨0⟩
  field := wallField
  intervalForm := wallField
  gradient := ⟨.num (1 - 0), .num 0, .num 0⟩
  settings := ⟨(10 : ℕ), (6 : ℕ), 1, newtonSteps⟩
  finder := ⟨(10 : ℕ), (6 : ℕ), 1⟩
  material := .standard

/-- The ray from the origin towards the wall. -/
def headOn : Ray ℝ := ⟨⟨0, 0, 0⟩, ⟨1, 0, 0⟩⟩

theorem build_wall (newtonSteps : ℕ) :
    (build wallField ⟨10, 6, 1, newtonSteps⟩).run.run .fresh = (.ok (wall newtonSteps), ⟨1⟩) := by
  have hfinder : Bisection.ofSettings (⟨10, 6, 1, newtonSteps⟩ : Settings ℝ) =
      .ok ⟨10, 6, 1⟩ := by
    refine Bisection.ofSettings_eq_ok.2 ⟨?_, rfl⟩
    norm_num
  have hfree : wallField.freeNames = ["x"] := rfl
  have hstray : strayNames wallField = [] := by
    rw [strayNames, Expr.distinctNames, hfree]
    rfl
  have hderivative : wallField.derivative "x" = .ok (.binary .sub (.num 1) (.num 0)) := by
    rw [Expr.derivative.eq_def]
    simp [wallField, Expr.dependsOn, Expr.freeNames, Expr.derivative, bind, Except.bind, pure,
      Except.pure]
    rfl
  have hx : slope wallField .x = .ok (.num (1 - 0)) := by
    show wallField.derivative "x" >>= Expr.simplify = _
    rw [hderivative]
    rfl
  have hslope : ∀ axis : Axis, axis ≠ .x → slope wallField axis = .ok (.num 0) := by
    intro axis haxis
    rw [slope, Expr.derivative.eq_def, Expr.dependsOn, hfree]
    cases axis with
    | x => exact (haxis rfl).elim
    | _ => rfl
  exact build_eq_ok.2 ⟨_, _, _, _, hfinder, hstray, hx, hslope .y (by decide),
    hslope .z (by decide), rfl, rfl⟩

theorem enclose_wall {a b : ℝ} (h : a ≤ b) :
    (Bisection.enclose wallField rayParameter ⟨a, b⟩).value (alongRay headOn) =
      .ok ⟨a - 7, b - 7⟩ := by
  have hbounds : (Interval.point 0 + ⟨a, b⟩ * .point 1 : Interval ℝ) - .point 7 =
      ⟨a - 7, b - 7⟩ := by
    show (⟨0 + (⟨a, b⟩ * Interval.point 1 : Interval ℝ).lo - 7,
      0 + (⟨a, b⟩ * Interval.point 1 : Interval ℝ).hi - 7⟩ : Interval ℝ) = _
    rw [Interval.lo_mul, Interval.hi_mul]
    simp [Interval.point, h]
  have hadd : ∀ a b : Expr ℝ, a + b = .binary .add a b := fun _ _ => rfl
  have hmul : ∀ a b : Expr ℝ, a * b = .binary .mul a b := fun _ _ => rfl
  rw [Bisection.enclose, Evaluation.value_within, Expr.value_evaluateInterval, ← hbounds]
  show Expr.outcome (.binary .sub _ _) _ 5 _ >>= _ = _
  simp [Expr.outcome_binary, Expr.outcome_var, Expr.outcome_num, Expr.outcome_intervalOf,
    alongRay, Env.enter, Env.ofList, Bindings.putAll, Axis.all, Axis.name, rayParameter, headOn,
    Vec3.get, hadd, hmul, Interval.ofBounds, h, bind, Except.bind, Except.map]
  rfl

/-- Where the window ends is where the search ends up: its lower half is pruned, and its upper half
is short. -/
theorem findLeaf_wall {best : ℝ} (newtonSteps : ℕ) (hbest : 7 ≤ best) :
    (wall newtonSteps).findLeaf headOn best = .ok (some ⟨min best 10 / 2, min best 10⟩) := by
  have hlo : 7 ≤ min best 10 := le_min hbest (by norm_num)
  have hhi : min best 10 ≤ 10 := min_le_right _ _
  show (((⟨10, 6, 1⟩ : Bisection ℝ).findLeafWithin wallField rayParameter best).value
    (alongRay headOn) >>= fun p => pure p.1) = _
  rw [Bisection.value_findLeafWithin]
  show (if (1 : ℝ) < min best 10 then Evaluation.value ((Bisection.search _ _ _
    (Scalar.halvings (min best 10) 6) 0 ⟨0, min best 10⟩).run .zero) _ else _) >>= _ = _
  generalize min best 10 = far at hlo hhi
  have hhalvings : Scalar.halvings far (6 : ℝ) = 2 := by
    show ⌈far / 6⌉₊ = 2
    rw [Nat.ceil_eq_iff (by norm_num)]
    constructor
    · norm_num
      linarith
    · norm_num
      linarith
  have hlower : (⟨0, far⟩ : Interval ℝ).lowerHalf = ⟨0, far / 2⟩ := by
    rw [Interval.lowerHalf, Interval.midpoint_eq, zero_add]
  have hupper : (⟨0, far⟩ : Interval ℝ).upperHalf = ⟨far / 2, far⟩ := by
    rw [Interval.upperHalf, Interval.midpoint_eq, zero_add]
  have haccepted : Bisection.accepted (⟨10, 6, 1⟩ : Bisection ℝ) ⟨far / 2, far⟩ =
      some ⟨far / 2, far⟩ := Bisection.accepted_eq_some.2 ⟨show (1 : ℝ) < far / 2 by linarith, rfl⟩
  have hzero : ∀ {a b : ℝ}, (⟨a - 7, b - 7⟩ : Interval ℝ).containsZero = true ↔ a ≤ 7 ∧ 7 ≤ b := by
    intro a b
    rw [Interval.containsZero_iff, Interval.mem_iff, sub_nonpos, sub_nonneg]
  have hlong : ¬(⟨0, far⟩ : Interval ℝ).length < (⟨10, 6, 1⟩ : Bisection ℝ).rootTolerance := by
    show ¬far - 0 < 6
    linarith
  have hshort : (⟨far / 2, far⟩ : Interval ℝ).length <
      (⟨10, 6, 1⟩ : Bisection ℝ).rootTolerance := by
    show far - far / 2 < 6
    linarith
  rw [if_pos (by linarith), hhalvings,
    Bisection.value_search_halved (enclose_wall (by linarith)) (hzero.2 ⟨by linarith, hlo⟩) hlong,
    hlower, hupper,
    Bisection.value_search_pruned (enclose_wall (by linarith))
      (Bool.eq_false_iff.2 fun h => by linarith [(hzero.1 h).2])]
  show Evaluation.value _ _ >>= _ = _
  rw [Bisection.value_search_short (enclose_wall (by linarith)) (hzero.2 ⟨by linarith, hlo⟩) hshort,
    haccepted]
  rfl

/-- One Newton step leads to the wall. -/
theorem refine_wall {leaf : Interval ℝ} (h : (7 : ℝ) ∈ leaf) (t : ℝ) :
    (wall 1).refine headOn leaf 1 t = .ok 7 := by
  have hvalue : (wall 1).valueAt (headOn.pointAt t) = .ok ((headOn.pointAt t).get .x - 7) := by
    rw [valueAt, Expr.value_evaluateReal]
    show Expr.outcome (.binary .sub _ _) .real 4 _ >>= _ = _
    simp [Expr.outcome_binary, Expr.outcome_var, Expr.outcome_num, atPoint, Env.ofList,
      Bindings.putAll, Axis.all, Axis.name, bind, Except.bind]
    rfl
  have hgradient : (wall 1).gradientAt (headOn.pointAt t) = .ok ⟨1 - 0, 0, 0⟩ := by
    have hnum : ∀ (c : ℝ) (env : Env ℝ), (Expr.num c).evaluateReal.value env = .ok c := by
      intro c env
      rw [Expr.value_evaluateReal, Expr.outcome_num]
      rfl
    have htidy : ∀ e : Expr ℝ, e.evaluateReal.Tidy := fun e =>
      .bind (Expr.tidy_evaluate e .real) fun _ => .lift _
    rw [gradientAt, Evaluation.value_bind (htidy _), wall, hnum]
    show Evaluation.value (Expr.evaluateReal _ >>= _) _ = _
    rw [Evaluation.value_bind (htidy _), hnum]
    show Evaluation.value (Expr.evaluateReal _ >>= _) _ = _
    rw [Evaluation.value_bind (htidy _), hnum]
    rfl
  have hnext :
      t - ((headOn.pointAt t).get .x - 7) / Vec3.dot ⟨1 - 0, 0, 0⟩ headOn.direction = 7 := by
    show t - (0 + 1 * t - 7) / ((1 - 0) * 1 + 0 * 0 + 0 * 0) = 7
    ring
  rw [refine, hvalue, hgradient]
  show (if (Scalar.isFinite _ && leaf.contains _) = true then _ else _) = _
  rw [hnext, ExactScalar.isFinite_eq_true, Bool.true_and, if_pos]
  · rfl
  · simpa [Interval.contains, Interval.mem_iff] using h

/-- With a Newton step the wall is hit where it is, although the leaf starts well before it. -/
theorem hit_mem_survivingCell_wall :
    ∃ hit : Hit ℝ, (Leaf.surface (wall 1)).intersect headOn 20 = .ok hit ∧ hit.distance = 7 ∧
      ∃ cell : Interval ℝ, Interval.IsCellOf ⟨0, min 20 10⟩ cell ∧ cell.hi - cell.lo < 6 ∧
        1 < cell.lo ∧ hit.distance ∈ cell := by
  have hmin : min (20 : ℝ) 10 = 10 := by norm_num
  have hdistance : (wall 1).distance? headOn 20 = .ok (some 7) := by
    refine distance?_eq_some.2 ⟨_, findLeaf_wall 1 (by norm_num), refine_wall ?_ _⟩
    rw [hmin]
    constructor <;> norm_num
  have hhit : (Leaf.surface (wall 1)).intersect headOn 20 =
      .ok ⟨7, some (headOn.pointAt 7), some (.surface (wall 1))⟩ :=
    Leaf.intersect_eq_ok.2 (.inl ⟨7, hdistance, rfl⟩)
  have hreported :
      (⟨7, some (headOn.pointAt 7), some (.surface (wall 1))⟩ : Hit ℝ).isHit = true := by
    simp [Hit.isHit]
  obtain ⟨cell, _, hcell, hshort, hfar, -, -, -, hmem, -⟩ :=
    hit_mem_survivingCell (.of_build (build_wall 1) .standard) hhit hreported
  exact ⟨_, hhit, rfl, cell, hcell, hshort, hfar, hmem⟩

end Surface

end ZeroSet
