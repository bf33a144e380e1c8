import ZeroSet.Proofs.ClosestHit
import ZeroSet.Proofs.RationalFields

/-!
# A scene overlooks nothing that is nearer

What a scene reports is not further away than anything it holds along the ray.  The members are
scanned with a bound that shrinks, so a member is seen if, under every bound beyond it, it reports
something between the guard of the scene and where it is.  Leaves in closed form do so because they
keep the default distance from the start themselves, and implicit surfaces with rational fields
because no root is overlooked.  The order of the members plays no part in this.

* `Leaf.defaultEpsilon_lt` — how near leaves in closed form can be hit.
* `Surface.Traceable` — the surfaces whose roots are seen, and `Surface.Traceable.le_root`.
* `Shape.scan_distance_le`, `Shape.scan_le_of_mem` — a scan ends up with the nearest hit.
* `Scene.distance_le_nearest` — a scene with the default guard.
-/

namespace ZeroSet

/-! ## Leaves -/

section

variable {K : Type} [ExactScalar K]

/-- A leaf in closed form is hit beyond the default distance. -/
theorem Leaf.defaultEpsilon_lt {leaf : Leaf K} (hleaf : ∀ s, leaf ≠ .surface s) {ray : Ray K}
    {best d : K} (h : leaf.distance? ray best = .ok (some d)) : defaultEpsilon < d := by
  have hguarded : ∀ {t : K}, (if defaultEpsilon < t then some t else none) = some d →
      defaultEpsilon < d := by
    intro t h
    obtain ⟨hlt, h⟩ := Option.ite_none_right_eq_some.1 h
    cases h
    exact hlt
  -- the first of two distances that is large enough
  have hfirst : ∀ {near far : K},
      [near, far].find? (fun t => defaultEpsilon < t) = some d → defaultEpsilon < d := by
    intro near far h
    have hlarge := List.find?_some h
    exact of_decide_eq_true hlarge
  cases leaf with
  | sphere s =>
    have h : s.distance? ray = some d := Except.ok.inj h
    rw [Sphere.distance?] at h
    split at h
    · exact hfirst (Option.ite_none_left_eq_some.1 h).2
    · have h := (Option.ite_none_left_eq_some.1 h).2
      exact hguarded (Option.ite_none_left_eq_some.1 h).2
  | plane p =>
    have h : p.distance? ray = some d := Except.ok.inj h
    exact hguarded (Option.ite_none_left_eq_some.1 h).2
  | rod r =>
    have h : r.distance? ray = some d := Except.ok.inj h
    obtain ⟨_, -, h⟩ := Option.bind_eq_some_iff.1 h
    exact hfirst h
  | surface s => exact (hleaf s rfl).elim

end

section

variable {K : Type} [PowerScalar K]

/-- A surface whose roots are seen by a scene with a guard. -/
structure Surface.Traceable (guard : K) (s : Surface K) : Prop where
  /-- The surface was built. -/
  built : s.Built
  /-- The field is rational. -/
  rational : s.field.IsRational
  /-- Hits are where leaves start. -/
  newtonSteps : s.settings.newtonSteps = 0
  /-- The search passes over whatever the scene ignores. -/
  guard_le : guard ≤ s.settings.epsilon

/-- A root that is not passed over is reported, or something between the guard and the root. -/
theorem Surface.Traceable.le_root {guard : K} {s : Surface K} (hs : s.Traceable guard)
    {ray : Ray K} {best t : K} {hit : Hit K}
    (h : (Leaf.surface s).intersect ray best = .ok hit)
    (hnear : s.settings.epsilon + s.settings.rootTolerance ≤ t) (hbest : t ≤ best)
    (hmax : t ≤ s.settings.maxDistance) (hroot : s.valueAt (ray.pointAt t) = .ok 0) :
    guard < hit.distance ∧ hit.distance ≤ t := by
  have hleaf : ∀ {leaf?}, s.findLeaf ray best = .ok leaf? →
      ∃ leaf, leaf? = some leaf ∧ leaf.lo ≤ t := fun hfound =>
    hs.built.lo_le_root hs.rational hfound hnear hbest hmax hroot
  rcases Leaf.intersect_eq_ok.1 h with ⟨d, hd, rfl⟩ | ⟨hnone, rfl⟩
  · obtain ⟨leaf, hfound, hrefine⟩ := Surface.distance?_eq_some.1 hd
    obtain ⟨_, hsome, hle⟩ := hleaf hfound
    cases hsome
    -- without Newton steps the leaf is hit where it starts
    rw [hs.newtonSteps] at hrefine
    cases hrefine
    obtain ⟨-, ⟨-, hfar, -⟩, -⟩ := hs.built.survives hfound
    rw [hs.built.finder_eq] at hfar
    exact ⟨hs.guard_le.trans_lt hfar, hle⟩
  · have hmiss : s.distance? ray best = .ok none := hnone
    rw [Surface.distance?] at hmiss
    obtain ⟨leaf?, hfound, hmiss⟩ := bind_eq_ok.1 hmiss
    obtain ⟨leaf, rfl, -⟩ := hleaf hfound
    obtain ⟨_, -, hmiss⟩ := bind_eq_ok.1 hmiss
    cases hmiss

end

/-! ## Scans -/

section

variable {K : Type} [ExactScalar K] {guard : K} {ray : Ray K}

/-- A candidate beyond the guard is not nearer than what is kept. -/
theorem Hit.distance_closer_le_candidate {closest candidate : Hit K}
    (h : guard < candidate.distance) :
    (closest.closer guard candidate).distance ≤ candidate.distance := by
  rw [closer_eq]
  split
  · exact le_refl _
  · rename_i hrejected
    exact not_lt.1 fun hlt => hrejected ⟨h, hlt⟩

namespace Shape

/-- A scan never ends up with anything further away than what it starts with. -/
theorem scan_distance_le {members : List (Shape K)} {closest hit : Hit K}
    (h : scan guard ray members closest = .ok hit) : hit.distance ≤ closest.distance := by
  refine scan_induction (P := fun hit => hit.distance ≤ closest.distance) (le_refl _) ?_ h
  intro _ _ _ _ hle _ _ hlt
  exact hlt.le.trans hle

/-- If under every bound from `t` on a member reports something between the guard and `t`, a scan
does not end up with anything further away than `t`, wherever the member stands. -/
theorem scan_le_of_mem {members : List (Shape K)} {closest hit : Hit K} {m : Shape K} {t : K}
    (hm : m ∈ members)
    (hreports : ∀ far candidate, t ≤ far → m.intersect ray far = .ok candidate →
      guard < candidate.distance ∧ candidate.distance ≤ t)
    (h : scan guard ray members closest = .ok hit) : hit.distance ≤ t := by
  induction members generalizing closest with
  | nil => cases hm
  | cons first rest ih =>
    obtain ⟨candidate, hcandidate, hrest⟩ := scan_cons_eq_ok.1 h
    rcases List.mem_cons.1 hm with rfl | hm
    · rcases le_total t closest.distance with hle | hle
      · obtain ⟨hguard, hcandidate⟩ := hreports _ _ hle hcandidate
        exact (scan_distance_le hrest).trans
          ((Hit.distance_closer_le_candidate hguard).trans hcandidate)
      · -- what was found before is not further away than `t`
        exact (scan_distance_le h).trans hle
    · exact ih hm hrest

end Shape

end

/-! ## Scenes -/

namespace Scene

variable {K : Type} [PowerScalar K]

/-- A scene whose guard is not larger than the default one overlooks nothing: what it reports is
not beyond the bound, not beyond what any leaf in closed form reports under whatever bound, and not
beyond any root of a traceable surface that the search does not pass over. -/
theorem distance_le_nearest {s : Scene K} {ray : Ray K} {best : K} {hit : Hit K}
    (hguard : s.guard ≤ defaultEpsilon) (h : s.toShape.intersect ray best = .ok hit) :
    hit.distance ≤ best ∧
      (∀ leaf, .leaf leaf ∈ s.members → (∀ t, leaf ≠ .surface t) →
        ∀ far child, leaf.intersect ray far = .ok child → child.isHit = true →
          hit.distance ≤ child.distance) ∧
      ∀ surface, .leaf (.surface surface) ∈ s.members → surface.Traceable s.guard →
        ∀ t, surface.settings.epsilon + surface.settings.rootTolerance ≤ t → t < best →
          t ≤ surface.settings.maxDistance → surface.valueAt (ray.pointAt t) = .ok 0 →
            hit.distance ≤ t := by
  rw [toShape, Shape.intersect] at h
  refine ⟨Shape.scan_distance_le h, fun leaf hmem hleaf far child hchild hhit => ?_,
    fun surface hmem hsurface t hnear _ hmax hroot => ?_⟩
  · refine Shape.scan_le_of_mem hmem (fun far' candidate _ hcandidate => ?_) h
    rw [Shape.intersect, Leaf.intersect_eq_of_closedForm hleaf ray far' far, hchild] at hcandidate
    cases hcandidate
    rcases Leaf.intersect_eq_ok.1 hchild with ⟨d, hd, rfl⟩ | ⟨-, rfl⟩
    · exact ⟨hguard.trans_lt (Leaf.defaultEpsilon_lt hleaf hd), le_refl _⟩
    · cases hhit
  · refine Shape.scan_le_of_mem hmem (fun far candidate hfar hcandidate => ?_) h
    rw [Shape.intersect] at hcandidate
    exact hsurface.le_root hcandidate hnear hfar hmax hroot

/-! ### A wall in front of a plane -/

/-- The wall with a power in its field. -/
noncomputable def powerWall : Surface ℝ :=
  { Surface.wall 0 with field := .binary .sub (.power (.var "x") (.num (1 : ℕ))) (.num (7 : ℕ)) }

/-- The backdrop and, added later, the wall in front of it. -/
noncomputable def gallery : Scene ℝ :=
  ⟨⟨2⟩, defaultEpsilon, [.leaf (.plane Shape.backdrop), .leaf (.surface powerWall)]⟩

theorem traceable_powerWall : powerWall.Traceable defaultEpsilon where
  built := by
    obtain ⟨hfinder, -⟩ := Surface.Built.of_build (Surface.build_wall 0) .standard
    refine ⟨hfinder, ?_⟩
    show Surface.wallField = Expr.unrollPowers (.binary .sub _ _)
    rw [Expr.unrollPowers, Expr.unrollPowers_power (by decide)]
    rfl
  rational := .binary .sub (.power (.coordinate .x) (by decide)) (.num 7)
  newtonSteps := rfl
  guard_le := (Shape.defaultEpsilon_lt_one).le

theorem valueAt_powerWall : powerWall.valueAt (Surface.headOn.pointAt 7) = .ok 0 := by
  have hseven : (Surface.headOn.pointAt 7).get .x = 7 := by
    show (0 + 1 * 7 : ℝ) = 7
    norm_num
  have hx : (Expr.var "x").Yields 4 (Surface.atPoint (Surface.headOn.pointAt 7)) 7 := by
    refine Expr.yields_var List.not_mem_nil ?_
    show some (Expr.num ((Surface.headOn.pointAt 7).get .x)) = _
    rw [hseven]
  have hpower : Scalar.pow (7 : ℝ) (1 : ℕ) - 7 = 0 := by
    have h : Scalar.pow (7 : ℝ) (1 : ℕ) = 7 ^ 1 := PowerScalar.pow_natCast 7 1
    rw [h, pow_one, sub_self]
  refine Expr.evaluateReal_eq_ok.2 ((hx.power (Expr.yields_num _)).binary (Expr.yields_num 7) ?_)
  exact congrArg Except.ok hpower

theorem intersect_gallery :
    gallery.toShape.intersect Surface.headOn 30 =
      .ok ⟨9 / 2, some (Surface.headOn.pointAt (9 / 2)), some (.surface powerWall)⟩ := by
  have hguard := Shape.defaultEpsilon_lt_one
  have hwall : (Shape.leaf (.surface powerWall)).intersect Surface.headOn 9 =
      .ok ⟨9 / 2, some (Surface.headOn.pointAt (9 / 2)), some (.surface powerWall)⟩ := by
    have hleaf : powerWall.findLeaf Surface.headOn 9 = .ok (some ⟨9 / 2, 9⟩) := by
      have h := Surface.findLeaf_wall 0 (show (7 : ℝ) ≤ 9 by norm_num)
      rw [min_eq_left (by norm_num)] at h
      exact h
    rw [Shape.intersect]
    exact Leaf.intersect_eq_ok.2
      (.inl ⟨_, Surface.distance?_eq_some.2 ⟨_, hleaf, rfl⟩, rfl⟩)
  rw [toShape, Shape.intersect]
  refine Shape.scan_cons_eq_ok.2 ⟨_, Shape.intersect_backdrop _, ?_⟩
  rw [Hit.closer_eq, if_pos ⟨show defaultEpsilon < (9 : ℝ) by linarith,
    show (9 : ℝ) < 30 by norm_num⟩]
  refine Shape.scan_cons_eq_ok.2 ⟨_, hwall, ?_⟩
  exact Shape.scan_nil_eq_ok.2 ((Hit.closer_eq ..).trans
    (if_pos ⟨show defaultEpsilon < (9 / 2 : ℝ) by linarith, show (9 / 2 : ℝ) < 9 by norm_num⟩))

/-- The wall is seen although the backdrop was added first. -/
theorem distance_le_nearest_gallery :
    ∃ hit : Hit ℝ, gallery.toShape.intersect Surface.headOn 30 = .ok hit ∧
      hit.distance ≤ 30 ∧ hit.distance ≤ 9 ∧ hit.distance ≤ 7 := by
  obtain ⟨hbest, hplanes, hsurfaces⟩ := distance_le_nearest (le_refl _) intersect_gallery
  have hbackdrop : Shape.backdropHit.isHit = true :=
    Hit.isHit_iff.2 ⟨Option.some_ne_none _, Nat.cast_nonneg 9⟩
  have hplane := hplanes (.plane Shape.backdrop) (List.mem_cons_self ..) (by simp) 30 _
    (Shape.intersect_backdrop 30) hbackdrop
  have hwall := hsurfaces powerWall (List.mem_cons_of_mem _ (List.mem_singleton_self _))
    traceable_powerWall 7 (show (1 + 6 : ℝ) ≤ 7 by norm_num) (by norm_num)
    (show (7 : ℝ) ≤ 10 by norm_num) valueAt_powerWall
  exact ⟨_, intersect_gallery, hbest, hplane, hwall⟩

end Scene

end ZeroSet
