import ZeroSet.Proofs.SurvivingLeaves
import ZeroSet.Proofs.FartherBounds

/-!
# The closest hit and the bound it is searched under

A shape is told the distance of the closest hit so far, so that it need not look any further.  What
it reports should not depend on that.  Two runs are compared here, one under a bound and one under
a larger one, which may be as large as one likes.

Scenes keep the promise whatever they are made of, and so does every leaf but one: an implicit
surface takes the bound for the end of the window that is halved, and the cells of another window
are other cells.  The promise holds where that makes no difference (`Surface.Unaffected`).

* `Shape.Built` — what holds of every shape that was built.
* `Leaf.intersect_agree` — the bound makes no difference to leaves in closed form, nor to such
  surfaces.
* `Shape.hit_eq_of_bound` — the same for every shape.
* `Shape.hit_ne_of_bound` — a surface that is hit elsewhere because the bound cuts its window.
-/

namespace ZeroSet

variable {K : Type} [ExactScalar K]

/-! ## Shapes that were built -/

/-- What holds of every shape that was built: the guards of scenes are positive, and surfaces have
accepted settings. -/
inductive Shape.Built : Shape K → Prop
  /-- A leaf, which only has to meet a condition if it is a surface. -/
  | leaf {l : Leaf K} (h : ∀ s, l = .surface s → s.Built) : Built (.leaf l)
  /-- A scene of shapes that were built. -/
  | scene {id : ShapeId} {guard : K} {members : List (Shape K)} (hguard : 0 < guard)
    (hmembers : ∀ m ∈ members, Built m) : Built (.scene id guard members)
  /-- Coordinate axes. -/
  | axes {id frame : ShapeId} {rods : List (Rod K)} : Built (.axes id frame rods)

theorem defaultEpsilon_eq : (defaultEpsilon : K) = 1 / 10 ^ 6 := by
  have h : (defaultEpsilon : K) = Scalar.decimal 1 true 6 := rfl
  rw [h, ExactScalar.decimal_eq, if_pos rfl, Nat.cast_one]

theorem defaultEpsilon_pos : (0 : K) < defaultEpsilon := by
  rw [defaultEpsilon_eq]
  norm_num

namespace Scene

theorem built_build (ids : IdSupply) :
    ((build : StateM IdSupply (Scene K)).run ids).1.toShape.Built :=
  .scene defaultEpsilon_pos fun _ hm => by cases hm

theorem built_withGuard {s t : Scene K} {guard : K} (hs : s.toShape.Built)
    (h : s.withGuard guard = .ok t) : t.toShape.Built := by
  obtain ⟨-, hguard, rfl⟩ := withGuard_eq_ok.1 h
  cases hs with
  | scene _ hmembers => exact .scene hguard hmembers

theorem built_add {s : Scene K} {member : Shape K} (hs : s.toShape.Built)
    (hmember : member.Built) : (s.add member).toShape.Built := by
  cases hs with
  | scene hguard hmembers =>
    refine .scene hguard fun m hm => ?_
    rcases List.mem_append.1 hm with hm | hm
    · exact hmembers m hm
    · rw [List.mem_singleton.1 hm]
      exact hmember

end Scene

/-! ## Two runs -/

theorem Hit.isHit_iff {h : Hit K} : h.isHit = true ↔ h.owner ≠ none ∧ 0 ≤ h.distance := by
  rw [isHit, Bool.and_eq_true, decide_eq_true_iff, Option.isSome_iff_ne_none]

/-- The report is a hit that is nearer than the bound. -/
def Hit.IsNearer (best : K) (h : Hit K) : Prop := h.isHit = true ∧ h.distance < best

/-- A bound makes no difference to a surface along a ray: the search does not reach beyond the
bound anyway, or whatever is found in a window that does reach beyond it starts beyond it. -/
def Surface.Unaffected (s : Surface K) (ray : Ray K) (best : K) : Prop :=
  s.settings.maxDistance ≤ best ∨
    ∀ far leaf, best ≤ far → s.findLeaf ray far = .ok (some leaf) → best ≤ leaf.lo

/-- A hit on a surface is not nearer than the leaf that was found. -/
theorem Surface.Built.le_distance {s : Surface K} (hs : s.Built) {ray : Ray K} {best far : K}
    {hit : Hit K} (hfound : ∀ leaf, s.findLeaf ray far = .ok (some leaf) → best ≤ leaf.lo)
    (h : (Leaf.surface s).intersect ray far = .ok hit) : ¬hit.InFront best := by
  rintro ⟨howner, hfront⟩
  rcases Leaf.intersect_eq_ok.1 h with ⟨t, ht, rfl⟩ | ⟨-, rfl⟩
  · obtain ⟨leaf, hleaf, hrefine⟩ := Surface.distance?_eq_some.1 ht
    obtain ⟨-, -, horder, -⟩ := hs.survives hleaf
    have hmem : t ∈ leaf := Surface.refine_mem ⟨le_refl _, horder⟩ hrefine
    have hlo := hfound leaf hleaf
    have : leaf.lo ≤ t := hmem.1
    have : t < best := hfront
    linarith
  · exact howner rfl

/-- The bound makes no difference to a leaf in closed form. -/
theorem Leaf.intersect_eq_of_closedForm {leaf : Leaf K} (hleaf : ∀ s, leaf ≠ .surface s)
    (ray : Ray K) (best far : K) : leaf.intersect ray best = leaf.intersect ray far := by
  cases leaf with
  | surface s => exact (hleaf s rfl).elim
  | _ => rfl

theorem Leaf.intersect_agree {leaf : Leaf K} {ray : Ray K} {best far : K} {near wide : Hit K}
    (hfar : best ≤ far) (hleaf : ∀ s, leaf = .surface s → s.Built ∧ s.Unaffected ray best)
    (hnear : leaf.intersect ray best = .ok near) (hwide : leaf.intersect ray far = .ok wide) :
    near.Agree best wide := by
  have hsame : leaf.intersect ray best = leaf.intersect ray far → near.Agree best wide := by
    intro hintersect
    rw [hintersect, hwide] at hnear
    cases hnear
    exact .inl rfl
  by_cases hsurface : ∃ s, leaf = .surface s
  · obtain ⟨s, rfl⟩ := hsurface
    obtain ⟨hs, hunaffected⟩ := hleaf s rfl
    rcases hunaffected with hmax | hfound
    · refine hsame ?_
      have hmax : s.finder.maxDistance ≤ best := by
        rw [hs.finder_eq]
        exact hmax
      have hfind : s.findLeaf ray best = s.findLeaf ray far := by
        rw [Surface.findLeaf, Surface.findLeaf, Bisection.value_findLeafWithin,
          Bisection.value_findLeafWithin, min_eq_right hmax, min_eq_right (hmax.trans hfar)]
      have hdistance : s.distance? ray best = s.distance? ray far := by
        rw [Surface.distance?, Surface.distance?, hfind]
      rw [intersect, intersect, distance?, distance?, hdistance]
    · exact .inr ⟨hs.le_distance (fun leaf => hfound best leaf (le_refl _)) hnear,
        hs.le_distance (fun leaf => hfound far leaf hfar) hwide⟩
  · rw [not_exists] at hsurface
    exact hsame (intersect_eq_of_closedForm hsurface ray best far)

namespace Shape

variable {guard best : K} {ray : Ray K}

theorem Built.guarded {s : Shape K} (hs : s.Built) : s.Guarded := by
  induction hs with
  | leaf _ => exact .leaf _
  | scene hguard _ ih => exact .scene hguard ih
  | axes => exact .axes defaultEpsilon_pos

theorem Built.of_mem_leaves {s : Shape K} (hs : s.Built) {t : Surface K}
    (ht : .surface t ∈ s.leaves) : t.Built := by
  induction hs with
  | leaf h =>
    rw [leaves, List.mem_singleton] at ht
    exact h t ht.symm
  | scene _ _ ih =>
    rw [leaves] at ht
    obtain ⟨m, hm, ht⟩ := mem_leavesOfAll.1 ht
    exact ih m hm ht
  | axes =>
    rw [leaves] at ht
    obtain ⟨r, -, hr⟩ := List.mem_map.1 ht
    cases hr

/-- The bound does not change what a shape reports: for someone who has a hit at distance `best`,
the run under that bound and the run under any larger one find the same nearer hits.  The larger
bound may lie beyond all distances that matter, which is what an unbounded run amounts to. -/
theorem hit_eq_of_bound {s : Shape K} (hs : s.Built) {far : K} {near wide : Hit K}
    (hfar : best ≤ far) (hsurfaces : ∀ t, .surface t ∈ s.leaves → t.Unaffected ray best)
    (hnear : s.intersect ray best = .ok near) (hwide : s.intersect ray far = .ok wide) :
    (near.isHit = true → near.distance < best → wide = near) ∧
      (wide.isHit = true → wide.distance < best → near = wide) := by
  rcases le_or_gt best 0 with hbest | hbest
  · -- hits are not behind the start
    have hnone : ∀ hit : Hit K, hit.isHit = true → ¬hit.distance < best :=
      fun hit hhit => not_lt.2 (hbest.trans (Hit.isHit_iff.1 hhit).2)
    exact ⟨fun hhit hlt => absurd hlt (hnone _ hhit), fun hhit hlt => absurd hlt (hnone _ hhit)⟩
  · have hagree : near.Agree best wide := by
      refine hs.guarded.intersect_agree hbest (fun l hl far near wide hfar => ?_)
        hfar.lt_or_eq hnear hwide
      refine Leaf.intersect_agree (le_of_lt_or_eq hfar) fun t ht => ?_
      subst ht
      exact ⟨hs.of_mem_leaves hl, hsurfaces t hl⟩
    rcases hagree with rfl | ⟨hnear, hwide⟩
    · exact ⟨fun _ _ => rfl, fun _ _ => rfl⟩
    · exact ⟨fun hhit hlt => absurd ⟨(Hit.isHit_iff.1 hhit).1, hlt⟩ hnear,
        fun hhit hlt => absurd ⟨(Hit.isHit_iff.1 hhit).1, hlt⟩ hwide⟩

/-! ### A wall behind a plane -/

/-- The wall, as a shape of its own. -/
noncomputable def wall : Shape ℝ := .leaf (.surface (Surface.wall 0))

theorem built_wall : wall.Built :=
  .leaf fun s h => by
    cases h
    exact .of_build (Surface.build_wall 0) .standard

/-- What is reported of the wall: its leaf is half of the window. -/
noncomputable def wallHit (t : ℝ) : Hit ℝ :=
  ⟨t, some (Surface.headOn.pointAt t), some (.surface (Surface.wall 0))⟩

theorem wallHit_isNearer {t best : ℝ} (h : 0 ≤ t) (hlt : t < best) : (wallHit t).IsNearer best :=
  ⟨Hit.isHit_iff.2 ⟨Option.some_ne_none _, h⟩, hlt⟩

theorem intersect_wall {best : ℝ} (h : 7 ≤ best) :
    wall.intersect Surface.headOn best = .ok (wallHit (min best 10 / 2)) := by
  rw [wall, intersect]
  exact Leaf.intersect_eq_ok.2
    (.inl ⟨_, Surface.distance?_eq_some.2 ⟨_, Surface.findLeaf_wall 0 h, rfl⟩, rfl⟩)

theorem defaultEpsilon_lt_one : (defaultEpsilon : ℝ) < 1 := by
  have h : (defaultEpsilon : ℝ) = Scalar.decimal 1 true 6 := rfl
  rw [h, ExactScalar.decimal_eq, if_pos rfl]
  norm_num

/-- The plane through nine. -/
noncomputable def backdrop : Plane ℝ := ⟨⟨1⟩, ⟨(9 : ℕ), 0, 0⟩, ⟨1, 0, 0⟩, .standard⟩

/-- The backdrop, followed by a scene that holds the wall. -/
noncomputable def room : Shape ℝ :=
  .scene ⟨3⟩ defaultEpsilon
    [.leaf (.plane backdrop), .scene ⟨2⟩ defaultEpsilon [wall]]

theorem built_room : room.Built := by
  have hplane : ∀ p : Plane ℝ, (leaf (.plane p)).Built := fun p => .leaf fun _ h => by cases h
  have hinner : (scene ⟨2⟩ defaultEpsilon [wall]).Built :=
    .scene defaultEpsilon_pos fun m hm => by
      rw [List.mem_singleton.1 hm]
      exact built_wall
  refine .scene defaultEpsilon_pos fun m hm => ?_
  rcases List.mem_pair.1 hm with rfl | rfl
  · exact hplane _
  · exact hinner

/-- What is reported of the backdrop. -/
noncomputable def backdropHit : Hit ℝ :=
  ⟨(9 : ℕ), some (Surface.headOn.pointAt (9 : ℕ)), some (.plane backdrop)⟩

theorem intersect_backdrop (best : ℝ) :
    (leaf (.plane backdrop)).intersect Surface.headOn best = .ok backdropHit := by
  have hacross : backdrop.normal.dot Surface.headOn.direction = 1 := by
    norm_num [backdrop, Surface.headOn, Vec3.dot]
  have hthreshold : (Plane.parallelThreshold : ℝ) < 1 := by
    have h : (Plane.parallelThreshold : ℝ) = Scalar.decimal 2220446049250313 true 31 := rfl
    rw [h, ExactScalar.decimal_eq, if_pos rfl]
    norm_num
  have hahead : backdrop.normal.dot (backdrop.point - Surface.headOn.origin) / 1 = 9 := by
    show (1 * (9 - 0) + 0 * (0 - 0) + 0 * (0 - 0) : ℝ) / 1 = 9
    norm_num
  have habs : Scalar.abs (1 : ℝ) = 1 := if_neg (not_lt.2 zero_le_one)
  have hdistance : backdrop.distance? Surface.headOn = some 9 := by
    have hguard := defaultEpsilon_lt_one
    rw [Plane.distance?, hacross]
    dsimp only
    rw [hahead, habs, if_neg hthreshold.not_gt, if_pos (by linarith)]
  rw [intersect]
  exact Leaf.intersect_eq_ok.2 (.inl ⟨9, congrArg Except.ok hdistance, rfl⟩)

/-- Under any bound beyond the plane, the wall is met where the plane cuts its window. -/
theorem intersect_room {best : ℝ} (h : 9 < best) :
    room.intersect Surface.headOn best = .ok (wallHit (9 / 2)) := by
  have hguard := defaultEpsilon_lt_one
  have hwall : wall.intersect Surface.headOn 9 = .ok (wallHit (9 / 2)) := by
    rw [intersect_wall (by norm_num), min_eq_left (by norm_num)]
  have haccepted :
      defaultEpsilon < (wallHit (9 / 2)).distance ∧ (wallHit (9 / 2)).distance < 9 := by
    show defaultEpsilon < (9 / 2 : ℝ) ∧ (9 / 2 : ℝ) < 9
    constructor <;> linarith
  have hinner : (scene ⟨2⟩ defaultEpsilon [wall]).intersect Surface.headOn 9 =
      .ok (wallHit (9 / 2)) := by
    rw [intersect]
    refine scan_cons_eq_ok.2 ⟨_, hwall, ?_⟩
    exact scan_nil_eq_ok.2 ((Hit.closer_eq ..).trans (if_pos haccepted))
  rw [room, intersect]
  refine scan_cons_eq_ok.2 ⟨_, intersect_backdrop _, ?_⟩
  rw [Hit.closer_eq, if_pos ⟨by show defaultEpsilon < (9 : ℝ); linarith, h⟩]
  refine scan_cons_eq_ok.2 ⟨_, hinner, ?_⟩
  exact scan_nil_eq_ok.2 ((Hit.closer_eq ..).trans (if_pos haccepted))

/-- In the room the bounds twelve and twenty make no difference. -/
theorem hit_eq_of_bound_room :
    ∃ near wide : Hit ℝ, room.intersect Surface.headOn 12 = .ok near ∧
      room.intersect Surface.headOn 20 = .ok wide ∧ near.distance = 9 / 2 ∧ wide = near := by
  have hnear := intersect_room (show (9 : ℝ) < 12 by norm_num)
  have hwide := intersect_room (show (9 : ℝ) < 20 by norm_num)
  have hsurfaces : ∀ s, .surface s ∈ room.leaves → s.Unaffected Surface.headOn 12 := by
    intro s hs
    simp only [room, wall, leaves, leavesOfAll, List.append_nil, List.cons_append, List.nil_append,
      List.mem_cons, List.not_mem_nil, or_false, reduceCtorEq, false_or, Leaf.surface.injEq] at hs
    rw [hs]
    exact .inl (show (10 : ℝ) ≤ 12 by norm_num)
  refine ⟨_, _, hnear, hwide, rfl, ?_⟩
  have hnearer : (wallHit (9 / 2)).IsNearer 12 := wallHit_isNearer (by norm_num) (by norm_num)
  exact (hit_eq_of_bound built_room (by norm_num) hsurfaces hnear hwide).1 hnearer.1 hnearer.2

/-- Where the bound cuts the window of a surface, it does change what is reported: the wall is hit
at distance four under the bound eight, and at distance five under all bounds from ten on, although
both are nearer than eight. -/
theorem hit_ne_of_bound :
    wall.Built ∧ wall.intersect Surface.headOn 8 = .ok (wallHit 4) ∧
      (∀ far, 10 ≤ far → wall.intersect Surface.headOn far = .ok (wallHit 5)) ∧
      (wallHit 4).IsNearer 8 ∧ (wallHit 5).IsNearer 8 ∧
      (wallHit 4).distance ≠ (wallHit 5).distance := by
  refine ⟨built_wall, ?_, fun far hfar => ?_, wallHit_isNearer (by norm_num) (by norm_num),
    wallHit_isNearer (by norm_num) (by norm_num), show (4 : ℝ) ≠ 5 by norm_num⟩
  · rw [intersect_wall (by norm_num), min_eq_left (by norm_num)]
    norm_num
  · rw [intersect_wall (by linarith), min_eq_right hfar]
    norm_num

end Shape

end ZeroSet
