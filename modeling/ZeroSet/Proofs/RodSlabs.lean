import ZeroSet.Proofs.Extended
import ZeroSet.Proofs.Assembly

/-!
# Rays along the faces of rods

A ray is inside a rod where it is between the two faces of all three axes at once.  The distances of
the faces across an axis are found by dividing, also if the ray does not move along the axis.  Then
they are infinite, and the signs of the infinities tell whether the ray is between the faces, where
it stays, or outside of them.  In the plane of a face this goes wrong: the distance of that face is
the product of zero and an infinity, which is not a number and is skipped, so the distance of the
other face stands for both, and the ray is taken for one that never gets between the faces.

* `Ray.reach` — the distance of a plane across an axis.
* `Rod.stretch`, `Rod.Grazes` — where a ray is in a box, and rays in the plane of a face.
* `Rod.Crossing` — what is found across an axis; `Rod.Across.exists_crossing` for every axis.
* `Rod.intersect_of_value?_ends` — what is reported of the two ends that are found.
* `Rod.slab?_eq_none_of_grazes` — nothing is found on rays in the plane of a face.
* `Rod.intersect_stretch` — all rays.
* `Rod.grazing_ray_misses_beam` — a ray that is missed.
-/

namespace ZeroSet

/-! ## Minima and maxima over the axes -/

namespace Vec3

variable {v : Vec3 Extended} {p : Axis → EReal}

theorem iSup_axes (p : Axis → EReal) : ⨆ axis, p axis = max (p .x) (max (p .y) (p .z)) := by
  refine le_antisymm (iSup_le fun axis => ?_) ?_
  · cases axis <;> simp
  · exact max_le (le_iSup p .x) (max_le (le_iSup p .y) (le_iSup p .z))

theorem iInf_axes (p : Axis → EReal) : ⨅ axis, p axis = min (p .x) (min (p .y) (p .z)) := by
  refine le_antisymm ?_ (le_iInf fun axis => ?_)
  · exact le_min (iInf_le p .x) (le_min (iInf_le p .y) (iInf_le p .z))
  · cases axis <;> simp

theorem value?_largest (h : ∀ axis, (v.get axis).value? = some (p axis)) :
    v.largest.value? = some (⨆ axis, p axis) := by
  have hx : v.x.value? = _ := h .x
  have hy : v.y.value? = _ := h .y
  have hz : v.z.value? = _ := h .z
  rw [largest, Extended.value?_greater, Extended.value?_greater, hx, hy, hz, Option.merge_some_some,
    Option.merge_some_some, iSup_axes]

theorem value?_smallest (h : ∀ axis, (v.get axis).value? = some (p axis)) :
    v.smallest.value? = some (⨅ axis, p axis) := by
  have hx : v.x.value? = _ := h .x
  have hy : v.y.value? = _ := h .y
  have hz : v.z.value? = _ := h .z
  rw [smallest, Extended.value?_lesser, Extended.value?_lesser, hx, hy, hz, Option.merge_some_some,
    Option.merge_some_some, iInf_axes]

end Vec3

/-! ## Distances of planes -/

/-- The distance at which the line of a ray has a coordinate along an axis. -/
def Ray.reach {K : Type} [Scalar K] (ray : Ray K) (axis : Axis) (a : K) : K :=
  (a - ray.origin.get axis) * (1 / ray.direction.get axis)

namespace Ray

variable {ray : Ray Extended} {axis : Axis} {a : Extended} {x start step : ℝ}

theorem reach_is (ha : a.Is x) (hstart : (ray.origin.get axis).Is start)
    (hstep : (ray.direction.get axis).Is step) (hmoves : step ≠ 0) :
    (ray.reach axis a).Is ((x - start) * (1 / step)) :=
  (ha.sub hstart).mul ((Extended.is_number 1).div hstep hmoves)

/-- What lies ahead or behind in a direction in which the ray does not move is infinitely far away,
with the sign of the zero. -/
theorem reach_of_lt (ha : a.Is x) (hstart : (ray.origin.get axis).Is start)
    (hstill : (ray.direction.get axis).Is 0) (h : start < x) :
    ray.reach axis a = .infinite (ray.direction.get axis).isNegative := by
  rw [reach, Extended.one_div_zero hstill]
  exact Extended.mul_infinite_of_pos (ha.sub hstart) (sub_pos.2 h) _

theorem reach_of_gt (ha : a.Is x) (hstart : (ray.origin.get axis).Is start)
    (hstill : (ray.direction.get axis).Is 0) (h : x < start) :
    ray.reach axis a = .infinite !(ray.direction.get axis).isNegative := by
  rw [reach, Extended.one_div_zero hstill]
  exact Extended.mul_infinite_of_neg (ha.sub hstart) (sub_neg.2 h) _

/-- The plane in which the ray stays has no distance. -/
theorem reach_of_eq (ha : a.Is x) (hstart : (ray.origin.get axis).Is start)
    (hstill : (ray.direction.get axis).Is 0) (h : start = x) : ray.reach axis a = .nan := by
  have hzero := ha.sub hstart
  rw [h, sub_self] at hzero
  rw [reach, Extended.one_div_zero hstill]
  exact Extended.mul_infinite_of_zero hzero _

end Ray

namespace Rod

/-! ## Rods and rays -/

/-- At a distance along the ray its point is between the two faces across an axis, or on one. -/
def Between (r : Rod Extended) (ray : Ray Extended) (axis : Axis) (t : ℝ) : Prop :=
  r.lo.get axis ≤ (ray.pointAt (.number t)).get axis ∧
    (ray.pointAt (.number t)).get axis ≤ r.hi.get axis

/-- The distances at which the line of a ray is in the box, its faces included. -/
def stretch (r : Rod Extended) (ray : Ray Extended) : Set ℝ :=
  {t | ∀ axis, r.Between ray axis t}

/-- The ray runs in the plane of a face across an axis. -/
def GrazesAt (r : Rod Extended) (ray : Ray Extended) (axis : Axis) : Prop :=
  (ray.direction.get axis == 0) = true ∧
    ((ray.origin.get axis == r.lo.get axis) = true ∨ (ray.origin.get axis == r.hi.get axis) = true)

/-- The ray runs in the plane of a face. -/
def Grazes (r : Rod Extended) (ray : Ray Extended) : Prop := ∃ axis, r.GrazesAt ray axis

section

variable {K : Type} [Scalar K]

/-- Where the ray gets between the faces of each axis. -/
def entries (r : Rod K) (ray : Ray K) : Vec3 K :=
  Vec3.zipWith Scalar.lesser ((r.lo - ray.origin) * ray.direction.map (1 / ·))
    ((r.hi - ray.origin) * ray.direction.map (1 / ·))

/-- Where the ray leaves the faces of each axis behind. -/
def exits (r : Rod K) (ray : Ray K) : Vec3 K :=
  Vec3.zipWith Scalar.greater ((r.lo - ray.origin) * ray.direction.map (1 / ·))
    ((r.hi - ray.origin) * ray.direction.map (1 / ·))

theorem get_entries (r : Rod K) (ray : Ray K) (axis : Axis) :
    (r.entries ray).get axis =
      Scalar.lesser (ray.reach axis (r.lo.get axis)) (ray.reach axis (r.hi.get axis)) := by
  cases axis <;> rfl

theorem get_exits (r : Rod K) (ray : Ray K) (axis : Axis) :
    (r.exits ray).get axis =
      Scalar.greater (ray.reach axis (r.lo.get axis)) (ray.reach axis (r.hi.get axis)) := by
  cases axis <;> rfl

theorem slab?_eq (r : Rod K) (ray : Ray K) :
    r.slab? ray = if (r.entries ray).largest ≤ (r.exits ray).smallest then
      some ((r.entries ray).largest, (r.exits ray).smallest) else none := rfl

end

variable {r : Rod Extended} {ray : Ray Extended} {axis : Axis} {lo hi start step t : ℝ}

/-! ## One axis -/

/-- The numbers that a rod and a ray have along an axis. -/
structure Across (r : Rod Extended) (ray : Ray Extended) (axis : Axis) (lo hi start step : ℝ) :
    Prop where
  /-- Where the low face is. -/
  lo_is : (r.lo.get axis).Is lo
  /-- Where the high face is. -/
  hi_is : (r.hi.get axis).Is hi
  /-- Where the ray starts. -/
  start_is : (ray.origin.get axis).Is start
  /-- How far the ray gets for each unit of distance. -/
  step_is : (ray.direction.get axis).Is step
  /-- The faces are apart. -/
  lt : lo < hi

/-- What the distances of the two faces across an axis say. -/
structure Crossing (r : Rod Extended) (ray : Ray Extended) (axis : Axis) (l u : EReal) :
    Prop where
  /-- The ray is between the faces from `l` to `u`. -/
  between_iff : ∀ t : ℝ, r.Between ray axis t ↔ l ≤ t ∧ t ≤ u
  /-- A ray that goes from one face to the other does not take forever. -/
  finite : ¬(ray.direction.get axis == 0) = true → l ≠ ⊥ ∧ u ≠ ⊤
  /-- Both ends are found unless the ray runs in a face. -/
  found : ¬r.GrazesAt ray axis →
    ((r.entries ray).get axis).value? = some l ∧ ((r.exits ray).get axis).value? = some u
  /-- In a face one infinity is found for both ends. -/
  lost : r.GrazesAt ray axis → ∃ e, (e = ⊥ ∨ e = ⊤) ∧
    ((r.entries ray).get axis).value? = some e ∧ ((r.exits ray).get axis).value? = some e

/-- A number moves from one bound to the other while its distance is between those of the bounds. -/
theorem between_faces_iff (hstep : step ≠ 0) (hlt : lo < hi) :
    lo ≤ start + step * t ∧ start + step * t ≤ hi ↔
      min ((lo - start) * (1 / step)) ((hi - start) * (1 / step)) ≤ t ∧
        t ≤ max ((lo - start) * (1 / step)) ((hi - start) * (1 / step)) := by
  have hwidth : lo - start ≤ hi - start := by linarith
  rcases lt_or_gt_of_ne hstep with hneg | hpos
  · have hlo : lo ≤ start + step * t ↔ t ≤ (lo - start) * (1 / step) := by
      rw [mul_one_div, le_div_iff_of_neg hneg, sub_le_iff_le_add', mul_comm]
    have hhi : start + step * t ≤ hi ↔ (hi - start) * (1 / step) ≤ t := by
      rw [mul_one_div, div_le_iff_of_neg hneg, le_sub_iff_add_le', mul_comm]
    have hle := mul_le_mul_of_nonpos_right hwidth (one_div_nonpos.2 hneg.le)
    rw [hlo, hhi, min_eq_right hle, max_eq_left hle, and_comm]
  · have hlo : lo ≤ start + step * t ↔ (lo - start) * (1 / step) ≤ t := by
      rw [mul_one_div, div_le_iff₀ hpos, sub_le_iff_le_add', mul_comm]
    have hhi : start + step * t ≤ hi ↔ t ≤ (hi - start) * (1 / step) := by
      rw [mul_one_div, le_div_iff₀ hpos, le_sub_iff_add_le', mul_comm]
    have hle := mul_le_mul_of_nonneg_right hwidth (one_div_nonneg.2 hpos.le)
    rw [hlo, hhi, min_eq_left hle, max_eq_right hle]

namespace Across

theorem between_iff (h : Across r ray axis lo hi start step) (t : ℝ) :
    r.Between ray axis t ↔ lo ≤ start + step * t ∧ start + step * t ≤ hi := by
  have hpoint : ((ray.pointAt (.number t)).get axis).Is (start + step * t) := by
    have := h.start_is.add (h.step_is.mul (Extended.is_number t))
    cases axis <;> exact this
  rw [Between, Extended.le_iff h.lo_is hpoint, Extended.le_iff hpoint h.hi_is,
    EReal.coe_le_coe_iff, EReal.coe_le_coe_iff]

theorem beq_zero_iff (h : Across r ray axis lo hi start step) :
    (ray.direction.get axis == 0) = true ↔ step = 0 := by
  have hzero : (0 : Extended).Is 0 := rfl
  rw [Extended.beq_iff h.step_is hzero, EReal.coe_eq_coe_iff]

theorem grazesAt_iff (h : Across r ray axis lo hi start step) :
    r.GrazesAt ray axis ↔ step = 0 ∧ (start = lo ∨ start = hi) := by
  rw [GrazesAt, h.beq_zero_iff, Extended.beq_iff h.start_is h.lo_is,
    Extended.beq_iff h.start_is h.hi_is, EReal.coe_eq_coe_iff, EReal.coe_eq_coe_iff]

/-- A ray that does not move along the axis is always between the faces, or never. -/
theorem between_iff_of_still (h : Across r ray axis lo hi start 0) (t : ℝ) :
    r.Between ray axis t ↔ lo ≤ start ∧ start ≤ hi := by
  rw [h.between_iff, zero_mul, add_zero]

/-- The ends that are found from the distances of both faces. -/
theorem value?_ends (r : Rod Extended) (ray : Ray Extended) (axis : Axis) :
    ((r.entries ray).get axis).value? =
        Option.merge min (ray.reach axis (r.lo.get axis)).value?
          (ray.reach axis (r.hi.get axis)).value? ∧
      ((r.exits ray).get axis).value? =
        Option.merge max (ray.reach axis (r.lo.get axis)).value?
          (ray.reach axis (r.hi.get axis)).value? := by
  rw [get_entries, get_exits]
  exact ⟨Extended.value?_lesser _ _, Extended.value?_greater _ _⟩

/-- A ray that moves along the axis is between the faces for some time. -/
theorem crossing_of_ne_zero (h : Across r ray axis lo hi start step) (hstep : step ≠ 0) :
    ∃ l u, Crossing r ray axis l u := by
  have hlo : (ray.reach axis (r.lo.get axis)).value? = _ :=
    Ray.reach_is h.lo_is h.start_is h.step_is hstep
  have hhi : (ray.reach axis (r.hi.get axis)).value? = _ :=
    Ray.reach_is h.hi_is h.start_is h.step_is hstep
  have hends := value?_ends r ray axis
  rw [hlo, hhi, Option.merge_some_some, Option.merge_some_some,
    ← EReal.coe_strictMono.monotone.map_min, ← EReal.coe_strictMono.monotone.map_max] at hends
  refine ⟨_, _, ⟨fun t => ?_, fun _ => ⟨EReal.coe_ne_bot _, EReal.coe_ne_top _⟩, fun _ => hends,
    fun hgrazes => absurd (h.grazesAt_iff.1 hgrazes).1 hstep⟩⟩
  rw [h.between_iff, between_faces_iff hstep h.lt, EReal.coe_le_coe_iff, EReal.coe_le_coe_iff]

/-- A ray that does not move along the axis, and starts outside of the faces, is never between
them.  Both are infinitely far away on the same side. -/
theorem crossing_outside (h : Across r ray axis lo hi start 0) (hout : start < lo ∨ hi < start) :
    ∃ l u, Crossing r ray axis l u := by
  obtain ⟨s, hlo, hhi⟩ : ∃ s, ray.reach axis (r.lo.get axis) = .infinite s ∧
      ray.reach axis (r.hi.get axis) = .infinite s := by
    rcases hout with hlow | hhigh
    · exact ⟨_, Ray.reach_of_lt h.lo_is h.start_is h.step_is hlow,
        Ray.reach_of_lt h.hi_is h.start_is h.step_is (hlow.trans h.lt)⟩
    · exact ⟨_, Ray.reach_of_gt h.lo_is h.start_is h.step_is (h.lt.trans hhigh),
        Ray.reach_of_gt h.hi_is h.start_is h.step_is hhigh⟩
  have hends := value?_ends r ray axis
  rw [hlo, hhi, Extended.value?_infinite, Option.merge_some_some, Option.merge_some_some, min_self,
    max_self] at hends
  refine ⟨_, _, ⟨fun t => ?_, fun hstep => absurd (h.beq_zero_iff.2 rfl) hstep, fun _ => hends,
    fun _ => ⟨_, ?_, hends⟩⟩⟩
  · have hnever : ¬(lo ≤ start ∧ start ≤ hi) := by
      rcases hout with hlow | hhigh
      · exact fun hbetween => absurd hbetween.1 (not_le.2 hlow)
      · exact fun hbetween => absurd hbetween.2 (not_le.2 hhigh)
    rw [h.between_iff_of_still]
    refine iff_of_false hnever ?_
    cases s <;> simp
  · cases s <;> simp

/-- A ray that starts between the faces and does not move along the axis stays there.  The faces are
infinitely far away on different sides. -/
theorem crossing_inside (h : Across r ray axis lo hi start 0) (hlow : lo < start)
    (hhigh : start < hi) : ∃ l u, Crossing r ray axis l u := by
  have hlo := Ray.reach_of_gt h.lo_is h.start_is h.step_is hlow
  have hhi := Ray.reach_of_lt h.hi_is h.start_is h.step_is hhigh
  have hends := value?_ends r ray axis
  rw [hlo, hhi, Extended.value?_infinite, Extended.value?_infinite, Option.merge_some_some,
    Option.merge_some_some] at hends
  refine ⟨⊥, ⊤, ⟨fun t => ?_, fun hstep => absurd (h.beq_zero_iff.2 rfl) hstep, fun _ => ?_,
    fun hgrazes => ?_⟩⟩
  · rw [h.between_iff_of_still]
    exact iff_of_true ⟨hlow.le, hhigh.le⟩ ⟨bot_le, le_top⟩
  · cases hs : (ray.direction.get axis).isNegative <;> simpa [hs] using hends
  · rcases (h.grazesAt_iff.1 hgrazes).2 with heq | heq
    · exact absurd heq hlow.ne'
    · exact absurd heq hhigh.ne

/-- A ray in a face stays there.  The distance of that face is not a number, and that of the other
one is infinite. -/
theorem crossing_face (h : Across r ray axis lo hi start 0) (hface : start = lo ∨ start = hi) :
    ∃ l u, Crossing r ray axis l u := by
  have hgrazes : r.GrazesAt ray axis := h.grazesAt_iff.2 ⟨rfl, hface⟩
  have hends := value?_ends r ray axis
  refine ⟨⊥, ⊤, ⟨fun t => ?_, fun hstep => absurd (h.beq_zero_iff.2 rfl) hstep,
    fun hno => absurd hgrazes hno, fun _ => ?_⟩⟩
  · rw [h.between_iff_of_still]
    refine iff_of_true ?_ ⟨bot_le, le_top⟩
    rcases hface with rfl | rfl
    · exact ⟨le_rfl, h.lt.le⟩
    · exact ⟨h.lt.le, le_rfl⟩
  · obtain ⟨s, hfound⟩ : ∃ s, ((r.entries ray).get axis).value? = (Extended.infinite s).value? ∧
        ((r.exits ray).get axis).value? = (Extended.infinite s).value? := by
      rcases hface with heq | heq
      · rw [Ray.reach_of_eq h.lo_is h.start_is h.step_is heq,
          Ray.reach_of_lt h.hi_is h.start_is h.step_is (heq ▸ h.lt)] at hends
        exact ⟨_, hends⟩
      · rw [Ray.reach_of_gt h.lo_is h.start_is h.step_is (heq ▸ h.lt),
          Ray.reach_of_eq h.hi_is h.start_is h.step_is heq] at hends
        exact ⟨_, hends⟩
    exact ⟨_, by cases s <;> simp, hfound⟩

theorem exists_crossing (h : Across r ray axis lo hi start step) :
    ∃ l u, Crossing r ray axis l u := by
  by_cases hstep : step = 0
  · subst hstep
    rcases lt_trichotomy start lo with hlow | heq | hlow
    · exact h.crossing_outside (.inl hlow)
    · exact h.crossing_face (.inl heq)
    · rcases lt_trichotomy start hi with hhigh | heq | hhigh
      · exact h.crossing_inside hlow hhigh
      · exact h.crossing_face (.inr heq)
      · exact h.crossing_outside (.inr hhigh)
  · exact h.crossing_of_ne_zero hstep

end Across

/-! ## All axes -/

/-- A range of the extended line that is bounded on both sides has real ends. -/
theorem exists_real_ends {l u : EReal} (hl : l ≠ ⊥) (hu : u ≠ ⊤) (hle : l ≤ u) :
    ∃ n f : ℝ, n ≤ f ∧ l = n ∧ u = f := by
  lift l to ℝ using ⟨(hle.trans_lt (lt_top_iff_ne_top.2 hu)).ne, hl⟩
  lift u to ℝ using ⟨hu, ((bot_lt_iff_ne_bot.2 hl).trans_le hle).ne'⟩
  exact ⟨l, u, EReal.coe_le_coe_iff.1 hle, rfl, rfl⟩

/-- The ray meets the box at a distance. -/
noncomputable def hitAt (r : Rod Extended) (ray : Ray Extended) (t : ℝ) : Hit Extended :=
  ⟨.number t, some (ray.pointAt (.number t)), some (.rod r)⟩

variable {l u : Axis → EReal} {n f : ℝ}

/-- The ray is in the box while it is between the faces of all axes. -/
theorem mem_stretch_iff (h : ∀ axis, Crossing r ray axis (l axis) (u axis)) :
    t ∈ r.stretch ray ↔ (⨆ axis, l axis) ≤ t ∧ t ≤ ⨅ axis, u axis := by
  show (∀ axis, r.Between ray axis t) ↔ _
  simp only [(h _).between_iff, iSup_le_iff, le_iInf_iff, forall_and]

/-- A ray that moves along some axis is in the box for a finite time. -/
theorem finite_ends (h : ∀ axis, Crossing r ray axis (l axis) (u axis))
    (hmoves : ∃ axis, ¬(ray.direction.get axis == 0) = true) :
    (⨆ axis, l axis) ≠ ⊥ ∧ (⨅ axis, u axis) ≠ ⊤ := by
  obtain ⟨axis, hstep⟩ := hmoves
  obtain ⟨hl, hu⟩ := (h axis).finite hstep
  exact ⟨ne_bot_of_le_ne_bot hl (le_iSup l axis), ne_top_of_le_ne_top hu (iInf_le u axis)⟩

/-- The ends that are compared, unless the ray runs in a face. -/
theorem value?_ends (h : ∀ axis, Crossing r ray axis (l axis) (u axis)) (hgrazes : ¬r.Grazes ray) :
    (r.entries ray).largest.value? = some (⨆ axis, l axis) ∧
      (r.exits ray).smallest.value? = some (⨅ axis, u axis) := by
  have hfound := fun axis => (h axis).found fun hg => hgrazes ⟨axis, hg⟩
  exact ⟨Vec3.value?_largest fun axis => (hfound axis).1,
    Vec3.value?_smallest fun axis => (hfound axis).2⟩

/-- A ray in a face seems to be between the faces of that axis at an infinite distance only, but is
between those of another one for a finite time. -/
theorem slab?_eq_none_of_grazes (h : ∀ axis, Crossing r ray axis (l axis) (u axis))
    (hmoves : ∃ axis, ¬(ray.direction.get axis == 0) = true) (hgrazes : r.Grazes ray) :
    r.slab? ray = none := by
  have hfound : ∀ axis, ∃ l' u', ((r.entries ray).get axis).value? = some l' ∧
      ((r.exits ray).get axis).value? = some u' := by
    intro axis
    by_cases hg : r.GrazesAt ray axis
    · obtain ⟨e, -, hends⟩ := (h axis).lost hg
      exact ⟨e, e, hends⟩
    · exact ⟨_, _, (h axis).found hg⟩
  choose l' u' hl' hu' using hfound
  rw [slab?_eq, if_neg]
  rw [Extended.le_iff (Vec3.value?_largest hl') (Vec3.value?_smallest hu')]
  intro hle
  have hpair : ∀ {axis axis' p q}, ((r.entries ray).get axis).value? = some p →
      ((r.exits ray).get axis').value? = some q → p ≤ q := by
    intro axis axis' p q hp hq
    cases (hl' axis).symm.trans hp
    cases (hu' axis').symm.trans hq
    exact (le_iSup l' axis).trans (hle.trans (iInf_le u' axis'))
  obtain ⟨along, hstep⟩ := hmoves
  obtain ⟨across, hface⟩ := hgrazes
  obtain ⟨hl, hu⟩ := (h along).finite hstep
  obtain ⟨hentry, hexit⟩ := (h along).found fun hg => hstep hg.1
  obtain ⟨e, rfl | rfl, hentry', hexit'⟩ := (h across).lost hface
  · exact hl (le_bot_iff.1 (hpair hentry hexit'))
  · exact hu (top_le_iff.1 (hpair hentry' hexit))

/-! ## What is reported -/

theorem intersect_of_slab?_eq_none (h : r.slab? ray = none) (best : Extended) :
    (Leaf.rod r).intersect ray best = .ok .miss := by
  refine Leaf.intersect_eq_ok.2 (.inr ⟨?_, rfl⟩)
  show Except.ok ((r.slab? ray).bind _) = _
  rw [h]
  rfl

theorem defaultEpsilon_is : (defaultEpsilon : Extended).Is (1 / 10 ^ 6) := by
  have h : (defaultEpsilon : Extended) = .number (Scalar.decimal 1 true 6) := rfl
  rw [h, ExactScalar.decimal_eq, if_pos rfl, Nat.cast_one]
  exact Extended.is_number _

/-- Of the two ends the first one that is far enough away is reported. -/
theorem intersect_of_value?_ends (hn : (r.entries ray).largest.Is n)
    (hf : (r.exits ray).smallest.Is f) (hle : n ≤ f) (best : Extended) :
    (Leaf.rod r).intersect ray best =
      .ok (if 1 / 10 ^ 6 < n then r.hitAt ray n
        else if 1 / 10 ^ 6 < f then r.hitAt ray f else .miss) := by
  have hslab : r.slab? ray = some ((r.entries ray).largest, (r.exits ray).smallest) := by
    rw [slab?_eq, if_pos ((Extended.le_iff hn hf).2 (EReal.coe_le_coe_iff.2 hle))]
  have hnear : defaultEpsilon < (r.entries ray).largest ↔ 1 / 10 ^ 6 < n := by
    rw [Extended.lt_iff defaultEpsilon_is hn, EReal.coe_lt_coe_iff]
  have hfar : defaultEpsilon < (r.exits ray).smallest ↔ 1 / 10 ^ 6 < f := by
    rw [Extended.lt_iff defaultEpsilon_is hf, EReal.coe_lt_coe_iff]
  have hdistance : (Leaf.rod r).distance? ray best =
      .ok (if 1 / 10 ^ 6 < n then some (r.entries ray).largest
        else if 1 / 10 ^ 6 < f then some (r.exits ray).smallest else none) := by
    show Except.ok ((r.slab? ray).bind _) = _
    simp only [hslab, Option.bind_some, find?_ends, hnear, hfar]
  have hpositive : ∀ {x : ℝ}, 1 / 10 ^ 6 < x → x ≠ 0 := fun hx =>
    (lt_trans (by norm_num) hx).ne'
  refine Leaf.intersect_eq_ok.2 ?_
  rw [hdistance]
  by_cases hlate : 1 / 10 ^ 6 < n
  · rw [if_pos hlate, if_pos hlate, hn.eq_number (hpositive hlate)]
    exact .inl ⟨_, rfl, rfl⟩
  · rw [if_neg hlate, if_neg hlate]
    by_cases hlater : 1 / 10 ^ 6 < f
    · rw [if_pos hlater, if_pos hlater, hf.eq_number (hpositive hlater)]
      exact .inl ⟨_, rfl, rfl⟩
    · rw [if_neg hlater, if_neg hlater]
      exact .inr ⟨rfl, rfl⟩

/-! ## Rods that are built -/

theorem run_build_eq_ok {axisNumber : Nat} {length thickness : Extended} {ids ids' : IdSupply}
    (h : (build axisNumber length thickness).run.run ids = (.ok r, ids')) :
    ∃ axis id, 0 < length ∧ 0 < thickness ∧ r = along id axis length thickness := by
  rw [build] at h
  split at h
  · cases h
  · rename_i axis _
    split at h
    · rename_i hpositive
      rw [Bool.and_eq_true, decide_eq_true_iff, decide_eq_true_iff] at hpositive
      cases h
      exact ⟨axis, _, hpositive.1, hpositive.2, rfl⟩
    · cases h

/-- The faces of a rod with a finite length and thickness are at finite places and apart. -/
theorem exists_faces {along axis : Axis} {id : ShapeId} {length thickness : Extended}
    (hlength : Scalar.isFinite length = true) (hthickness : Scalar.isFinite thickness = true)
    (hlong : 0 < length) (hthick : 0 < thickness) :
    ∃ lo hi : ℝ, lo < hi ∧ ((Rod.along id along length thickness).lo.get axis).Is lo ∧
      ((Rod.along id along length thickness).hi.get axis).Is hi := by
  obtain ⟨x, hx⟩ := Extended.isFinite_iff.1 hlength
  obtain ⟨y, hy⟩ := Extended.isFinite_iff.1 hthickness
  have hzero : (0 : Extended).Is 0 := rfl
  have hxpos : 0 < x := EReal.coe_lt_coe_iff.1 ((Extended.lt_iff hzero hx).1 hlong)
  have hypos : 0 < y := EReal.coe_lt_coe_iff.1 ((Extended.lt_iff hzero hy).1 hthick)
  by_cases h : axis = along
  · subst h
    refine ⟨0, x, hxpos, ?_, ?_⟩
    · cases axis <;> exact hzero
    · cases axis <;> exact hx
  · refine ⟨-y, y, neg_lt_self hypos, ?_, ?_⟩
    · cases axis <;> cases along <;> first | exact absurd rfl h | exact hy.neg
    · cases axis <;> cases along <;> first | exact absurd rfl h | exact hy

/-- A direction of unit length is finite and not zero. -/
theorem finite_direction {v : Vec3 Extended} (h : v.lengthSquared = 1) :
    (∀ axis, ∃ x, (v.get axis).Is x) ∧ ∃ axis, ¬(v.get axis == 0) = true := by
  have hlength : (v.x * v.x + v.y * v.y + v.z * v.z).Is 1 := by
    have hone : (1 : Extended).Is 1 := rfl
    rwa [← h] at hone
  obtain ⟨⟨xy, hxy⟩, zz, hzz⟩ := hlength.exists_of_add
  obtain ⟨⟨xx, hxx⟩, yy, hyy⟩ := hxy.exists_of_add
  obtain ⟨x, hx⟩ := hxx.exists_of_mul_self
  obtain ⟨y, hy⟩ := hyy.exists_of_mul_self
  obtain ⟨z, hz⟩ := hzz.exists_of_mul_self
  have hfinite : ∀ axis, ∃ x, (v.get axis).Is x := by
    intro axis
    cases axis
    · exact ⟨x, hx⟩
    · exact ⟨y, hy⟩
    · exact ⟨z, hz⟩
  refine ⟨hfinite, by_contra fun hstill => ?_⟩
  have hzero : ∀ axis, (v.get axis).Is 0 := by
    intro axis
    obtain ⟨x, hx⟩ := hfinite axis
    have hbeq : (v.get axis == 0) = true := by_contra fun h => hstill ⟨axis, h⟩
    obtain rfl : x = 0 := EReal.coe_eq_coe_iff.1 ((Extended.beq_iff hx rfl).1 hbeq)
    exact hx
  have hnothing := (((hzero .x).mul (hzero .x)).add ((hzero .y).mul (hzero .y))).add
    ((hzero .z).mul (hzero .z))
  have := hnothing.unique hlength
  norm_num at this

/-- The stretch of a ray in a rod is an interval, if there is one.  What is reported is its
beginning, or its end if the ray starts inside; but nothing is reported on a ray in the plane of a
face. -/
theorem intersect_stretch {axisNumber : Nat} {length thickness : Extended} {ids ids' : IdSupply}
    (hlength : Scalar.isFinite length = true) (hthickness : Scalar.isFinite thickness = true)
    (hbuild : (build axisNumber length thickness).run.run ids = (.ok r, ids'))
    (horigin : ∀ axis, Scalar.isFinite (ray.origin.get axis) = true)
    (hunit : ray.direction.lengthSquared = 1) (best : Extended) :
    r.stretch ray = ∅ ∧ (Leaf.rod r).intersect ray best = .ok .miss ∨
      ∃ n f : ℝ, n ≤ f ∧ r.stretch ray = Set.Icc n f ∧
        (¬r.Grazes ray → (Leaf.rod r).intersect ray best =
          .ok (if 1 / 10 ^ 6 < n then r.hitAt ray n
            else if 1 / 10 ^ 6 < f then r.hitAt ray f else .miss)) ∧
        (r.Grazes ray → (Leaf.rod r).intersect ray best = .ok .miss) := by
  obtain ⟨own, id, hlong, hthick, hr⟩ := run_build_eq_ok hbuild
  obtain ⟨hdirection, hmoves⟩ := finite_direction hunit
  have hcross : ∀ axis, ∃ l u, Crossing r ray axis l u := by
    intro axis
    obtain ⟨lo, hi, hlt, hlo, hhi⟩ := exists_faces hlength hthickness hlong hthick
    rw [← hr] at hlo hhi
    obtain ⟨start, hstart⟩ := Extended.isFinite_iff.1 (horigin axis)
    obtain ⟨step, hstep⟩ := hdirection axis
    exact Across.exists_crossing ⟨hlo, hhi, hstart, hstep, hlt⟩
  choose l u hcross using hcross
  obtain ⟨hl, hu⟩ := finite_ends hcross hmoves
  have hgrazed := fun hgrazes =>
    intersect_of_slab?_eq_none (slab?_eq_none_of_grazes hcross hmoves hgrazes) best
  by_cases hle : (⨆ axis, l axis) ≤ ⨅ axis, u axis
  · obtain ⟨n, f, hnf, hn, hf⟩ := exists_real_ends hl hu hle
    refine .inr ⟨n, f, hnf, ?_, fun hgrazes => ?_, hgrazed⟩
    · ext t
      rw [mem_stretch_iff hcross, hn, hf, EReal.coe_le_coe_iff, EReal.coe_le_coe_iff]
      rfl
    · obtain ⟨hnear, hfar⟩ := value?_ends hcross hgrazes
      rw [hn] at hnear
      rw [hf] at hfar
      exact intersect_of_value?_ends hnear hfar hnf best
  · refine .inl ⟨Set.eq_empty_of_forall_notMem fun t ht => ?_, ?_⟩
    · obtain ⟨hafter, hbefore⟩ := (mem_stretch_iff hcross).1 ht
      exact hle (hafter.trans hbefore)
    · by_cases hgrazes : r.Grazes ray
      · exact hgrazed hgrazes
      · obtain ⟨hnear, hfar⟩ := value?_ends hcross hgrazes
        refine intersect_of_slab?_eq_none ?_ best
        rw [slab?_eq, if_neg (mt (Extended.le_iff hnear hfar).1 hle)]

/-! ## Rays that come down on a rod -/

/-- A rod of length five and half as wide as two along the first axis. -/
noncomputable def beam : Rod Extended := .along ⟨0⟩ .x (.number (5 : ℕ)) (.number 1)

theorem run_build_beam :
    (build 0 (.number 5) (.number 1)).run.run .fresh = (.ok beam, ⟨1⟩) := by
  have hlength : (0 : Extended) < .number 5 :=
    (Extended.lt_iff (a := 0) rfl rfl).2 (EReal.coe_lt_coe_iff.2 (by norm_num))
  have hthickness : (0 : Extended) < .number 1 :=
    (Extended.lt_iff (a := 0) rfl rfl).2 (EReal.coe_lt_coe_iff.2 (by norm_num))
  rw [build]
  simp only [Axis.ofNat?, hlength, hthickness, decide_true, Bool.and_self, if_true]
  rfl

/-- A ray that comes down from above the rod, as far along it as is said. -/
noncomputable def downward (x : ℝ) : Ray Extended :=
  ⟨⟨.number x, 0, .number (3 : ℕ)⟩, ⟨0, 0, .number (-1)⟩⟩

variable {x : ℝ}

theorem across_downward (x : ℝ) : Across beam (downward x) .x 0 5 x 0 ∧
    Across beam (downward x) .y (-1) 1 0 0 ∧ Across beam (downward x) .z (-1) 1 3 (-1) := by
  have hthickness : (-Extended.number 1).Is (-1) := Extended.Is.neg (Extended.is_number 1)
  exact ⟨⟨rfl, rfl, rfl, rfl, by norm_num⟩, ⟨hthickness, rfl, rfl, rfl, by norm_num⟩,
    ⟨hthickness, rfl, rfl, rfl, by norm_num⟩⟩

theorem lengthSquared_downward (x : ℝ) : (downward x).direction.lengthSquared = 1 := by
  have hzero : (0 : Extended).Is 0 := rfl
  have hdown : (Extended.number (-1)).Is (-1) := rfl
  have hlength : (downward x).direction.lengthSquared.Is (0 * 0 + 0 * 0 + -1 * -1) :=
    ((hzero.mul hzero).add (hzero.mul hzero)).add (hdown.mul hdown)
  rw [hlength.eq_number (by norm_num)]
  norm_num
  rfl

theorem isFinite_downward (x : ℝ) (axis : Axis) :
    Scalar.isFinite ((downward x).origin.get axis) = true := by
  refine Extended.isFinite_iff.2 ?_
  cases axis
  · exact ⟨_, rfl⟩
  · exact ⟨0, rfl⟩
  · exact ⟨_, rfl⟩

theorem stretch_downward (hx : 0 ≤ x ∧ x ≤ 5) : beam.stretch (downward x) = Set.Icc 2 4 := by
  obtain ⟨hacross, hbeside, hbelow⟩ := across_downward x
  ext t
  show (∀ axis, _) ↔ _ ∧ _
  constructor
  · intro h
    obtain ⟨hlo, hhi⟩ := (hbelow.between_iff t).1 (h .z)
    constructor <;> linarith
  · rintro ⟨hafter, hbefore⟩ axis
    cases axis
    · exact (hacross.between_iff t).2 (by simpa using hx)
    · exact (hbeside.between_iff t).2 (by norm_num)
    · exact (hbelow.between_iff t).2 (by constructor <;> linarith)

theorem grazes_downward : beam.Grazes (downward x) ↔ x = 0 ∨ x = 5 := by
  obtain ⟨hacross, hbeside, hbelow⟩ := across_downward x
  constructor
  · rintro ⟨axis, h⟩
    cases axis
    · exact (hacross.grazesAt_iff.1 h).2
    · have := (hbeside.grazesAt_iff.1 h).2
      norm_num at this
    · have := (hbelow.grazesAt_iff.1 h).1
      norm_num at this
  · intro h
    exact ⟨.x, hacross.grazesAt_iff.2 ⟨rfl, h⟩⟩

/-- A ray that comes down on the rod hits it from above. -/
theorem intersect_stretch_downward :
    Scalar.isFinite (Extended.number 5) = true ∧ Scalar.isFinite (Extended.number 1) = true ∧
      (build 0 (.number 5) (.number 1)).run.run .fresh = (.ok beam, ⟨1⟩) ∧
      (∀ axis, Scalar.isFinite ((downward 1).origin.get axis) = true) ∧
      (downward 1).direction.lengthSquared = 1 ∧ ¬beam.Grazes (downward 1) ∧
      beam.stretch (downward 1) = Set.Icc 2 4 ∧
      (Leaf.rod beam).intersect (downward 1) Scalar.infinity =
        .ok (beam.hitAt (downward 1) 2) := by
  have hlength := Extended.isFinite_iff.2 ⟨5, Extended.is_number 5⟩
  have hthickness := Extended.isFinite_iff.2 ⟨1, Extended.is_number 1⟩
  have hgrazes : ¬beam.Grazes (downward 1) := by
    rw [grazes_downward]
    norm_num
  have hstretch : beam.stretch (downward 1) = Set.Icc 2 4 := stretch_downward (by norm_num)
  refine ⟨hlength, hthickness, run_build_beam, isFinite_downward 1, lengthSquared_downward 1,
    hgrazes, hstretch, ?_⟩
  rcases intersect_stretch hlength hthickness run_build_beam (isFinite_downward 1)
    (lengthSquared_downward 1) Scalar.infinity with ⟨hempty, -⟩ | ⟨n, f, hnf, hends, hhit, -⟩
  · rw [hstretch] at hempty
    exact absurd hempty (Set.nonempty_Icc.2 (by norm_num)).ne_empty
  · rw [hstretch] at hends
    obtain ⟨rfl, rfl⟩ := (Set.Icc_eq_Icc_iff (by norm_num)).1 hends
    rw [hhit hgrazes, if_pos (by norm_num)]

/-- A ray that comes down on the end of the rod is in the box for as long, but misses it. -/
theorem grazing_ray_misses_beam :
    (build 0 (.number 5) (.number 1)).run.run .fresh = (.ok beam, ⟨1⟩) ∧
      (∀ axis, Scalar.isFinite ((downward 0).origin.get axis) = true) ∧
      (downward 0).direction.lengthSquared = 1 ∧ beam.stretch (downward 0) = Set.Icc 2 4 ∧
      (1 : ℝ) / 10 ^ 6 < 2 ∧
      (Leaf.rod beam).intersect (downward 0) Scalar.infinity = .ok .miss := by
  obtain ⟨hacross, hbeside, hbelow⟩ := across_downward 0
  have hcross : ∀ axis, ∃ l u, Crossing beam (downward 0) axis l u := by
    intro axis
    cases axis
    · exact hacross.exists_crossing
    · exact hbeside.exists_crossing
    · exact hbelow.exists_crossing
  choose l u hcross using hcross
  have hmoves : ∃ axis, ¬((downward 0).direction.get axis == 0) = true :=
    ⟨.z, mt hbelow.beq_zero_iff.1 (by norm_num)⟩
  refine ⟨run_build_beam, isFinite_downward 0, lengthSquared_downward 0,
    stretch_downward (by norm_num), by norm_num, ?_⟩
  exact intersect_of_slab?_eq_none
    (slab?_eq_none_of_grazes hcross hmoves (grazes_downward.2 (.inl rfl))) _

end Rod

end ZeroSet
