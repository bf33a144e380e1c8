import ZeroSet.Proofs.SceneGuards
import Mathlib.Order.Bounds.Basic

/-!
# The two routines for spheres

A sphere is intersected by solving a quadratic equation or by projecting its centre onto the ray.
Both look for the least distance beyond the default one at which the ray is on the sphere.  The
quadratic routine finds it on every ray.  The projection settles from where the ray starts which of
the two ends of the chord is meant: from outside it is the nearer end, and if that one is within the
default distance, the routine gives up although the other end is beyond it.

* `Sphere.ahead` — the distances in question.
* `Sphere.Nearest` — what a routine has to report.
* `Sphere.EnteredAtOnce` — spheres that are entered within the default distance and left beyond it.
* `Sphere.nearest_quadraticDistance?` — the quadratic routine is right.
* `Sphere.algebraicDistance?_eq_quadraticDistance?` — where the projection reports the same.
* `Sphere.routines_nearest_iff` — both, and that the projection is wrong elsewhere.
* `Sphere.algebraic_misses_nextToStart` — a sphere that it misses.
-/

namespace ZeroSet

namespace Sphere

section

variable {K : Type} [RootScalar K]

/-! ## What has to be reported -/

/-- The distances beyond the default one at which the ray is a radius away from the centre. -/
def ahead (s : Sphere K) (ray : Ray K) : Set K :=
  {t | defaultEpsilon < t ∧ Scalar.sqrt (ray.pointAt t - s.center).lengthSquared = s.radius}

/-- What is reported is the least distance ahead, and nothing only if there is none. -/
def Nearest (s : Sphere K) (ray : Ray K) : Option K → Prop
  | some t => IsLeast (s.ahead ray) t
  | none => s.ahead ray = ∅

/-- The ray starts in front of the sphere and is inside it before the default distance, which ends
before the ray leaves the sphere. -/
def EnteredAtOnce (s : Sphere K) (ray : Ray K) : Prop :=
  ∃ near far, s.Meets ray near ∧ s.Meets ray far ∧ 0 < near ∧ near ≤ defaultEpsilon ∧
    defaultEpsilon < far

variable {s : Sphere K} {ray : Ray K} {t half : K}

theorem mem_ahead (hradius : 0 < s.radius) :
    t ∈ s.ahead ray ↔ defaultEpsilon < t ∧ s.Meets ray t := by
  have hlength := Vec3.lengthSquared_nonneg (ray.pointAt t - s.center)
  show _ ∧ _ ↔ _
  rw [RootScalar.sqrt_eq_iff hlength hradius.le, Meets]

/-- Ahead are the ends of the chord that are beyond the default distance. -/
theorem mem_ahead_iff_of_halfChord (hradius : 0 < s.radius)
    (hunit : ray.direction.lengthSquared = 1) (hhalf : s.HalfChord ray half) :
    t ∈ s.ahead ray ↔ defaultEpsilon < t ∧ (t = s.along ray - half ∨ t = s.along ray + half) := by
  rw [mem_ahead hradius, hhalf.meets_iff hunit]

/-- A ray without a chord has nothing ahead. -/
theorem ahead_eq_empty (hradius : 0 < s.radius) (hunit : ray.direction.lengthSquared = 1)
    (h : s.along ray * s.along ray < s.clearance ray) : s.ahead ray = ∅ := by
  refine Set.eq_empty_of_forall_notMem fun t ht => ?_
  have hmeets := ((mem_ahead hradius).1 ht).2
  exact absurd (hmeets.clearance_le hunit) (not_le.2 h)

/-! ## By the quadratic equation -/

/-- Of the ends of a chord the first one that is far enough away is the least distance ahead. -/
theorem HalfChord.nearest_find? (hhalf : s.HalfChord ray half) (hradius : 0 < s.radius)
    (hunit : ray.direction.lengthSquared = 1) :
    s.Nearest ray
      ([s.along ray - half, s.along ray + half].find? fun t => defaultEpsilon < t) := by
  have hnonneg := hhalf.nonneg
  have hahead : ∀ t, t ∈ s.ahead ray ↔ _ :=
    fun t => mem_ahead_iff_of_halfChord hradius hunit hhalf
  rw [find?_ends]
  by_cases hnear : defaultEpsilon < s.along ray - half
  · rw [if_pos hnear]
    refine ⟨(hahead _).2 ⟨hnear, .inl rfl⟩, fun t ht => ?_⟩
    rcases ((hahead t).1 ht).2 with rfl | rfl
    · exact le_refl _
    · linarith
  · rw [if_neg hnear]
    by_cases hfar : defaultEpsilon < s.along ray + half
    · rw [if_pos hfar]
      refine ⟨(hahead _).2 ⟨hfar, .inr rfl⟩, fun t ht => ?_⟩
      obtain ⟨hbeyond, rfl | rfl⟩ := (hahead t).1 ht
      · exact absurd hbeyond hnear
      · exact le_refl _
    · rw [if_neg hfar]
      refine Set.eq_empty_of_forall_notMem fun t ht => ?_
      obtain ⟨hbeyond, rfl | rfl⟩ := (hahead t).1 ht
      · exact hnear hbeyond
      · exact hfar hbeyond

/-- The quadratic routine reports the least distance ahead. -/
theorem nearest_quadraticDistance? (hradius : 0 < s.radius)
    (hunit : ray.direction.lengthSquared = 1) : s.Nearest ray (s.quadraticDistance? ray) := by
  by_cases hchord : s.clearance ray ≤ s.along ray * s.along ray
  · obtain ⟨half, hhalf, hdistance⟩ := exists_quadraticDistance? hunit hchord
    rw [hdistance]
    exact hhalf.nearest_find? hradius hunit
  · rw [quadraticDistance?_eq_none hunit (not_le.1 hchord)]
    exact ahead_eq_empty hradius hunit (not_le.1 hchord)

/-! ## By projecting the centre -/

/-- The chord of a sphere that is entered at once. -/
theorem HalfChord.enteredAtOnce_iff (hhalf : s.HalfChord ray half)
    (hunit : ray.direction.lengthSquared = 1) :
    s.EnteredAtOnce ray ↔ 0 < s.clearance ray ∧ s.along ray - half ≤ defaultEpsilon ∧
      defaultEpsilon < s.along ray + half := by
  have hproduct : s.clearance ray = (s.along ray - half) * (s.along ray + half) := by
    linear_combination hhalf.square
  have hepsilon := defaultEpsilon_pos (K := K)
  have hnonneg := hhalf.nonneg
  constructor
  · rintro ⟨near, far, hnear, hfar, hpos, hwithin, hbeyond⟩
    rw [hhalf.meets_iff hunit] at hnear hfar
    have hends : near = s.along ray - half ∧ far = s.along ray + half := by
      rcases hnear with rfl | rfl
      · refine ⟨rfl, hfar.resolve_left fun h => ?_⟩
        linarith
      · -- the farther end is no nearer than the other one
        rcases hfar with rfl | rfl
        · linarith
        · linarith
    obtain ⟨rfl, rfl⟩ := hends
    refine ⟨?_, hwithin, hbeyond⟩
    rw [hproduct]
    exact mul_pos hpos (hepsilon.trans hbeyond)
  · rintro ⟨houtside, hwithin, hbeyond⟩
    rw [hproduct] at houtside
    have hpos := (pos_iff_pos_of_mul_pos houtside).2 (hepsilon.trans hbeyond)
    exact ⟨_, _, (hhalf.meets_iff hunit).2 (.inl rfl), (hhalf.meets_iff hunit).2 (.inr rfl), hpos,
      hwithin, hbeyond⟩

theorem EnteredAtOnce.exists_halfChord (h : s.EnteredAtOnce ray)
    (hunit : ray.direction.lengthSquared = 1) : ∃ half, s.HalfChord ray half := by
  obtain ⟨near, _, hnear, _⟩ := h
  exact ⟨_, halfChord_sqrt (hnear.clearance_le hunit)⟩

/-- A sphere that is entered at once is missed. -/
theorem algebraicDistance?_of_enteredAtOnce (h : s.EnteredAtOnce ray)
    (hunit : ray.direction.lengthSquared = 1) : s.algebraicDistance? ray = none := by
  obtain ⟨half, hhalf⟩ := h.exists_halfChord hunit
  obtain ⟨houtside, hwithin, -⟩ := (hhalf.enteredAtOnce_iff hunit).1 h
  rw [hhalf.algebraicDistance?_outside houtside, if_neg (not_lt.2 hwithin)]

/-- Of every other sphere the projection reports what the quadratic routine does. -/
theorem algebraicDistance?_eq_quadraticDistance? (hunit : ray.direction.lengthSquared = 1)
    (h : ¬s.EnteredAtOnce ray) : s.algebraicDistance? ray = s.quadraticDistance? ray := by
  by_cases hchord : s.clearance ray ≤ s.along ray * s.along ray
  · obtain ⟨half, hhalf, hquadratic⟩ := exists_quadraticDistance? hunit hchord
    rw [hquadratic, find?_ends]
    by_cases houtside : 0 < s.clearance ray
    · rw [hhalf.algebraicDistance?_outside houtside]
      by_cases hnear : defaultEpsilon < s.along ray - half
      · rw [if_pos hnear, if_pos hnear]
      · -- the nearer end is within the default distance, so the other one is as well
        have hfar : ¬defaultEpsilon < s.along ray + half := fun hfar =>
          h ((hhalf.enteredAtOnce_iff hunit).2 ⟨houtside, not_lt.1 hnear, hfar⟩)
        rw [if_neg hnear, if_neg hnear, if_neg hfar]
    · have hnear : ¬defaultEpsilon < s.along ray - half := by
        have hbehind := hhalf.abs_le (not_lt.1 houtside)
        have hepsilon := defaultEpsilon_pos (K := K)
        have hle := le_abs_self (s.along ray)
        linarith
      rw [hhalf.algebraicDistance?_inside (not_lt.1 houtside), if_neg hnear]
  · rw [quadraticDistance?_eq_none hunit (not_le.1 hchord),
      algebraicDistance?_eq_none (not_le.1 hchord)]

/-! ## Both routines -/

/-- The quadratic routine reports the least distance ahead on every ray.  The projection does so
unless the sphere is entered within the default distance and left beyond it, and there, and only
there, the routines differ. -/
theorem routines_nearest_iff (s : Sphere K) (ray : Ray K) (hradius : 0 < s.radius)
    (hunit : ray.direction.lengthSquared = 1) :
    s.Nearest ray (s.quadraticDistance? ray) ∧
      (s.Nearest ray (s.algebraicDistance? ray) ↔ ¬s.EnteredAtOnce ray) ∧
      (s.algebraicDistance? ray = s.quadraticDistance? ray ↔ ¬s.EnteredAtOnce ray) := by
  have hquadratic := nearest_quadraticDistance? hradius hunit
  have hmissed : s.EnteredAtOnce ray → ¬s.Nearest ray (s.algebraicDistance? ray) := by
    intro h hnearest
    rw [algebraicDistance?_of_enteredAtOnce h hunit] at hnearest
    obtain ⟨_, far, _, hfar, _, _, hbeyond⟩ := h
    have hmem : far ∈ s.ahead ray := (mem_ahead hradius).2 ⟨hbeyond, hfar⟩
    rw [show s.ahead ray = ∅ from hnearest] at hmem
    cases hmem
  refine ⟨hquadratic, ⟨fun hnearest h => hmissed h hnearest, fun h => ?_⟩,
    ⟨fun heq h => ?_, algebraicDistance?_eq_quadraticDistance? hunit⟩⟩
  · rw [algebraicDistance?_eq_quadraticDistance? hunit h]
    exact hquadratic
  · exact hmissed h (heq ▸ hquadratic)

end

/-! ## A ball, and a sphere just ahead -/

/-- Both routines report where the ball is entered. -/
theorem routines_nearest_iff_ball :
    0 < (ball .algebraic).radius ∧ Surface.headOn.direction.lengthSquared = 1 ∧
      ¬(ball .algebraic).EnteredAtOnce Surface.headOn ∧
      (ball .algebraic).algebraicDistance? Surface.headOn = some (1 / 2) ∧
      IsLeast ((ball .algebraic).ahead Surface.headOn) (1 / 2) := by
  have hradius : 0 < (ball .algebraic).radius := by
    show (0 : ℝ) < (3 : ℕ) / (2 : ℕ)
    norm_num
  have hlate : ¬(ball .algebraic).EnteredAtOnce Surface.headOn := by
    rintro ⟨near, far, hnear, -, -, hwithin, -⟩
    have hepsilon := defaultEpsilon_lt_half
    rcases meets_ball.1 hnear with rfl | rfl
    · linarith
    · linarith
  have hquadratic : (ball .algebraic).quadraticDistance? Surface.headOn = some (1 / 2) :=
    Scene.distance?_ball
  obtain ⟨-, hnearest, hagree⟩ :=
    routines_nearest_iff (ball .algebraic) Surface.headOn hradius lengthSquared_headOn
  have halgebraic := (hagree.2 hlate).trans hquadratic
  have hleast := hnearest.2 hlate
  rw [halgebraic] at hleast
  exact ⟨hradius, lengthSquared_headOn, hlate, halgebraic, hleast⟩

/-- A sphere around the point one that almost reaches the origin. -/
noncomputable def nextToStart : Sphere ℝ :=
  ⟨⟨0⟩, ⟨1, 0, 0⟩, 1 - 1 / (2 : ℕ) ^ 21, .algebraic, .standard⟩

theorem radius_nextToStart : nextToStart.radius = 1 - 1 / 2 ^ 21 := by
  show (1 - 1 / ((2 : ℕ) : ℝ) ^ 21 : ℝ) = _
  rw [Nat.cast_ofNat]

theorem along_nextToStart : nextToStart.along Surface.headOn = 1 := by
  show ((1 - 0) * 1 + (0 - 0) * 0 + (0 - 0) * 0 : ℝ) = 1
  norm_num

theorem clearance_nextToStart :
    nextToStart.clearance Surface.headOn = 1 - nextToStart.radius * nextToStart.radius := by
  show ((1 - 0) * (1 - 0) + (0 - 0) * (0 - 0) + (0 - 0) * (0 - 0) -
    nextToStart.radius * nextToStart.radius : ℝ) = _
  norm_num

theorem halfChord_nextToStart : nextToStart.HalfChord Surface.headOn nextToStart.radius := by
  refine ⟨?_, ?_⟩
  · rw [radius_nextToStart]
    norm_num
  · rw [along_nextToStart, clearance_nextToStart]
    ring

theorem enteredAtOnce_nextToStart : nextToStart.EnteredAtOnce Surface.headOn := by
  rw [halfChord_nextToStart.enteredAtOnce_iff lengthSquared_headOn, along_nextToStart,
    clearance_nextToStart, radius_nextToStart, defaultEpsilon_eq]
  norm_num

/-- The sphere is entered at once, so the projection reports nothing.  The quadratic routine reports
where the ray leaves the sphere, which is the least distance ahead. -/
theorem algebraic_misses_nextToStart :
    0 < nextToStart.radius ∧ Surface.headOn.direction.lengthSquared = 1 ∧
      nextToStart.algebraicDistance? Surface.headOn = none ∧
      nextToStart.quadraticDistance? Surface.headOn = some (2 - 1 / 2 ^ 21) ∧
      IsLeast (nextToStart.ahead Surface.headOn) (2 - 1 / 2 ^ 21) := by
  have hradius : 0 < nextToStart.radius := by
    rw [radius_nextToStart]
    norm_num
  have hends : nextToStart.along Surface.headOn + nextToStart.radius = 2 - 1 / 2 ^ 21 := by
    rw [along_nextToStart, radius_nextToStart]
    norm_num
  obtain ⟨-, hwithin, hbeyond⟩ :=
    (halfChord_nextToStart.enteredAtOnce_iff lengthSquared_headOn).1 enteredAtOnce_nextToStart
  obtain ⟨half, hhalf, hquadratic⟩ :=
    exists_quadraticDistance? lengthSquared_headOn halfChord_nextToStart.clearance_le
  rw [hhalf.unique halfChord_nextToStart, find?_ends, if_neg (not_lt.2 hwithin), if_pos hbeyond,
    hends] at hquadratic
  have hleast := nearest_quadraticDistance? hradius lengthSquared_headOn
  rw [hquadratic] at hleast
  exact ⟨hradius, lengthSquared_headOn,
    algebraicDistance?_of_enteredAtOnce enteredAtOnce_nextToStart lengthSquared_headOn, hquadratic,
    hleast⟩

end Sphere

end ZeroSet
