import ZeroSet.Proofs.ClosestHit
import ZeroSet.Proofs.Attribution
import ZeroSet.Proofs.NearestSurface
import ZeroSet.Proofs.UnitVectors

/-!
# What the guards of scenes hide

A scene ignores what its members report up to its guard.  A member reports one hit only, the nearest
one beyond the guard that it has itself, so whatever else it holds is hidden together with a report
that the scene ignores.  Nothing beyond the guards is overlooked if what a member may report is not
met between the default distance, which spheres and planes keep themselves, and the guard around
the member; and a sphere that is entered in front of a guard does hide its far side.

* `Sphere.Meets`, `Plane.Meets` — where a ray meets a sphere or a plane.
* `Ray.lengthSquared_towards` — the rays that are built have directions of unit length.
* `Sphere.HalfChord.meets_iff` — a sphere is met at the two ends of a chord.
* `Leaf.meets_of_distance?`, `Leaf.exists_distance?` — such a leaf reports where it is met first.
* `Shape.Holds` — how a leaf is nested, with the guards around it.
* `Shape.ClearWay` — where no scene on the way to a leaf ignores what may be reported instead.
* `Scene.distance_le_met` — no leaf that is met beyond all guards is overlooked.
* `Scene.guard_hides_farSide` — the far side of a sphere that is entered in front of a guard is.
-/

namespace ZeroSet

/-! ## Where leaves are met -/

section

variable {K : Type} [RootScalar K] {ray : Ray K} {t d : K}

/-- The ray is on the sphere at a distance. -/
def Sphere.Meets (s : Sphere K) (ray : Ray K) (t : K) : Prop :=
  (ray.pointAt t - s.center).lengthSquared = s.radius * s.radius

/-- The ray is on the plane at a distance, and does not run along the plane. -/
def Plane.Meets (p : Plane K) (ray : Ray K) (t : K) : Prop :=
  Plane.parallelThreshold ≤ Scalar.abs (p.normal.dot ray.direction) ∧
    p.normal.dot (ray.pointAt t - p.point) = 0

/-- The ray meets a sphere or a plane at a distance. -/
def Leaf.Meets (leaf : Leaf K) (ray : Ray K) (t : K) : Prop :=
  match leaf with
  | .sphere s => s.Meets ray t
  | .plane p => p.Meets ray t
  | _ => False

/-- A sphere or a plane. -/
inductive Leaf.Basic : Leaf K → Prop where
  /-- A sphere. -/
  | sphere (s : Sphere K) : Basic (.sphere s)
  /-- A plane. -/
  | plane (p : Plane K) : Basic (.plane p)

/-- Where a leaf is met up to here, it is passed over: projecting the centre of a sphere onto the
ray settles which of the two points on it is meant before their distances are known. -/
def Leaf.passedOver (leaf : Leaf K) : K :=
  match leaf with
  | .sphere s => if s.method = .algebraic then 0 else defaultEpsilon
  | _ => defaultEpsilon

/-- A direction of any length but zero is normalised. -/
theorem Ray.lengthSquared_towards (origin : Vec3 K) {direction : Vec3 K}
    (h : 0 < direction.lengthSquared) :
    (Ray.towards origin direction).direction.lengthSquared = 1 :=
  Vec3.lengthSquared_normalize h

namespace Sphere

variable {s : Sphere K}

/-- How far the ray starts from where it is nearest to the centre. -/
def along (s : Sphere K) (ray : Ray K) : K := (s.center - ray.origin).dot ray.direction

/-- How far the start lies outside the sphere, in squares. -/
def clearance (s : Sphere K) (ray : Ray K) : K :=
  (s.center - ray.origin).lengthSquared - s.radius * s.radius

/-- Distances at which the sphere is met are the roots of a quadratic equation. -/
theorem meets_iff (hunit : ray.direction.lengthSquared = 1) :
    s.Meets ray t ↔ t * t - 2 * s.along ray * t + s.clearance ray = 0 := by
  have h : ray.direction.x * ray.direction.x + ray.direction.y * ray.direction.y +
      ray.direction.z * ray.direction.z = 1 := hunit
  have hsquare : (ray.pointAt t - s.center).lengthSquared =
      t * t - 2 * s.along ray * t + (s.center - ray.origin).lengthSquared := by
    show (ray.origin.x + ray.direction.x * t - s.center.x) *
          (ray.origin.x + ray.direction.x * t - s.center.x) +
        (ray.origin.y + ray.direction.y * t - s.center.y) *
          (ray.origin.y + ray.direction.y * t - s.center.y) +
        (ray.origin.z + ray.direction.z * t - s.center.z) *
          (ray.origin.z + ray.direction.z * t - s.center.z) =
      t * t - 2 * ((s.center.x - ray.origin.x) * ray.direction.x +
          (s.center.y - ray.origin.y) * ray.direction.y +
          (s.center.z - ray.origin.z) * ray.direction.z) * t +
        ((s.center.x - ray.origin.x) * (s.center.x - ray.origin.x) +
          (s.center.y - ray.origin.y) * (s.center.y - ray.origin.y) +
          (s.center.z - ray.origin.z) * (s.center.z - ray.origin.z))
    linear_combination t * t * h
  rw [Meets, hsquare, clearance]
  constructor
  · intro h
    linear_combination h
  · intro h
    linear_combination h

/-- Half of the part of a ray, taken both ways, that is inside the sphere. -/
structure HalfChord (s : Sphere K) (ray : Ray K) (half : K) : Prop where
  /-- It is a length. -/
  nonneg : 0 ≤ half
  /-- The chord, the radius and the way to the centre make a right triangle. -/
  square : half * half = s.along ray * s.along ray - s.clearance ray

/-- A sphere is met at most twice: half a chord before the ray is nearest to the centre and half a
chord behind it. -/
theorem HalfChord.meets_iff {half : K} (hhalf : s.HalfChord ray half)
    (hunit : ray.direction.lengthSquared = 1) :
    s.Meets ray t ↔ t = s.along ray - half ∨ t = s.along ray + half := by
  have hfactor : t * t - 2 * s.along ray * t + s.clearance ray =
      (t - (s.along ray - half)) * (t - (s.along ray + half)) := by
    linear_combination hhalf.square
  rw [Sphere.meets_iff hunit, hfactor, mul_eq_zero, sub_eq_zero, sub_eq_zero]

theorem HalfChord.clearance_le {half : K} (h : s.HalfChord ray half) :
    s.clearance ray ≤ s.along ray * s.along ray := by
  have hsquare := h.square
  linarith [mul_self_nonneg half]

theorem HalfChord.unique {half half' : K} (h : s.HalfChord ray half) (h' : s.HalfChord ray half') :
    half = half' :=
  (mul_self_inj h.nonneg h'.nonneg).1 (h.square.trans h'.square.symm)

/-- From outside both ends of the chord are on the same side of the start. -/
theorem HalfChord.lt_abs {half : K} (h : s.HalfChord ray half) (houtside : 0 < s.clearance ray) :
    half < |s.along ray| := by
  have hsquare := h.square
  rw [← abs_of_nonneg h.nonneg, ← sq_lt_sq]
  linarith [sq half, sq (s.along ray)]

/-- From inside, and from the surface, the start is between the ends of the chord. -/
theorem HalfChord.abs_le {half : K} (h : s.HalfChord ray half) (hinside : s.clearance ray ≤ 0) :
    |s.along ray| ≤ half := by
  have hsquare := h.square
  refine abs_le_of_sq_le_sq ?_ h.nonneg
  linarith [sq half, sq (s.along ray)]

/-- A ray that meets a sphere has a chord. -/
theorem Meets.clearance_le (hunit : ray.direction.lengthSquared = 1) (h : s.Meets ray t) :
    s.clearance ray ≤ s.along ray * s.along ray := by
  have hroot := (meets_iff hunit).1 h
  have hsquare := mul_self_nonneg (t - s.along ray)
  linarith

theorem halfChord_sqrt (h : s.clearance ray ≤ s.along ray * s.along ray) :
    s.HalfChord ray (Scalar.sqrt (s.along ray * s.along ray - s.clearance ray)) :=
  ⟨RootScalar.sqrt_nonneg _ (sub_nonneg.2 h), RootScalar.sqrt_mul_sqrt _ (sub_nonneg.2 h)⟩

/-! ### By the quadratic equation -/

theorem quadraticDistance?_eq (hunit : ray.direction.lengthSquared = 1) :
    s.quadraticDistance? ray =
      let discriminant := 4 * (s.along ray * s.along ray - s.clearance ray)
      let half := Scalar.sqrt discriminant / 2
      if discriminant < 0 then none
      else [s.along ray - half, s.along ray + half].find? fun t => defaultEpsilon < t := by
  have htwo : (2.0 : K) = 2 := ExactScalar.decimal_two
  have hfour : (4.0 : K) = 4 := by
    show (Scalar.decimal 40 true 1 : K) = 4
    rw [ExactScalar.decimal_eq, if_pos rfl]
    norm_num
  have halong : ray.direction.dot (ray.origin - s.center) = -s.along ray := by
    show ray.direction.x * (ray.origin.x - s.center.x) +
        ray.direction.y * (ray.origin.y - s.center.y) +
        ray.direction.z * (ray.origin.z - s.center.z) =
      -((s.center.x - ray.origin.x) * ray.direction.x +
        (s.center.y - ray.origin.y) * ray.direction.y +
        (s.center.z - ray.origin.z) * ray.direction.z)
    ring
  have hclearance : (ray.origin - s.center).lengthSquared - s.radius * s.radius =
      s.clearance ray := by
    rw [clearance]
    congr 1
    show (ray.origin.x - s.center.x) * (ray.origin.x - s.center.x) +
        (ray.origin.y - s.center.y) * (ray.origin.y - s.center.y) +
        (ray.origin.z - s.center.z) * (ray.origin.z - s.center.z) =
      (s.center.x - ray.origin.x) * (s.center.x - ray.origin.x) +
        (s.center.y - ray.origin.y) * (s.center.y - ray.origin.y) +
        (s.center.z - ray.origin.z) * (s.center.z - ray.origin.z)
    ring
  have hdiscriminant : 2 * -s.along ray * (2 * -s.along ray) - 4 * 1 * s.clearance ray =
      4 * (s.along ray * s.along ray - s.clearance ray) := by
    ring
  have hcenter : -(2 * -s.along ray) = 2 * s.along ray := by
    ring
  rw [quadraticDistance?]
  dsimp only
  rw [hunit, halong, hclearance, htwo, hfour, hdiscriminant, hcenter, mul_one, sub_div, add_div,
    mul_div_cancel_left₀ _ two_ne_zero]

theorem exists_quadraticDistance? (hunit : ray.direction.lengthSquared = 1)
    (h : s.clearance ray ≤ s.along ray * s.along ray) :
    ∃ half, s.HalfChord ray half ∧ s.quadraticDistance? ray =
      [s.along ray - half, s.along ray + half].find? fun t => defaultEpsilon < t := by
  have hnonneg : 0 ≤ 4 * (s.along ray * s.along ray - s.clearance ray) := by
    linarith
  rw [quadraticDistance?_eq hunit]
  dsimp only
  rw [if_neg (not_lt.2 hnonneg)]
  refine ⟨_, ⟨?_, ?_⟩, rfl⟩
  · exact div_nonneg (RootScalar.sqrt_nonneg _ hnonneg) zero_le_two
  · have hroot : ∀ root : K, root * root = 4 * (s.along ray * s.along ray - s.clearance ray) →
        root / 2 * (root / 2) = s.along ray * s.along ray - s.clearance ray := by
      intro root hroot
      linear_combination hroot / 4
    exact hroot _ (RootScalar.sqrt_mul_sqrt _ hnonneg)

theorem quadraticDistance?_eq_none (hunit : ray.direction.lengthSquared = 1)
    (h : s.along ray * s.along ray < s.clearance ray) : s.quadraticDistance? ray = none := by
  have hnegative : 4 * (s.along ray * s.along ray - s.clearance ray) < 0 := by linarith
  rw [quadraticDistance?_eq hunit]
  exact if_pos hnegative

/-! ### By projecting the centre -/

theorem algebraicDistance?_eq :
    s.algebraicDistance? ray =
      let half := Scalar.sqrt (s.along ray * s.along ray - s.clearance ray)
      if s.along ray < 0 ∧ 0 < s.clearance ray then none
      else if s.along ray * s.along ray < s.clearance ray then none
      else
        let t := if 0 < s.clearance ray then s.along ray - half else s.along ray + half
        if defaultEpsilon < t then some t else none := by
  have houtside : s.radius * s.radius < (s.center - ray.origin).lengthSquared ↔
      0 < s.clearance ray := by
    rw [clearance, sub_pos]
  have hbeside : s.radius * s.radius <
      (s.center - ray.origin).lengthSquared - s.along ray * s.along ray ↔
        s.along ray * s.along ray < s.clearance ray := by
    rw [clearance]
    constructor <;> intro h <;> linarith
  have hroot : s.radius * s.radius -
      ((s.center - ray.origin).lengthSquared - s.along ray * s.along ray) =
        s.along ray * s.along ray - s.clearance ray := by
    rw [clearance]
    ring
  have halong : (s.center - ray.origin).dot ray.direction = s.along ray := rfl
  rw [algebraicDistance?]
  simp only [halong, hroot, Bool.and_eq_true, decide_eq_true_eq, houtside, hbeside]

theorem exists_algebraicDistance? (h : s.clearance ray ≤ s.along ray * s.along ray) :
    ∃ half, s.HalfChord ray half ∧ s.algebraicDistance? ray =
      if s.along ray < 0 ∧ 0 < s.clearance ray then none
      else
        let t := if 0 < s.clearance ray then s.along ray - half else s.along ray + half
        if defaultEpsilon < t then some t else none := by
  refine ⟨_, halfChord_sqrt h, ?_⟩
  rw [algebraicDistance?_eq]
  dsimp only
  rw [if_neg (not_lt.2 h)]

theorem algebraicDistance?_eq_none (h : s.along ray * s.along ray < s.clearance ray) :
    s.algebraicDistance? ray = none := by
  rw [algebraicDistance?_eq]
  dsimp only
  rw [if_pos h, ite_self]

/-- From outside the projection reports the nearer end of the chord or nothing. -/
theorem HalfChord.algebraicDistance?_outside {half : K} (hhalf : s.HalfChord ray half)
    (houtside : 0 < s.clearance ray) :
    s.algebraicDistance? ray =
      if defaultEpsilon < s.along ray - half then some (s.along ray - half) else none := by
  obtain ⟨half', hhalf', hdistance⟩ := exists_algebraicDistance? hhalf.clearance_le
  rw [hdistance, hhalf'.unique hhalf]
  by_cases hbehind : s.along ray < 0
  · have hshort : ¬defaultEpsilon < s.along ray - half := by
      have := hhalf.nonneg
      have := defaultEpsilon_pos (K := K)
      linarith
    rw [if_pos ⟨hbehind, houtside⟩, if_neg hshort]
  · rw [if_neg fun h => hbehind h.1]
    dsimp only
    rw [if_pos houtside]

/-- From inside, and from the surface, it reports the farther end of the chord or nothing. -/
theorem HalfChord.algebraicDistance?_inside {half : K} (hhalf : s.HalfChord ray half)
    (hinside : s.clearance ray ≤ 0) :
    s.algebraicDistance? ray =
      if defaultEpsilon < s.along ray + half then some (s.along ray + half) else none := by
  obtain ⟨half', hhalf', hdistance⟩ := exists_algebraicDistance? hhalf.clearance_le
  rw [hdistance, hhalf'.unique hhalf, if_neg fun h => not_lt.2 hinside h.2]
  dsimp only
  rw [if_neg (not_lt.2 hinside)]

/-! ### Where a sphere is reported -/

/-- A sphere is met where it is reported. -/
theorem meets_of_distance? (hunit : ray.direction.lengthSquared = 1)
    (h : s.distance? ray = some t) : s.Meets ray t := by
  rw [distance?] at h
  by_cases hchord : s.clearance ray ≤ s.along ray * s.along ray
  · split at h
    · obtain ⟨half, hhalf, hdistance⟩ := exists_quadraticDistance? hunit hchord
      rw [hdistance] at h
      rw [hhalf.meets_iff hunit]
      simpa using List.mem_of_find?_eq_some h
    · have hhalf := halfChord_sqrt hchord
      rw [hhalf.meets_iff hunit]
      by_cases houtside : 0 < s.clearance ray
      · rw [hhalf.algebraicDistance?_outside houtside] at h
        obtain ⟨-, h⟩ := Option.ite_none_right_eq_some.1 h
        exact .inl (Option.some.inj h).symm
      · rw [hhalf.algebraicDistance?_inside (not_lt.1 houtside)] at h
        obtain ⟨-, h⟩ := Option.ite_none_right_eq_some.1 h
        exact .inr (Option.some.inj h).symm
  · rw [quadraticDistance?_eq_none hunit (not_le.1 hchord),
      algebraicDistance?_eq_none (not_le.1 hchord)] at h
    split at h
    · cases h
    · cases h

/-- A sphere that is met beyond the default distance is reported, there or in front of it. -/
theorem exists_distance? (hunit : ray.direction.lengthSquared = 1) (hmeets : s.Meets ray d)
    (hd : defaultEpsilon < d)
    (hnear : ∀ t, s.Meets ray t → (Leaf.sphere s).passedOver < t → defaultEpsilon < t) :
    ∃ t, s.distance? ray = some t ∧ t ≤ d := by
  have hchord := hmeets.clearance_le hunit
  have hpositive : (0 : K) < d := defaultEpsilon_pos.trans hd
  cases hmethod : s.method with
  | quadratic =>
    obtain ⟨half, hhalf, hdistance⟩ := exists_quadraticDistance? hunit hchord
    rw [distance?, hmethod]
    dsimp only
    rw [hdistance]
    by_cases hseen : defaultEpsilon < s.along ray - half
    · refine ⟨s.along ray - half, by simp [hseen], ?_⟩
      have := hhalf.nonneg
      rcases (hhalf.meets_iff hunit).1 hmeets with rfl | rfl
      · exact le_refl _
      · linarith
    · -- the nearer point is too near, so the other one is meant
      have hfar := ((hhalf.meets_iff hunit).1 hmeets).resolve_left fun h => hseen (h ▸ hd)
      subst hfar
      exact ⟨_, by simp [hseen, hd], le_refl _⟩
  | algebraic =>
    have hhalf := halfChord_sqrt hchord
    generalize Scalar.sqrt (s.along ray * s.along ray - s.clearance ray) = half at hhalf
    have hnonneg := hhalf.nonneg
    have hends := (hhalf.meets_iff hunit).1 hmeets
    rw [Leaf.passedOver, if_pos hmethod] at hnear
    rw [distance?, hmethod]
    dsimp only
    by_cases houtside : 0 < s.clearance ray
    · have hshorter := hhalf.lt_abs houtside
      have hahead : 0 ≤ s.along ray := by
        by_contra hbehind
        rw [abs_of_neg (not_le.1 hbehind)] at hshorter
        rcases hends with rfl | rfl <;> linarith
      rw [abs_of_nonneg hahead] at hshorter
      have hseen := hnear _ ((hhalf.meets_iff hunit).2 (.inl rfl)) (by linarith)
      rw [hhalf.algebraicDistance?_outside houtside, if_pos hseen]
      refine ⟨_, rfl, ?_⟩
      rcases hends with rfl | rfl <;> linarith
    · have hlonger := hhalf.abs_le (not_lt.1 houtside)
      have hfar : d = s.along ray + half := by
        refine hends.resolve_left fun h => ?_
        have := le_abs_self (s.along ray)
        linarith
      subst hfar
      rw [hhalf.algebraicDistance?_inside (not_lt.1 houtside), if_pos hd]
      exact ⟨_, rfl, le_refl _⟩

end Sphere

/-! ## Where leaves are reported -/

theorem Plane.parallelThreshold_pos : (0 : K) < parallelThreshold := by
  have h : (parallelThreshold : K) = Scalar.decimal 2220446049250313 true 31 := rfl
  rw [h, ExactScalar.decimal_eq, if_pos rfl]
  positivity

namespace Plane

variable {p : Plane K}

/-- A plane that the ray does not run along is met once. -/
theorem meets_iff (h : parallelThreshold ≤ Scalar.abs (p.normal.dot ray.direction)) :
    p.Meets ray t ↔ t = p.normal.dot (p.point - ray.origin) / p.normal.dot ray.direction := by
  have hacross : p.normal.dot ray.direction ≠ 0 := by
    intro hzero
    have habs : Scalar.abs (0 : K) = 0 := if_neg (lt_irrefl _)
    rw [hzero, habs] at h
    exact absurd parallelThreshold_pos (not_lt.2 h)
  have hdot : p.normal.dot (ray.pointAt t - p.point) =
      t * p.normal.dot ray.direction - p.normal.dot (p.point - ray.origin) := by
    show p.normal.x * (ray.origin.x + ray.direction.x * t - p.point.x) +
        p.normal.y * (ray.origin.y + ray.direction.y * t - p.point.y) +
        p.normal.z * (ray.origin.z + ray.direction.z * t - p.point.z) =
      t * (p.normal.x * ray.direction.x + p.normal.y * ray.direction.y +
          p.normal.z * ray.direction.z) -
        (p.normal.x * (p.point.x - ray.origin.x) + p.normal.y * (p.point.y - ray.origin.y) +
          p.normal.z * (p.point.z - ray.origin.z))
    ring
  rw [Meets, hdot, sub_eq_zero, eq_div_iff hacross]
  exact and_iff_right h

theorem meets_of_distance? (h : p.distance? ray = some t) : p.Meets ray t := by
  rw [distance?] at h
  obtain ⟨hacross, h⟩ := Option.ite_none_left_eq_some.1 h
  obtain ⟨-, h⟩ := Option.ite_none_right_eq_some.1 h
  cases h
  exact (meets_iff (not_lt.1 hacross)).2 rfl

theorem distance?_eq_some (hmeets : p.Meets ray d) (hd : defaultEpsilon < d) :
    p.distance? ray = some d := by
  have hmet := (meets_iff hmeets.1).1 hmeets
  rw [distance?]
  dsimp only
  rw [if_neg (not_lt.2 hmeets.1), ← hmet, if_pos hd]

end Plane

namespace Leaf

variable {l : Leaf K}

/-- A sphere or a plane is met where it is reported. -/
theorem meets_of_distance? {best : K} (hbasic : l.Basic) (hunit : ray.direction.lengthSquared = 1)
    (h : l.distance? ray best = .ok (some t)) : l.Meets ray t ∧ defaultEpsilon < t := by
  cases hbasic with
  | sphere s =>
    exact ⟨s.meets_of_distance? hunit (Except.ok.inj h), defaultEpsilon_lt (by simp) h⟩
  | plane p => exact ⟨p.meets_of_distance? (Except.ok.inj h), defaultEpsilon_lt (by simp) h⟩

/-- A sphere or a plane that is met beyond the default distance is reported, there or in front of
it. -/
theorem exists_distance? (best : K) (hunit : ray.direction.lengthSquared = 1)
    (hmeets : l.Meets ray d) (hd : defaultEpsilon < d)
    (hnear : ∀ t, l.Meets ray t → l.passedOver < t → defaultEpsilon < t) :
    ∃ t, l.distance? ray best = .ok (some t) ∧ t ≤ d := by
  cases l with
  | sphere s =>
    obtain ⟨t, ht, hle⟩ := Sphere.exists_distance? hunit hmeets hd hnear
    exact ⟨t, congrArg Except.ok ht, hle⟩
  | plane p => exact ⟨d, congrArg Except.ok (Plane.distance?_eq_some hmeets hd), le_refl _⟩
  | rod _ => exact hmeets.elim
  | surface _ => exact hmeets.elim

end Leaf

/-! ## Scenes -/

namespace Shape

/-- A leaf is in a shape, inside of these scenes: each with its guard and the member of it that
leads to the leaf, from the outermost scene on. -/
inductive Holds : Shape K → Leaf K → List (K × Shape K) → Prop where
  /-- The leaf itself. -/
  | leaf (l : Leaf K) : Holds (.leaf l) l []
  /-- A leaf in a member of a scene. -/
  | member {id : ShapeId} {guard : K} {members : List (Shape K)} {m : Shape K} {l : Leaf K}
    {way : List (K × Shape K)} : m ∈ members → Holds m l way →
      Holds (.scene id guard members) l ((guard, m) :: way)

omit [RootScalar K] in
theorem holds_leaf {l l' : Leaf K} {way : List (K × Shape K)} :
    (leaf l).Holds l' way ↔ l' = l ∧ way = [] := by
  constructor
  · rintro ⟨⟩
    exact ⟨rfl, rfl⟩
  · rintro ⟨rfl, rfl⟩
    exact .leaf l'

omit [RootScalar K] in
theorem holds_scene {id : ShapeId} {guard : K} {members : List (Shape K)} {l : Leaf K}
    {way : List (K × Shape K)} :
    (scene id guard members).Holds l way ↔
      ∃ m ∈ members, ∃ inner, m.Holds l inner ∧ way = (guard, m) :: inner := by
  constructor
  · rintro (_ | ⟨hm, hl⟩)
    exact ⟨_, hm, _, hl, rfl⟩
  · rintro ⟨m, hm, inner, hl, rfl⟩
    exact .member hm hl

omit [RootScalar K] in
theorem Holds.mem_leaves {s : Shape K} {l : Leaf K} {way : List (K × Shape K)}
    (h : s.Holds l way) : l ∈ s.leaves := by
  induction h with
  | leaf l =>
    rw [leaves]
    exact List.mem_singleton_self l
  | @member id guard members m l way hm _ ih =>
    rw [leaves]
    exact mem_leavesOfAll.2 ⟨m, hm, ih⟩

/-- A scan over shapes that are intersected without fail does not fail. -/
theorem exists_scan {members : List (Shape K)}
    (h : ∀ m ∈ members, ∀ best, ∃ hit, m.intersect ray best = .ok hit) (guard : K)
    (closest : Hit K) : ∃ hit, scan guard ray members closest = .ok hit := by
  induction members generalizing closest with
  | nil => exact ⟨closest, scan_nil_eq_ok.2 rfl⟩
  | cons m ms ih =>
    obtain ⟨hm, hms⟩ := List.forall_mem_cons.1 h
    obtain ⟨candidate, hcandidate⟩ := hm closest.distance
    obtain ⟨hit, hhit⟩ := ih hms (closest.closer guard candidate)
    exact ⟨hit, scan_cons_eq_ok.2 ⟨candidate, hcandidate, hhit⟩⟩

/-- Shapes without implicit surfaces are intersected without fail. -/
theorem exists_intersect {s : Shape K} (hclosed : ∀ t, .surface t ∉ s.leaves) (ray : Ray K)
    (best : K) : ∃ hit, s.intersect ray best = .ok hit := by
  have hleaf : ∀ l ∈ s.leaves, ∃ hit, ∀ bound, l.intersect ray bound = .ok hit := by
    intro l hl
    refine Leaf.exists_report (fun t ht => ?_) ray
    subst ht
    exact hclosed t hl
  clear hclosed
  induction s using memberInduction generalizing best with
  | leaf l =>
    rw [leaves] at hleaf
    obtain ⟨hit, hhit⟩ := hleaf l (List.mem_singleton_self l)
    rw [intersect]
    exact ⟨hit, hhit best⟩
  | scene id guard members ih =>
    rw [intersect]
    refine exists_scan (fun m hm best => ih m hm best fun l hl => hleaf l ?_) guard _
    rw [leaves]
    exact mem_leavesOfAll.2 ⟨m, hm, hl⟩
  | axes id frame rods =>
    rw [intersect, ← scan_map_leaf]
    refine exists_scan (fun m hm best => ?_) _ _
    obtain ⟨l, hl, rfl⟩ := List.mem_map.1 hm
    rw [leaves] at hleaf
    obtain ⟨hit, hhit⟩ := hleaf l hl
    rw [intersect]
    exact ⟨hit, hhit best⟩

/-- What a shape of spheres and planes reports is on a leaf of it, beyond the guards of all scenes
that the leaf is in. -/
theorem exists_holds_of_intersect {s : Shape K} (hbasic : ∀ l ∈ s.leaves, l.Basic) {best : K}
    {hit : Hit K} (h : s.intersect ray best = .ok hit) :
    hit.owner = none ∨ ∃ leaf way, s.Holds leaf way ∧ hit.IsOn ray leaf ∧
      ∀ step ∈ way, step.1 < hit.distance := by
  induction s using memberInduction generalizing best hit with
  | leaf l =>
    rw [intersect] at h
    rcases Leaf.isOn_of_intersect h with hnone | hon
    · exact .inl hnone
    · exact .inr ⟨l, [], .leaf l, hon, by simp⟩
  | scene id guard members ih =>
    rw [intersect] at h
    refine scan_induction (P := fun hit => hit.owner = none ∨ ∃ leaf way,
      (scene id guard members).Holds leaf way ∧ hit.IsOn ray leaf ∧
        ∀ step ∈ way, step.1 < hit.distance)
      (.inl rfl) (fun m hm _ candidate _ hcandidate hguard _ => ?_) h
    have hleaves : ∀ l ∈ m.leaves, l.Basic := by
      intro l hl
      refine hbasic l ?_
      rw [leaves]
      exact mem_leavesOfAll.2 ⟨m, hm, hl⟩
    rcases ih m hm hleaves hcandidate with hnone | ⟨leaf, way, hholds, hon, hguards⟩
    · exact .inl hnone
    · exact .inr ⟨leaf, (guard, m) :: way, .member hm hholds, hon,
        List.forall_mem_cons.2 ⟨hguard, hguards⟩⟩
  | axes id frame rods =>
    rcases isOn_of_intersect h with hnone | ⟨leaf, hleaf, -⟩
    · exact .inl hnone
    · -- rods are neither spheres nor planes
      have hrod := hbasic leaf hleaf
      rw [leaves] at hleaf
      obtain ⟨r, -, rfl⟩ := List.mem_map.1 hleaf
      cases hrod

/-- Nothing that a member on the way may report, beyond the default distance and all guards inside
the member, is met up to the guard around the member, as long as it is in front of a distance. -/
def ClearWay (ray : Ray K) (d : K) (way : List (K × Shape K)) : Prop :=
  ∀ step ∈ way, ∀ l inner, step.2.Holds l inner → ∀ t, l.Meets ray t → defaultEpsilon < t →
    (∀ step' ∈ inner, step'.1 < t) → t < d → step.1 < t

/-- What a shape reports in front of a leaf that is met beyond all guards. -/
theorem Holds.report {s : Shape K} {leaf : Leaf K} {way : List (K × Shape K)}
    (h : s.Holds leaf way) (hs : s.Built) (hbasic : ∀ l ∈ s.leaves, l.Basic)
    (hunit : ray.direction.lengthSquared = 1) (hmeets : leaf.Meets ray d)
    (hd : defaultEpsilon < d) (hguards : ∀ step ∈ way, step.1 < d)
    (hnear : ∀ t, leaf.Meets ray t → leaf.passedOver < t → defaultEpsilon < t)
    (hclear : ClearWay ray d way) {far : K} {hit : Hit K} (hfar : d ≤ far)
    (hhit : s.intersect ray far = .ok hit) : 0 < hit.distance ∧ hit.distance ≤ d := by
  have hpositive : (0 : K) < d := defaultEpsilon_pos.trans hd
  induction h generalizing far hit with
  | leaf l =>
    obtain ⟨t, ht, hle⟩ := Leaf.exists_distance? far hunit hmeets hd hnear
    rw [intersect] at hhit
    rcases Leaf.intersect_eq_ok.1 hhit with ⟨t', ht', rfl⟩ | ⟨hnone, -⟩
    · rw [ht] at ht'
      cases ht'
      have hleaf := hbasic l (by rw [leaves]; exact List.mem_singleton_self l)
      exact ⟨defaultEpsilon_pos.trans (Leaf.meets_of_distance? hleaf hunit ht).2, hle⟩
    · rw [ht] at hnone
      cases hnone
  | @member id guard members m l way hm _ ih =>
    obtain ⟨hguard, hguards⟩ := List.forall_mem_cons.1 hguards
    obtain ⟨hclear, hclears⟩ := List.forall_mem_cons.1 hclear
    rw [intersect] at hhit
    cases hs with
    | scene hguardPos hmembers =>
      have hleaves : ∀ l ∈ m.leaves, l.Basic := by
        intro l hl
        refine hbasic l ?_
        rw [leaves]
        exact mem_leavesOfAll.2 ⟨m, hm, hl⟩
      constructor
      · refine scan_induction (P := fun hit => 0 < hit.distance) (hpositive.trans_le hfar) ?_ hhit
        intro m hm closest candidate _ _ hlt _
        exact hguardPos.trans hlt
      · refine scan_le_of_mem hm (fun far candidate hfar hcandidate => ?_) hhit
        obtain ⟨hpos, hle⟩ :=
          ih (hmembers m hm) hleaves hmeets hguards hnear hclears hfar hcandidate
        refine ⟨?_, hle⟩
        rcases exists_holds_of_intersect hleaves hcandidate with
          hnone | ⟨owner, inner, hinner, hon, hbeyond⟩
        · -- without a leaf it is the bound that is reported
          have hbound : ¬candidate.distance < _ := fun hlt =>
            (hmembers m hm).guarded.honest_intersect hcandidate hnone ⟨hpos, hlt⟩
          exact hguard.trans_le (hfar.trans (not_lt.1 hbound))
        · obtain ⟨bound, hdistance⟩ := hon.met
          have howner := hleaves owner hinner.mem_leaves
          obtain ⟨hmet, hlarge⟩ := Leaf.meets_of_distance? howner hunit hdistance
          rcases hle.lt_or_eq with hlt | heq
          · exact hclear owner inner hinner _ hmet hlarge hbeyond hlt
          · rw [heq]
            exact hguard

end Shape

/-- A sphere or a plane that is met nearer than the bound and beyond the default distance and the
guards of all scenes that it is in is not overlooked, if no scene ignores what the member with the
leaf may report instead: the scene reports the leaf, or something that is nearer. -/
theorem Scene.distance_le_met {s : Scene K} (hs : s.toShape.Built)
    (hbasic : ∀ l ∈ s.toShape.leaves, l.Basic) (hunit : ray.direction.lengthSquared = 1)
    {leaf : Leaf K} {way : List (K × Shape K)} (hleaf : s.toShape.Holds leaf way)
    (hmeets : leaf.Meets ray d) (hd : defaultEpsilon < d) (hguards : ∀ step ∈ way, step.1 < d)
    (hnear : ∀ t, leaf.Meets ray t → leaf.passedOver < t → defaultEpsilon < t)
    (hclear : Shape.ClearWay ray d way) {best : K} (hbest : d < best) :
    ∃ hit, s.toShape.intersect ray best = .ok hit ∧ hit.isHit = true ∧ hit.distance ≤ d := by
  have hclosed : ∀ t, .surface t ∉ s.toShape.leaves := fun t ht => by cases hbasic _ ht
  obtain ⟨hit, hhit⟩ := Shape.exists_intersect hclosed ray best
  obtain ⟨hpos, hle⟩ :=
    hleaf.report hs hbasic hunit hmeets hd hguards hnear hclear hbest.le hhit
  refine ⟨hit, hhit, Hit.isHit_iff.2 ⟨?_, hpos.le⟩, hle⟩
  intro hnone
  exact hs.guarded.honest_intersect hhit hnone ⟨hpos, hle.trans_lt hbest⟩

end

/-! ### A ball in front of a plane -/

/-- A ball around the point two, which reaches from a half to seven halves. -/
noncomputable def ball (method : SphereMethod) : Sphere ℝ :=
  ⟨⟨0⟩, ⟨(2 : ℕ), 0, 0⟩, (3 : ℕ) / (2 : ℕ), method, .standard⟩

theorem lengthSquared_headOn : Surface.headOn.direction.lengthSquared = 1 := by
  show (1 * 1 + 0 * 0 + 0 * 0 : ℝ) = 1
  norm_num

theorem along_ball (method : SphereMethod) : (ball method).along Surface.headOn = 2 := by
  show ((((2 : ℕ) : ℝ) - 0) * 1 + (0 - 0) * 0 + (0 - 0) * 0 : ℝ) = 2
  norm_num

theorem clearance_ball (method : SphereMethod) :
    (ball method).clearance Surface.headOn = 7 / 4 := by
  show ((((2 : ℕ) : ℝ) - 0) * (((2 : ℕ) : ℝ) - 0) + (0 - 0) * (0 - 0) + (0 - 0) * (0 - 0) -
    ((3 : ℕ) : ℝ) / ((2 : ℕ) : ℝ) * (((3 : ℕ) : ℝ) / ((2 : ℕ) : ℝ)) : ℝ) = 7 / 4
  norm_num

theorem meets_ball {method : SphereMethod} {t : ℝ} :
    (ball method).Meets Surface.headOn t ↔ t = 1 / 2 ∨ t = 7 / 2 := by
  have hhalf : (ball method).HalfChord Surface.headOn (3 / 2) := by
    refine ⟨by norm_num, ?_⟩
    rw [along_ball, clearance_ball]
    norm_num
  rw [hhalf.meets_iff lengthSquared_headOn, along_ball]
  norm_num

theorem defaultEpsilon_lt_half : (defaultEpsilon : ℝ) < 1 / 2 := by
  rw [defaultEpsilon_eq]
  norm_num

/-- A plane in front of the ball. -/
noncomputable def veil : Plane ℝ := ⟨⟨4⟩, ⟨1 / (8 : ℕ), 0, 0⟩, ⟨1, 0, 0⟩, .standard⟩

theorem eq_of_meets_veil {t : ℝ} (h : veil.Meets Surface.headOn t) : t = 1 / 8 := by
  have hon : (1 * (0 + 1 * t - 1 / ((8 : ℕ) : ℝ)) + 0 * (0 + 0 * t - 0) + 0 * (0 + 0 * t - 0) : ℝ) =
      0 := h.2
  norm_num at hon
  linarith

namespace Scene

/-- The ball behind the plane, in a scene whose guard hides the plane. -/
noncomputable def drawer : Shape ℝ :=
  .scene ⟨2⟩ (1 / (4 : ℕ)) [.leaf (.plane veil), .leaf (.sphere (ball .algebraic))]

/-- The drawer next to a plane, in a scene with a larger guard. -/
noncomputable def cabinet : Scene ℝ :=
  ⟨⟨3⟩, 1 / (3 : ℕ), [.leaf (.plane Shape.backdrop), drawer]⟩

theorem built_cabinet : cabinet.toShape.Built := by
  have hleaf : ∀ l : Leaf ℝ, l.Basic → (Shape.leaf l).Built := by
    intro l hl
    refine .leaf fun s h => ?_
    subst h
    cases hl
  have hdrawer : drawer.Built := by
    refine .scene (by norm_num) fun m hm => ?_
    rcases List.mem_pair.1 hm with rfl | rfl
    · exact hleaf _ (.plane _)
    · exact hleaf _ (.sphere _)
  have hguard : (0 : ℝ) < 1 / (3 : ℕ) := by norm_num
  refine .scene hguard fun m hm => ?_
  rcases List.mem_pair.1 hm with rfl | rfl
  · exact hleaf _ (.plane _)
  · exact hdrawer

/-- The near side of the ball in the drawer is seen, or something nearer. -/
theorem distance_le_met_cabinet :
    cabinet.guard < 1 / 2 ∧ (Leaf.sphere (ball .algebraic)).Meets Surface.headOn (1 / 2) ∧
      ∃ hit, cabinet.toShape.intersect Surface.headOn 30 = .ok hit ∧ hit.isHit = true ∧
        hit.distance ≤ 1 / 2 := by
  have hepsilon := defaultEpsilon_lt_half
  have houter : cabinet.guard < 1 / 2 := by
    show (1 / (3 : ℕ) : ℝ) < 1 / 2
    norm_num
  have hinner : (1 / (4 : ℕ) : ℝ) < 1 / 2 := by norm_num
  have hmet : (Leaf.sphere (ball .algebraic)).Meets Surface.headOn (1 / 2) :=
    meets_ball.2 (.inl rfl)
  have hbasic : ∀ l ∈ cabinet.toShape.leaves, l.Basic := by
    simp only [cabinet, drawer, toShape, Shape.leaves, Shape.leavesOfAll, List.append_nil,
      List.cons_append, List.nil_append, List.forall_mem_cons]
    exact ⟨.plane _, .plane _, .sphere _, by simp⟩
  have hholds : cabinet.toShape.Holds (.sphere (ball .algebraic))
      [(cabinet.guard, drawer), (1 / (4 : ℕ), .leaf (.sphere (ball .algebraic)))] :=
    .member (List.mem_cons_of_mem _ (List.mem_singleton_self _))
      (.member (List.mem_cons_of_mem _ (List.mem_singleton_self _)) (.leaf _))
  have hball : ∀ guard t : ℝ, (ball .algebraic).Meets Surface.headOn t → t < 1 / 2 → guard < t := by
    intro guard t hmeets hlt
    rcases meets_ball.1 hmeets with rfl | rfl
    · exact absurd hlt (lt_irrefl _)
    · norm_num at hlt
  have hclear : Shape.ClearWay Surface.headOn (1 / 2 : ℝ)
      [(cabinet.guard, drawer), (1 / (4 : ℕ), .leaf (.sphere (ball .algebraic)))] := by
    simp only [Shape.ClearWay, List.forall_mem_cons]
    refine ⟨fun l inner hl t hmeets _ hguards hlt => ?_, fun l inner hl t hmeets _ _ hlt => ?_,
      by simp⟩
    · obtain ⟨m, hm, way, hmember, rfl⟩ := Shape.holds_scene.1 hl
      rcases List.mem_pair.1 hm with rfl | rfl
      · -- the plane is hidden in the drawer already
        obtain ⟨rfl, rfl⟩ := Shape.holds_leaf.1 hmember
        have hbeyond := hguards _ (List.mem_singleton_self _)
        rw [eq_of_meets_veil hmeets] at hbeyond
        norm_num at hbeyond
      · obtain ⟨rfl, rfl⟩ := Shape.holds_leaf.1 hmember
        exact hball _ _ hmeets hlt
    · obtain ⟨rfl, rfl⟩ := Shape.holds_leaf.1 hl
      exact hball _ _ hmeets hlt
  refine ⟨houter, hmet, distance_le_met built_cabinet hbasic lengthSquared_headOn hholds hmet
    hepsilon ?_ ?_ hclear (by norm_num)⟩
  · simp only [List.forall_mem_cons]
    exact ⟨houter, hinner, by simp⟩
  · intro t hmeets _
    rcases meets_ball.1 hmeets with rfl | rfl
    · exact hepsilon
    · linarith

/-- The ball in a scene with a guard between its two sides. -/
noncomputable def enteredBall : Scene ℝ := ⟨⟨1⟩, 1, [.leaf (.sphere (ball .quadratic))]⟩

/-- The ball is reported where it is entered. -/
theorem distance?_ball : (ball .quadratic).distance? Surface.headOn = some (1 / 2) := by
  have hepsilon := defaultEpsilon_lt_half
  obtain ⟨half, hhalf, hdistance⟩ := @Sphere.exists_quadraticDistance? ℝ _ Surface.headOn
    (ball .quadratic) lengthSquared_headOn (by rw [along_ball, clearance_ball]; norm_num)
  have hends : half = 3 / 2 := by
    have hsquare := hhalf.square
    rw [along_ball, clearance_ball] at hsquare
    nlinarith [hhalf.nonneg]
  have hnear : (2 : ℝ) - 3 / 2 = 1 / 2 := by norm_num
  have hquadratic : (ball .quadratic).quadraticDistance? Surface.headOn = some (1 / 2) := by
    rw [hdistance, along_ball, hends, hnear]
    exact List.find?_cons_of_pos (decide_eq_true hepsilon)
  exact hquadratic

/-- A guard hides more than what is inside it: the far side of the ball is beyond the guard, but the
ball is reported where it is entered, and the scene, which ignores this, reports nothing. -/
theorem guard_hides_farSide :
    enteredBall.toShape.Built ∧ (∀ l ∈ enteredBall.toShape.leaves, l.Basic) ∧
      enteredBall.toShape.Holds (.sphere (ball .quadratic))
        [(enteredBall.guard, .leaf (.sphere (ball .quadratic)))] ∧
      (Leaf.sphere (ball .quadratic)).Meets Surface.headOn (7 / 2) ∧
      enteredBall.guard < 7 / 2 ∧ defaultEpsilon < (7 / 2 : ℝ) ∧
      ∀ best, 7 / 2 < best → ¬∃ hit, enteredBall.toShape.intersect Surface.headOn best = .ok hit ∧
        hit.isHit = true ∧ hit.distance ≤ 7 / 2 := by
  have hepsilon := defaultEpsilon_lt_half
  have hguard : enteredBall.guard = 1 := rfl
  refine ⟨?_, ?_, ?_, meets_ball.2 (.inr rfl), ?_, ?_, ?_⟩
  · refine .scene (zero_lt_one' ℝ) fun m hm => ?_
    rw [List.mem_singleton.1 hm]
    exact .leaf fun _ h => by cases h
  · simp only [enteredBall, toShape, Shape.leaves, Shape.leavesOfAll, List.append_nil,
      List.forall_mem_cons]
    exact ⟨.sphere _, by simp⟩
  · exact .member (List.mem_singleton_self _) (.leaf _)
  · rw [hguard]
    norm_num
  · linarith
  · rintro best - ⟨hit, hhit, hishit, -⟩
    have hball : ∀ best, (Shape.leaf (.sphere (ball .quadratic))).intersect Surface.headOn best =
        .ok ⟨1 / 2, some (Surface.headOn.pointAt (1 / 2)), some (.sphere (ball .quadratic))⟩ := by
      intro best
      rw [Shape.intersect]
      exact Leaf.intersect_eq_ok.2 (.inl ⟨1 / 2, congrArg Except.ok distance?_ball, rfl⟩)
    obtain ⟨candidate, hcandidate, hrest⟩ := Shape.scan_cons_eq_ok.1 hhit
    rw [hball] at hcandidate
    cases hcandidate
    -- the guard is beyond where the ball is entered
    have hinside : ¬enteredBall.guard < 1 / 2 := by
      rw [hguard]
      norm_num
    rw [Hit.closer_eq, if_neg fun h => hinside h.1] at hrest
    rw [← Shape.scan_nil_eq_ok.1 hrest] at hishit
    cases hishit

end Scene

end ZeroSet
