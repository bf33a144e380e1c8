import ZeroSet.Proofs.UnitVectors
import ZeroSet.Shading

/-!
# Light from behind a surface

The diffuse part of a shiny material is cut off where the light is behind the surface.  The
highlight follows the direction half way between viewer and light, and is cut off where that one is
behind the surface, which it need not be when the light is.

* `Shading.HalfBehind` — where the direction half way is not in front of the surface.
* `Shading.halfBehind_of_opposite` — a light straight behind the surface is such a case.
* `Shading.reflectance_eq_of_behind` — what a light from behind contributes.
* `Shading.reflectance_behind` — where that is nothing, and what is seen under such lights.
* `Shading.highlight_from_behind` — a highlight of a light from behind.
-/

namespace ZeroSet

variable {K : Type} [ShadingScalar K]

namespace Shading

variable {ambient diffuse specular position normal toViewer toLight : Vec3 K} {exponent : K}
  {axis : Axis}

/-- The direction half way between viewer and light is not in front of the surface. -/
def HalfBehind (normal toViewer toLight : Vec3 K) : Prop :=
  normal.dot (toViewer.unitOrZero + toLight.unitOrZero) ≤ 0

/-- A light straight behind the surface is so far behind that the direction half way is behind as
well, wherever the viewer is. -/
theorem halfBehind_of_opposite {c : K} (hc : 0 < c) :
    HalfBehind normal toViewer (normal.scale (-c)) := by
  have hviewer := normal.dot_unitOrZero_le toViewer
  rw [HalfBehind, Vec3.dot_add, Vec3.dot_unitOrZero_scale_neg normal hc]
  linarith

/-- A highlight vanishes where the direction that it follows is not in front of the surface. -/
theorem pow_greater_eq_zero_iff {a : K} (hexponent : 0 < exponent) :
    Scalar.pow (Scalar.greater a 0) exponent = 0 ↔ a ≤ 0 := by
  rw [ExactScalar.greater_eq_max]
  rcases le_or_gt a 0 with hle | hpos
  · rw [max_eq_right hle]
    exact iff_of_true (ShadingScalar.zero_pow exponent hexponent) hle
  · rw [max_eq_left hpos.le]
    exact iff_of_false (ShadingScalar.pow_pos a exponent hpos).ne' (not_le.2 hpos)

/-- A light from behind contributes to the highlight only. -/
theorem reflectance_eq_of_behind (hbehind : normal.dot toLight ≤ 0) :
    ((Material.phong ambient diffuse specular exponent).place position normal).reflectance
        toViewer toLight =
      specular.scale (Scalar.pow (Scalar.greater
        (normal.unitOrZero.dot (toViewer.unitOrZero + toLight.unitOrZero).unitOrZero) 0)
        exponent) := by
  have hlambert : Scalar.greater (normal.unitOrZero.dot toLight.unitOrZero) 0 = 0 := by
    rw [ExactScalar.greater_eq_max]
    exact max_eq_right (Vec3.unitOrZero_dot_nonpos_iff.2 (Vec3.dot_unitOrZero_nonpos_iff.2 hbehind))
  show diffuse.scale (Scalar.greater (normal.unitOrZero.dot toLight.unitOrZero) 0) + _ = _
  rw [hlambert, Vec3.scale_zero]
  refine Vec3.eq_of_get fun axis => ?_
  rw [Vec3.get_add, Vec3.get_zero, zero_add]
  rfl

/-- Nothing of a light from behind leaves in a channel without highlights, or where the direction
half way is behind the surface as well. -/
theorem get_reflectance_eq_zero_iff (hexponent : 0 < exponent) (hbehind : normal.dot toLight ≤ 0) :
    (((Material.phong ambient diffuse specular exponent).place position normal).reflectance
        toViewer toLight).get axis = 0 ↔
      specular.get axis = 0 ∨ HalfBehind normal toViewer toLight := by
  rw [reflectance_eq_of_behind hbehind, Vec3.get_scale, mul_eq_zero,
    pow_greater_eq_zero_iff hexponent, Vec3.unitOrZero_dot_nonpos_iff,
    Vec3.dot_unitOrZero_nonpos_iff, HalfBehind]

/-- Lights of which nothing is reflected in a channel leave the ambient colour there. -/
theorem get_shade_eq {s : Shading K} {lights : List (Light K)}
    (h : ∀ light ∈ lights,
      (s.reflectance toViewer (light.position - s.position)).get axis = 0) :
    (s.shade toViewer lights).get axis = s.material.ambientColor.get axis := by
  rw [shade]
  generalize s.material.ambientColor = color
  induction lights generalizing color with
  | nil => rfl
  | cons light lights ih =>
    obtain ⟨hlight, hlights⟩ := List.forall_mem_cons.1 h
    rw [List.foldl_cons, ih hlights, Vec3.get_add, Vec3.get_mul, hlight, mul_zero, add_zero]

/-- Of a light from behind the surface nothing is reflected in a channel exactly if the material
has no highlights there, or the direction half way between viewer and light is behind the surface
as well.  Under such lights only the ambient colour is seen in the channel. -/
theorem reflectance_behind (ambient diffuse specular position normal toViewer : Vec3 K)
    (exponent : K) (hexponent : 0 < exponent) (axis : Axis) :
    (∀ toLight, normal.dot toLight ≤ 0 →
      ((((Material.phong ambient diffuse specular exponent).place position normal).reflectance
          toViewer toLight).get axis = 0 ↔
        specular.get axis = 0 ∨ HalfBehind normal toViewer toLight)) ∧
    ∀ lights : List (Light K),
      (∀ light ∈ lights, normal.dot (light.position - position) ≤ 0 ∧
        (specular.get axis = 0 ∨ HalfBehind normal toViewer (light.position - position))) →
      (((Material.phong ambient diffuse specular exponent).place position normal).shade
        toViewer lights).get axis = ambient.get axis := by
  refine ⟨fun toLight hbehind => get_reflectance_eq_zero_iff hexponent hbehind, ?_⟩
  intro lights hlights
  refine get_shade_eq fun light hlight => ?_
  obtain ⟨hbehind, hdark⟩ := hlights light hlight
  exact (get_reflectance_eq_zero_iff hexponent hbehind).2 hdark

/-! ## Low lights -/

/-- A level surface that reflects everything. -/
noncomputable def level : Shading ℝ :=
  (Material.phong 0 (.splat 1) (.splat 1) 1).place 0 ⟨0, 1, 0⟩

/-- A point a little below the level. -/
noncomputable def shallow : Vec3 ℝ := ⟨(24 : ℕ), -(7 : ℕ), 0⟩

/-- A point far below the level. -/
noncomputable def deep : Vec3 ℝ := ⟨(3 : ℕ), -(4 : ℕ), 0⟩

theorem unitOrZero_level : (⟨0, 1, 0⟩ : Vec3 ℝ).unitOrZero = ⟨0, 1, 0⟩ := by
  rw [Vec3.unitOrZero_of_lengthSquared (a := 1) one_pos
    (by norm_num [Vec3.lengthSquared, Vec3.dot])]
  norm_num [Vec3.scale, Vec3.map]

theorem halfBehind_deep : HalfBehind ⟨0, 1, 0⟩ ⟨1, 0, 0⟩ deep := by
  have hviewer : (⟨1, 0, 0⟩ : Vec3 ℝ).unitOrZero = ⟨1, 0, 0⟩ := by
    rw [Vec3.unitOrZero_of_lengthSquared (a := 1) one_pos
      (by norm_num [Vec3.lengthSquared, Vec3.dot])]
    norm_num [Vec3.scale, Vec3.map]
  have hlight : deep.unitOrZero = ⟨3 / 5, -(4 / 5), 0⟩ := by
    rw [Vec3.unitOrZero_of_lengthSquared (a := 5) (by norm_num)
      (by norm_num [deep, Vec3.lengthSquared, Vec3.dot])]
    norm_num [deep, Vec3.scale, Vec3.map]
  rw [HalfBehind, Vec3.dot_add, hviewer, hlight]
  norm_num [Vec3.dot]

/-- Seen along the surface, a light far below leaves it dark. -/
theorem reflectance_behind_deep :
    (0 : ℝ) < 1 ∧ Vec3.dot ⟨0, 1, 0⟩ deep < 0 ∧
      (level.reflectance ⟨1, 0, 0⟩ deep).get .x = 0 ∧ level.shade ⟨1, 0, 0⟩ [.white deep] = 0 := by
  have hbelow : Vec3.dot ⟨0, 1, 0⟩ deep < 0 := by norm_num [deep, Vec3.dot]
  have hdark := reflectance_behind (0 : Vec3 ℝ) (.splat 1) (.splat 1) 0 ⟨0, 1, 0⟩ ⟨1, 0, 0⟩ 1
    one_pos
  refine ⟨one_pos, hbelow, ((hdark .x).1 deep hbelow.le).2 (.inr halfBehind_deep),
    Vec3.eq_of_get fun axis => (hdark axis).2 [.white deep] fun light hlight => ?_⟩
  rw [List.mem_singleton.1 hlight, Light.white, Vec3.sub_origin]
  exact ⟨hbelow.le, .inr halfBehind_deep⟩

/-- Seen from above, a light a little below leaves a highlight: the direction half way is in front
of the surface. -/
theorem highlight_from_behind :
    (0 : ℝ) < 1 ∧ Vec3.dot ⟨0, 1, 0⟩ shallow < 0 ∧
      level.reflectance ⟨0, 1, 0⟩ shallow = .splat (3 / 5) ∧
      level.shade ⟨0, 1, 0⟩ [.white shallow] = .splat (3 / 5) ∧
      level.material.ambientColor = 0 := by
  have hbelow : Vec3.dot ⟨0, 1, 0⟩ shallow < 0 := by norm_num [shallow, Vec3.dot]
  have hlight : shallow.unitOrZero = ⟨24 / 25, -(7 / 25), 0⟩ := by
    rw [Vec3.unitOrZero_of_lengthSquared (a := 25) (by norm_num)
      (by norm_num [shallow, Vec3.lengthSquared, Vec3.dot])]
    norm_num [shallow, Vec3.scale, Vec3.map]
  have hhalf : ((⟨0, 1, 0⟩ : Vec3 ℝ) + ⟨24 / 25, -(7 / 25), 0⟩).unitOrZero = ⟨4 / 5, 3 / 5, 0⟩ := by
    show (⟨0 + 24 / 25, 1 + -(7 / 25), 0 + 0⟩ : Vec3 ℝ).unitOrZero = _
    rw [Vec3.unitOrZero_of_lengthSquared (a := 6 / 5) (by norm_num)
      (by norm_num [Vec3.lengthSquared, Vec3.dot])]
    norm_num [Vec3.scale, Vec3.map]
  have hreflectance : level.reflectance ⟨0, 1, 0⟩ shallow = .splat (3 / 5) := by
    rw [level, reflectance_eq_of_behind hbelow.le, unitOrZero_level, hlight, hhalf]
    have hdot : Vec3.dot (⟨0, 1, 0⟩ : Vec3 ℝ) ⟨4 / 5, 3 / 5, 0⟩ = 3 / 5 := by norm_num [Vec3.dot]
    have hpow : Scalar.pow (Scalar.greater (3 / 5 : ℝ) 0) 1 = 3 / 5 := by
      rw [ExactScalar.greater_eq_max, max_eq_left (by norm_num)]
      exact Real.rpow_one _
    rw [hdot, hpow]
    norm_num [Vec3.scale, Vec3.map, Vec3.splat]
  refine ⟨one_pos, hbelow, hreflectance, ?_, rfl⟩
  show (0 : Vec3 ℝ) + .splat 1 * level.reflectance ⟨0, 1, 0⟩ (shallow - 0) = _
  rw [Vec3.sub_origin, hreflectance]
  refine Vec3.eq_of_get fun axis => ?_
  rw [Vec3.get_add, Vec3.get_mul, Vec3.get_zero, zero_add]
  cases axis <;> exact one_mul _

end Shading

end ZeroSet
