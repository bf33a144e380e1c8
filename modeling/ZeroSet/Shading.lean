import ZeroSet.Space

/-!
# Materials and shading

A material says how a surface looks, independent of any hit.  Placed at a hit, with the
position and the unit normal there, it becomes a shading, which can be lit: the ambient
colour plus, for each light, the light's colour times the reflectance towards the viewer.

Light and highlight from behind the surface are cut off at zero.
-/

namespace ZeroSet

/-- The look of a surface. -/
inductive Material (K : Type) where
  /-- One colour, whatever the lights. -/
  | ambient (color : Vec3 K)
  /-- An ambient colour, a diffuse part and a highlight of some sharpness. -/
  | phong (ambient diffuse specular : Vec3 K) (exponent : K)

/-- A light at a point. -/
structure Light (K : Type) where
  /-- Where the light is. -/
  position : Vec3 K
  /-- What it emits. -/
  color : Vec3 K

/-- A material at one point of a surface. -/
structure Shading (K : Type) where
  /-- The material. -/
  material : Material K
  /-- The point. -/
  position : Vec3 K
  /-- The unit normal at the point, or zero where there is none. -/
  normal : Vec3 K

variable {K : Type} [Scalar K]

namespace Material

/-- A light grey, for surfaces that ask for nothing else. -/
def standard : Material K := .ambient (.splat 0.8)

/-- A shiny material whose ambient colour is a tenth of the diffuse one. -/
def shiny (diffuse specular : Vec3 K) (exponent : K) : Material K :=
  .phong (diffuse.scale 0.1) diffuse specular exponent

/-- The material at a point with a normal of any length. -/
def place (m : Material K) (position normal : Vec3 K) : Shading K :=
  ⟨m, position, normal.unitOrZero⟩

/-- The colour that needs no light. -/
def ambientColor : Material K → Vec3 K
  | ambient color => color
  | phong base _ _ _ => base

end Material

/-- A white light. -/
def Light.white (position : Vec3 K) : Light K := ⟨position, .splat 1⟩

namespace Shading

/-- How much of the light from one direction leaves in another, per channel; both directions
point away from the surface.  The highlight follows the direction half way between them. -/
def reflectance (s : Shading K) (toViewer toLight : Vec3 K) : Vec3 K :=
  match s.material with
  | .ambient _ => 0
  | .phong _ diffuse specular exponent =>
    let viewer := toViewer.unitOrZero
    let light := toLight.unitOrZero
    let half := (viewer + light).unitOrZero
    let lambert := Scalar.greater (s.normal.dot light) 0
    let highlight := Scalar.pow (Scalar.greater (s.normal.dot half) 0) exponent
    diffuse.scale lambert + specular.scale highlight

/-- The colour seen from a direction under some lights. -/
def shade (s : Shading K) (toViewer : Vec3 K) (lights : List (Light K)) : Vec3 K :=
  lights.foldl
    (fun color light => color + light.color * s.reflectance toViewer (light.position - s.position))
    s.material.ambientColor

end Shading

end ZeroSet
