import ZeroSet.Shape.Id
import ZeroSet.Shading
import ZeroSet.RootSearch.Settings

/-!
# Spheres

A sphere is met by a ray where `|o + t·d - c|² = r²`.  The distance of the nearest meeting
point ahead of the ray's start can be found by solving the quadratic equation, or by
projecting the centre onto the ray, which rejects many rays before a root is taken.
-/

namespace ZeroSet

/-- How a sphere is intersected. -/
inductive SphereMethod where
  /-- By the roots of the quadratic equation. -/
  | quadratic
  /-- By projecting the centre onto the ray. -/
  | algebraic
deriving DecidableEq

/-- A sphere with its look. -/
structure Sphere (K : Type) where
  /-- The number of the shape. -/
  id : ShapeId
  /-- The centre. -/
  center : Vec3 K
  /-- The radius. -/
  radius : K
  /-- How the sphere is intersected. -/
  method : SphereMethod
  /-- The look. -/
  material : Material K

namespace Sphere

variable {K : Type} [Scalar K]

/-- A sphere whose radius has to be a positive real. -/
def build (center : Vec3 K) (radius : K) : Building K (Sphere K) :=
  if Scalar.isFinite radius && 0 < radius then do
    let id ← (IdSupply.issue : StateM _ _)
    return ⟨id, center, radius, .quadratic, .standard⟩
  else throw (.invalidConstruction (.sphereRadius radius))

/-- The unit normal at a point of the sphere. -/
def normalAt (s : Sphere K) (point : Vec3 K) : Vec3 K := (point - s.center).divide s.radius

/-- The smaller root of the quadratic equation that is ahead of the start. -/
def quadraticDistance? (s : Sphere K) (ray : Ray K) : Option K :=
  let toStart := ray.origin - s.center
  let a := ray.direction.lengthSquared
  let b := 2.0 * ray.direction.dot toStart
  let c := toStart.lengthSquared - s.radius * s.radius
  let discriminant := b * b - 4.0 * a * c
  if discriminant < 0 then none
  else
    let root := Scalar.sqrt discriminant
    let near := (-b - root) / (2.0 * a)
    let far := (-b + root) / (2.0 * a)
    [near, far].find? fun t => defaultEpsilon < t

/-- The distance from the projection of the centre, less or more half the chord. -/
def algebraicDistance? (s : Sphere K) (ray : Ray K) : Option K :=
  let toCenter := s.center - ray.origin
  let along := toCenter.dot ray.direction
  let distanceSquared := toCenter.lengthSquared
  let radiusSquared := s.radius * s.radius
  let outside : Bool := radiusSquared < distanceSquared
  if along < 0 && outside then none
  else
    let beside := distanceSquared - along * along
    if radiusSquared < beside then none
    else
      let halfChord := Scalar.sqrt (radiusSquared - beside)
      let t := if outside then along - halfChord else along + halfChord
      if defaultEpsilon < t then some t else none

/-- The distance of the nearest meeting point ahead of the start. -/
def distance? (s : Sphere K) (ray : Ray K) : Option K :=
  match s.method with
  | .quadratic => s.quadraticDistance? ray
  | .algebraic => s.algebraicDistance? ray

end Sphere

end ZeroSet
