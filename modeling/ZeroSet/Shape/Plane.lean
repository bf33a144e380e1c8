import ZeroSet.Shape.Id
import ZeroSet.Shading
import ZeroSet.RootSearch.Settings

/-!
# Planes

An infinite plane is met by every ray that is not parallel to it, ahead of or behind the
ray's start.
-/

namespace ZeroSet

/-- A plane with its look. -/
structure Plane (K : Type) where
  /-- The number of the shape. -/
  id : ShapeId
  /-- A point of the plane. -/
  point : Vec3 K
  /-- The unit normal. -/
  normal : Vec3 K
  /-- The look. -/
  material : Material K

namespace Plane

variable {K : Type} [Scalar K]

/-- A ray whose direction has a smaller component across the plane runs along it. -/
def parallelThreshold : K := 2.220446049250313e-16

/-- A plane through a point with a normal of any length but zero. -/
def build (point normal : Vec3 K) : Building K (Plane K) :=
  match normal.unit? with
  | some unit => do
    let id ← (IdSupply.issue : StateM _ _)
    return ⟨id, point, unit, .standard⟩
  | none => throw (.invalidConstruction (.planeNormal normal))

/-- The distance of the meeting point, if it is ahead of the start. -/
def distance? (p : Plane K) (ray : Ray K) : Option K :=
  let across := p.normal.dot ray.direction
  if Scalar.abs across < parallelThreshold then none
  else
    let t := p.normal.dot (p.point - ray.origin) / across
    if defaultEpsilon < t then some t else none

end Plane

end ZeroSet
