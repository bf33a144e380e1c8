import ZeroSet.Shape.Sphere
import ZeroSet.Shape.Plane
import ZeroSet.Shape.Rod
import ZeroSet.Shape.Surface

/-!
# Leaves and hits

A leaf is a shape that is not made of other shapes.  Intersecting a leaf with a ray gives a
`Hit`: the distance, the point and the leaf that was hit.  A leaf that is not hit reports a
distance of minus one, and a scan that finds nothing nearer than the best distance it was
given reports that distance; neither has a point or an owner.

`Leaf.scan` goes through leaves in order and keeps the nearest hit beyond a guard, so that
the first of several equally near ones wins.
-/

namespace ZeroSet

/-- A shape that is not made of other shapes. -/
inductive Leaf (K : Type) where
  /-- A sphere. -/
  | sphere (s : Sphere K)
  /-- A plane. -/
  | plane (p : Plane K)
  /-- A rod. -/
  | rod (r : Rod K)
  /-- An implicit surface. -/
  | surface (s : Surface K)

/-- What a ray meets. -/
structure Hit (K : Type) where
  /-- The distance along the ray. -/
  distance : K
  /-- The meeting point, if there is one. -/
  point : Option (Vec3 K)
  /-- The leaf that was hit, if there is one. -/
  owner : Option (Leaf K)

variable {K : Type} [Scalar K]

namespace Hit

/-- What a leaf reports that is not hit. -/
def miss : Hit K := ⟨-1, none, none⟩

/-- Nothing nearer than a distance. -/
def nothingWithin (best : K) : Hit K := ⟨best, none, none⟩

/-- Whether a leaf was hit, and not behind the start. -/
def isHit (h : Hit K) : Bool := h.owner.isSome && 0 ≤ h.distance

/-- The candidate if it is beyond the guard and nearer than the closest hit so far. -/
def closer (guard : K) (closest candidate : Hit K) : Hit K :=
  if guard < candidate.distance && candidate.distance < closest.distance then candidate
  else closest

/-- The meeting point, which a hit that is to be shaded must have. -/
def getPoint (h : Hit K) : Except (EvalError K) (Vec3 K) :=
  match h.point with
  | some p => .ok p
  | none => .error (.invalidConstruction .nothingHit)

end Hit

namespace Leaf

/-- The number of the leaf. -/
def id : Leaf K → ShapeId
  | sphere s => s.id
  | plane p => p.id
  | rod r => r.id
  | surface s => s.id

/-- The look of the leaf. -/
def material : Leaf K → Material K
  | sphere s => s.material
  | plane p => p.material
  | rod r => r.material
  | surface s => s.material

/-- The distance at which a ray meets the leaf.  Only a surface makes use of the best distance
so far. -/
def distance? (leaf : Leaf K) (ray : Ray K) (best : K) : Except (EvalError K) (Option K) :=
  match leaf with
  | sphere s => .ok (s.distance? ray)
  | plane p => .ok (p.distance? ray)
  | rod r => .ok (r.distance? ray)
  | surface s => s.distance? ray best

/-- What a ray meets of the leaf. -/
def intersect (leaf : Leaf K) (ray : Ray K) (best : K) : Except (EvalError K) (Hit K) := do
  match ← leaf.distance? ray best with
  | some t => return ⟨t, some (ray.pointAt t), some leaf⟩
  | none => return .miss

/-- The normal at a point of the leaf. -/
def normalAt (leaf : Leaf K) (point : Vec3 K) : Except (EvalError K) (Vec3 K) :=
  match leaf with
  | sphere s => .ok (s.normalAt point)
  | plane p => .ok p.normal
  | rod r => .ok (r.normalAt point)
  | surface s => s.normalAt point

/-- The look of the leaf where it was hit. -/
def shading (leaf : Leaf K) (hit : Hit K) : Except (EvalError K) (Shading K) := do
  let point ← hit.getPoint
  let normal ← leaf.normalAt point
  return leaf.material.place point normal

/-- The closest hit of some leaves beyond a guard, given the closest one so far. -/
def scan (guard : K) (ray : Ray K) : List (Leaf K) → Hit K → Except (EvalError K) (Hit K)
  | [], closest => .ok closest
  | leaf :: leaves, closest => do
    let candidate ← leaf.intersect ray closest.distance
    scan guard ray leaves (closest.closer guard candidate)

end Leaf

end ZeroSet
