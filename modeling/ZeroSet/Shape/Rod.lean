import ZeroSet.Shape.Id
import ZeroSet.Shading
import ZeroSet.RootSearch.Settings

/-!
# Rods

A rod is a box along one of the coordinate axes, from the origin to a length, and as thick
on both sides as asked for.  A ray meets the box where it is between the two faces of all
three axes at once.
-/

namespace ZeroSet

/-- A box that stands for an axis, in the colour of the axis. -/
structure Rod (K : Type) where
  /-- The number of the shape. -/
  id : ShapeId
  /-- The corner with the smallest coordinates. -/
  lo : Vec3 K
  /-- The corner with the largest coordinates. -/
  hi : Vec3 K
  /-- The look. -/
  material : Material K

namespace Rod

variable {K : Type} [Scalar K]

/-- A rod along the axis with a given number. -/
def build (axis : Nat) (length thickness : K) : Building K (Rod K) :=
  match Axis.ofNat? axis with
  | none => throw (.invalidConstruction (.axisIndex axis))
  | some axis =>
    if 0 < length && 0 < thickness then do
      let id ← (IdSupply.issue : StateM _ _)
      return {
        id
        lo := (Vec3.splat (-thickness)).set axis 0
        hi := (Vec3.splat thickness).set axis length
        material := .ambient ((0 : Vec3 K).set axis 1) }
    else throw (.invalidConstruction (.rodExtent length thickness))

/-- The distances at which the line of a ray enters and leaves the box.  A direction along a
face divides by zero; the infinities order themselves, and where a start on the face gives
no number the other face decides. -/
def slab? (r : Rod K) (ray : Ray K) : Option (K × K) :=
  let inverse := ray.direction.map (1 / ·)
  let toLo := (r.lo - ray.origin) * inverse
  let toHi := (r.hi - ray.origin) * inverse
  let near := (Vec3.zipWith Scalar.lesser toLo toHi).largest
  let far := (Vec3.zipWith Scalar.greater toLo toHi).smallest
  if near ≤ far then some (near, far) else none

/-- The distance of the first face met ahead of the start. -/
def distance? (r : Rod K) (ray : Ray K) : Option K :=
  (r.slab? ray).bind fun (near, far) => [near, far].find? fun t => defaultEpsilon < t

/-- The unit normals of the six faces with the distance of a point from each, low before high
and axis by axis. -/
def faces (r : Rod K) (point : Vec3 K) : List (K × Vec3 K) :=
  Axis.all.flatMap fun axis =>
    [(Scalar.abs (point.get axis - r.lo.get axis), (0 : Vec3 K).set axis (-1)),
      (Scalar.abs (r.hi.get axis - point.get axis), (0 : Vec3 K).set axis 1)]

/-- The normal of the face nearest to a point; the first one on a tie. -/
def normalAt (r : Rod K) (point : Vec3 K) : Vec3 K :=
  ((r.faces point).foldl (fun best face => if face.1 < best.1 then face else best)
    (Scalar.infinity, 0)).2

end Rod

end ZeroSet
