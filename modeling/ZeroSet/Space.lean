import ZeroSet.Scalar

/-!
# Points, directions and rays

Points, directions and colours are triples of scalars; a ray is an origin and a
direction of unit length.

* `Vec3` — componentwise arithmetic, the dot product, lengths and unit vectors.
* `Axis` — the three coordinate directions, used to read and set one component.
* `Ray.towards`, `Ray.pointAt` — a ray with its direction normalised, and a point on it.
-/

namespace ZeroSet

/-- A triple of scalars. -/
structure Vec3 (K : Type) where
  /-- First component. -/
  x : K
  /-- Second component. -/
  y : K
  /-- Third component. -/
  z : K

/-- One of the three coordinate directions. -/
inductive Axis where
  /-- The first direction. -/
  | x
  /-- The second direction. -/
  | y
  /-- The third direction. -/
  | z
deriving DecidableEq

namespace Axis

/-- The directions in order. -/
def all : List Axis := [x, y, z]

/-- The direction with a given number, counted from zero. -/
def ofNat? : Nat → Option Axis
  | 0 => some x
  | 1 => some y
  | 2 => some z
  | _ => none

/-- The variable that stands for a coordinate in a field. -/
def name : Axis → String
  | x => "x"
  | y => "y"
  | z => "z"

end Axis

namespace Vec3

variable {K : Type}

/-- The triple with one value in every component. -/
def splat (a : K) : Vec3 K := ⟨a, a, a⟩

/-- The component along an axis. -/
def get (v : Vec3 K) : Axis → K
  | .x => v.x
  | .y => v.y
  | .z => v.z

/-- The triple with the component along an axis replaced. -/
def set (v : Vec3 K) (axis : Axis) (a : K) : Vec3 K :=
  match axis with
  | .x => { v with x := a }
  | .y => { v with y := a }
  | .z => { v with z := a }

/-- A function applied to every component. -/
def map {L : Type} (f : K → L) (v : Vec3 K) : Vec3 L := ⟨f v.x, f v.y, f v.z⟩

/-- A function applied to matching components. -/
def zipWith (f : K → K → K) (v w : Vec3 K) : Vec3 K := ⟨f v.x w.x, f v.y w.y, f v.z w.z⟩

/-- The components in order. -/
def toList (v : Vec3 K) : List K := [v.x, v.y, v.z]

variable [Scalar K]

instance : Add (Vec3 K) := ⟨zipWith (· + ·)⟩
instance : Sub (Vec3 K) := ⟨zipWith (· - ·)⟩
instance : Neg (Vec3 K) := ⟨map (- ·)⟩
/-- Products are taken component by component, as for colours. -/
instance : Mul (Vec3 K) := ⟨zipWith (· * ·)⟩
instance : Zero (Vec3 K) := ⟨splat 0⟩

/-- The triple with every component multiplied by `s`. -/
def scale (v : Vec3 K) (s : K) : Vec3 K := v.map (· * s)

/-- The triple with every component divided by `s`. -/
def divide (v : Vec3 K) (s : K) : Vec3 K := v.map (· / s)

/-- The dot product, summed from the first component on. -/
def dot (v w : Vec3 K) : K := v.x * w.x + v.y * w.y + v.z * w.z

/-- The square of the length. -/
def lengthSquared (v : Vec3 K) : K := v.dot v

/-- One over the length. -/
def inverseLength (v : Vec3 K) : K := 1 / Scalar.sqrt v.lengthSquared

/-- The vector of unit length in the same direction; meaningless for a zero vector. -/
def normalize (v : Vec3 K) : Vec3 K := v.scale v.inverseLength

/-- The vector of unit length in the same direction, if the length has a usable inverse. -/
def unit? (v : Vec3 K) : Option (Vec3 K) :=
  if Scalar.isFinite v.inverseLength && 0 < v.inverseLength then some v.normalize else none

/-- The vector of unit length in the same direction, and zero where there is none. -/
def unitOrZero (v : Vec3 K) : Vec3 K := v.unit?.getD 0

/-- The largest component. -/
def largest (v : Vec3 K) : K := Scalar.greater v.x (Scalar.greater v.y v.z)

/-- The smallest component. -/
def smallest (v : Vec3 K) : K := Scalar.lesser v.x (Scalar.lesser v.y v.z)

end Vec3

/-- A half-line from an origin. -/
structure Ray (K : Type) where
  /-- Where the ray starts. -/
  origin : Vec3 K
  /-- Where it goes, as a vector of unit length. -/
  direction : Vec3 K

namespace Ray

variable {K : Type} [Scalar K]

/-- The ray from `origin` in a direction of any length. -/
def towards (origin direction : Vec3 K) : Ray K := ⟨origin, direction.normalize⟩

/-- The point at distance `t` along the ray. -/
def pointAt (ray : Ray K) (t : K) : Vec3 K := ray.origin + ray.direction.scale t

end Ray

end ZeroSet
