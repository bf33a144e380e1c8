import ZeroSet.Shape.Leaf

/-!
# Scenes

A scene is an ordered list of shapes, and a shape is a leaf, a scene or a set of coordinate
axes, so scenes nest.  The closest hit of a scene is found by going through its members in
order; the distance of the closest hit so far is handed to each member.

* `Shape.intersect`, `Shape.shading` — what every shape offers.
* `Shape.leaves` — the leaves of a shape from left to right.
* `Scene.trace` — the closest hit of a whole scene, with its shading.
-/

namespace ZeroSet

/-- Anything that can be put into a scene. -/
inductive Shape (K : Type) where
  /-- A shape that is not made of others. -/
  | leaf (l : Leaf K)
  /-- A scene with its guard and its members. -/
  | scene (id : ShapeId) (guard : K) (members : List (Shape K))
  /-- Coordinate axes: rods in a scene of their own, which is numbered too. -/
  | axes (id frame : ShapeId) (rods : List (Rod K))

variable {K : Type} [Scalar K]

namespace Shape

/-- The number of the shape. -/
def id : Shape K → ShapeId
  | leaf l => l.id
  | scene id _ _ => id
  | axes id _ _ => id

/-- The axes of a length and thickness, in order. -/
def buildAxes (length thickness : K) : Building K (Shape K) := do
  let id ← (IdSupply.issue : StateM _ _)
  let frame ← (IdSupply.issue : StateM _ _)
  let x ← Rod.build 0 length thickness
  let y ← Rod.build 1 length thickness
  let z ← Rod.build 2 length thickness
  return .axes id frame [x, y, z]

mutual

/-- The leaves of a shape from left to right. -/
def leaves : Shape K → List (Leaf K)
  | leaf l => [l]
  | scene _ _ members => leavesOfAll members
  | axes _ _ rods => rods.map .rod

/-- The leaves of a list of shapes from left to right. -/
def leavesOfAll : List (Shape K) → List (Leaf K)
  | [] => []
  | s :: ss => s.leaves ++ leavesOfAll ss

end

/-! ## Hits -/

mutual

/-- What a ray meets of a shape first, given the best distance so far. -/
def intersect (ray : Ray K) : Shape K → K → Except (EvalError K) (Hit K)
  | leaf l, best => l.intersect ray best
  | scene _ guard members, best => scan guard ray members (.nothingWithin best)
  | axes _ _ rods, best => Leaf.scan defaultEpsilon ray (rods.map .rod) (.nothingWithin best)

/-- The closest hit of some shapes beyond a guard, given the closest one so far. -/
def scan (guard : K) (ray : Ray K) : List (Shape K) → Hit K → Except (EvalError K) (Hit K)
  | [], closest => .ok closest
  | s :: ss, closest => do
    let candidate ← s.intersect ray closest.distance
    scan guard ray ss (closest.closer guard candidate)

end

/-! ## Shading -/

/-- The look a scene gives to a hit: that of the leaf that was hit, or its own, which faces
nowhere. -/
def sceneShading (own : ShapeId) (hit : Hit K) : Except (EvalError K) (Shading K) :=
  let plain : Except (EvalError K) (Shading K) := do
    let point ← hit.getPoint
    return Material.standard.place point 0
  match hit.owner with
  | some l => if l.id = own then plain else l.shading hit
  | none => plain

/-- The look of a shape at a hit. -/
def shading (s : Shape K) (hit : Hit K) : Except (EvalError K) (Shading K) :=
  match s with
  | leaf l => l.shading hit
  | scene id _ _ => sceneShading id hit
  | axes _ frame _ => sceneShading frame hit

end Shape

/-! ## Whole scenes -/

/-- A scene that members can be added to. -/
structure Scene (K : Type) where
  /-- The number of the scene. -/
  id : ShapeId
  /-- Hits up to here are ignored. -/
  guard : K
  /-- The members in order. -/
  members : List (Shape K)

/-- The closest hit of a scene. -/
structure TracedHit (K : Type) where
  /-- The distance along the ray. -/
  distance : K
  /-- The meeting point. -/
  point : Vec3 K
  /-- The number of the leaf that was hit. -/
  owner : ShapeId
  /-- Its look at the point. -/
  shading : Shading K

namespace Scene

/-- A scene without members. -/
def build : StateM IdSupply (Scene K) := do
  let id ← IdSupply.issue
  return ⟨id, defaultEpsilon, []⟩

/-- The scene with another guard, which has to be a positive real. -/
def withGuard (s : Scene K) (guard : K) : Except (EvalError K) (Scene K) :=
  if Scalar.isFinite guard && 0 < guard then .ok { s with guard }
  else .error (.invalidConstruction (.sceneGuard guard))

/-- The scene with one more member at the end. -/
def add (s : Scene K) (member : Shape K) : Scene K :=
  { s with members := s.members ++ [member] }

/-- The scene as a shape. -/
def toShape (s : Scene K) : Shape K := .scene s.id s.guard s.members

/-- The closest hit along a ray, with the look of the leaf that was hit. -/
def trace (s : Scene K) (ray : Ray K) : Except (EvalError K) (Option (TracedHit K)) := do
  let hit ← s.toShape.intersect ray Scalar.infinity
  match hit.owner, hit.point with
  | some leaf, some point =>
    let shading ← leaf.shading hit
    return some ⟨hit.distance, point, leaf.id, shading⟩
  | _, _ => return none

end Scene

end ZeroSet
