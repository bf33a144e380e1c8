import ZeroSet.Shape.Id
import ZeroSet.Shading
import ZeroSet.RootSearch.Bisection
import ZeroSet.Func.Calculus
import ZeroSet.Expr.Powers

/-!
# Implicit surfaces

The surface where a scalar field in `x`, `y` and `z` is zero.  Along a ray the coordinates
are affine in the ray's parameter, which turns the field into an expression in one
variable; its nearest root is found by branch and prune, over the field with its powers
unrolled.  Newton steps may then refine the root inside the leaf that was found.  Normals
come from the symbolic gradient, which is taken and simplified once.

* `Surface.build`, `Surface.ofFunction` — surfaces of fields and of functions.
* `Surface.alongRay` — the environment in which the field reads along a ray.
* `Surface.valueAt`, `Surface.gradientAt`, `Surface.normalAt` — the field at a point.
* `Surface.distance?` — the nearest meeting point of a ray.
-/

namespace ZeroSet

/-- The zero set of a field with its look. -/
structure Surface (K : Type) where
  /-- The number of the shape. -/
  id : ShapeId
  /-- The field. -/
  field : Expr K
  /-- The field with its powers unrolled. -/
  intervalForm : Expr K
  /-- The simplified derivatives of the field in the three coordinates. -/
  gradient : Vec3 (Expr K)
  /-- The settings the surface was built with. -/
  settings : Settings K
  /-- The search along rays. -/
  finder : Bisection K
  /-- The look. -/
  material : Material K

namespace Surface

/-- The variable that runs along a ray. -/
def rayParameter : String := "t"

/-- The free names of a field that are not coordinates. -/
def strayNames {K : Type} (field : Expr K) : List String :=
  field.distinctNames.filter fun name => name ∉ Axis.all.map Axis.name

variable {K : Type} [Scalar K]

/-- The simplified derivative of a field in a coordinate. -/
def slope (field : Expr K) (axis : Axis) : Except (EvalError K) (Expr K) := do
  let derivative ← field.derivative axis.name
  derivative.simplify

/-- The surface of a field, which may only mention the coordinates. -/
def build (field : Expr K) (settings : Settings K) : Building K (Surface K) := do
  let finder ← Bisection.ofSettings settings
  let stray := strayNames field
  if stray.isEmpty then do
    let gx ← slope field .x
    let gy ← slope field .y
    let gz ← slope field .z
    let id ← (IdSupply.issue : StateM _ _)
    return ⟨id, field, field.unrollPowers, ⟨gx, gy, gz⟩, settings, finder, .standard⟩
  else throw (.invalidConstruction (.strayNames stray))

/-- The surface of a function of three parameters that returns one component. -/
def ofFunction (f : Func K) (settings : Settings K) : Building K (Surface K) :=
  if f.dim = 1 then do
    let field ← f.apply (Axis.all.map fun axis => .var axis.name)
    build field settings
  else throw (.dimensionMismatch f.dim 1)

/-! ## The field at a point -/

/-- The coordinates bound to those of a point. -/
def atPoint (p : Vec3 K) : Env K :=
  .ofList (Axis.all.map fun axis => (axis.name, .num (p.get axis)))

/-- The field at a point. -/
def valueAt (s : Surface K) (p : Vec3 K) : Except (EvalError K) K :=
  s.field.evaluateReal.value (atPoint p)

/-- The gradient at a point. -/
def gradientAt (s : Surface K) (p : Vec3 K) : Except (EvalError K) (Vec3 K) :=
  Evaluation.value
    (do
      let gx ← s.gradient.x.evaluateReal
      let gy ← s.gradient.y.evaluateReal
      let gz ← s.gradient.z.evaluateReal
      return ⟨gx, gy, gz⟩)
    (atPoint p)

/-- The unit normal at a point, or zero where the gradient vanishes. -/
def normalAt (s : Surface K) (p : Vec3 K) : Except (EvalError K) (Vec3 K) := do
  let gradient ← s.gradientAt p
  return gradient.unitOrZero

/-! ## Along a ray -/

/-- The coordinates bound to their affine expressions in the ray parameter. -/
def alongRay (ray : Ray K) : Env K :=
  .ofList (Axis.all.map fun axis =>
    (axis.name,
      .num (ray.origin.get axis) + .var rayParameter * .num (ray.direction.get axis)))

/-- The nearest root along a ray, or the distance that stands for none, with the effort. -/
def findRoot (s : Surface K) (ray : Ray K) : Except (EvalError K) (K × Effort) :=
  (s.finder.findRoot s.intervalForm rayParameter).value (alongRay ray)

/-- The nearest leaf along a ray that starts before `best`. -/
def findLeaf (s : Surface K) (ray : Ray K) (best : K) :
    Except (EvalError K) (Option (Interval K)) := do
  let (leaf, _) ←
    (s.finder.findLeafWithin s.intervalForm rayParameter best).value (alongRay ray)
  return leaf

/-- At most `steps` Newton steps from `t`, as long as they stay inside the leaf. -/
def refine (s : Surface K) (ray : Ray K) (leaf : Interval K) :
    (steps : Nat) → K → Except (EvalError K) K
  | 0, t => .ok t
  | steps + 1, t => do
    let p := ray.pointAt t
    let value ← s.valueAt p
    let gradient ← s.gradientAt p
    let next := t - value / gradient.dot ray.direction
    if Scalar.isFinite next && leaf.contains next then s.refine ray leaf steps next
    else return t

/-- The distance of the nearest meeting point that starts before `best`. -/
def distance? (s : Surface K) (ray : Ray K) (best : K) : Except (EvalError K) (Option K) := do
  match ← s.findLeaf ray best with
  | none => return none
  | some leaf =>
    let t ← s.refine ray leaf s.settings.newtonSteps leaf.lo
    return some t

end Surface

end ZeroSet
