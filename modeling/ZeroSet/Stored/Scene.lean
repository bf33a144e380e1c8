import ZeroSet.Stored.Basic
import ZeroSet.Shape.Scene

/-!
# Stored settings, materials and lights

The stored forms of what a scene is set up with.  Settings may leave out any field, which
then has its standard value; everything else is stored whole.
-/

namespace ZeroSet

/-! ## Names -/

/-- The name of a mode in stored forms. -/
def Mode.tag : Mode → String
  | .real => "Real"
  | .vector => "Vector"
  | .interval => "Interval"

instance : Stored Mode where
  encode mode := .ofString mode.tag
  decode depth j := do
    let name ← j.bareName? depth
    [Mode.real, .vector, .interval].find? (·.tag = name)

/-- The name of a way to intersect spheres. -/
def SphereMethod.tag : SphereMethod → String
  | .quadratic => "Quadratic"
  | .algebraic => "Algebraic"

/-- The way to intersect spheres with a given name. -/
def SphereMethod.ofTag? (tag : String) : Option SphereMethod :=
  [SphereMethod.quadratic, .algebraic].find? (·.tag = tag)

instance : Stored SphereMethod where
  encode method := .ofString method.tag
  decode depth j := do
    let name ← j.bareName? depth
    SphereMethod.ofTag? name

/-- Numbers of shapes fit sixty-four bits. -/
instance : Stored ShapeId where
  encode id := .ofNat id.number
  decode _ j := (j.asNatural? (twoPow 64 - 1)).map ShapeId.mk

variable {K : Type} [Scalar K] [Decimal K]

/-! ## Triples -/

/-- A triple is an array of exactly three numbers. -/
instance : Stored (Vec3 K) where
  encode v := .array (v.toList.map .ofScalar)
  decode
    | _ + 1, .array [x, y, z] => do
      let x ← x.asScalar?
      let y ← y.asScalar?
      let z ← z.asScalar?
      return ⟨x, y, z⟩
    | _, _ => none

/-! ## Settings -/

namespace Settings

/-- The largest number of refining steps that can be stored. -/
def maxNewtonSteps : Nat := twoPow 32 - 1

/-- The value of a field, or the standard one if the field is left out. -/
def orStandard {α : Type} (read : Json → Option α) (standard : α) : Option Json → Option α
  | none => some standard
  | some j => read j

instance : Stored (Settings K) where
  encode s := .record
    [("max_distance", .ofScalar s.maxDistance), ("root_tolerance", .ofScalar s.rootTolerance),
      ("epsilon", .ofScalar s.epsilon), ("newton_steps", .ofNat s.newtonSteps)]
  decode
    | 0, _ => none
    | _ + 1, j => do
      match ← j.partialFields? ["max_distance", "root_tolerance", "epsilon", "newton_steps"] with
      | [far, tolerance, epsilon, steps] => do
        let usual : Settings K := standard
        let far ← orStandard Json.asScalar? usual.maxDistance far
        let tolerance ← orStandard Json.asScalar? usual.rootTolerance tolerance
        let epsilon ← orStandard Json.asScalar? usual.epsilon epsilon
        let steps ← orStandard (Json.asNatural? maxNewtonSteps) usual.newtonSteps steps
        return ⟨far, tolerance, epsilon, steps⟩
      | _ => none

end Settings

/-! ## Materials and lights -/

instance : Stored (Material K) where
  encode
    | .ambient color => .choice "Ambient" (.record [("color", Stored.encode color)])
    | .phong ambient diffuse specular exponent =>
      .choice "Phong" (.record
        [("ambient", Stored.encode ambient), ("diffuse", Stored.encode diffuse),
          ("specular", Stored.encode specular), ("exponent", .ofScalar exponent)])
  decode
    | depth + 2, j =>
      match j.alternative? with
      | some ("Ambient", payload) => do
        let color ← payload.field? "color"
        let color ← Stored.decode depth color
        return .ambient color
      | some ("Phong", payload) => do
        match ← payload.fields? ["ambient", "diffuse", "specular", "exponent"] with
        | [ambient, diffuse, specular, exponent] => do
          let ambient ← Stored.decode depth ambient
          let diffuse ← Stored.decode depth diffuse
          let specular ← Stored.decode depth specular
          let exponent ← exponent.asScalar?
          return .phong ambient diffuse specular exponent
        | _ => none
      | _ => none
    | _, _ => none

instance : Stored (Light K) where
  encode light := .record
    [("position", Stored.encode light.position), ("color", Stored.encode light.color)]
  decode
    | 0, _ => none
    | depth + 1, j => do
      let (position, color) ← j.twoFields? "position" "color"
      let position ← Stored.decode depth position
      let color ← Stored.decode depth color
      return ⟨position, color⟩

end ZeroSet
