import ZeroSet.Space
import ZeroSet.Expr.Text

/-!
# Errors

Everything that can go wrong in building or evaluating, as causes.  The wording is in one
place: `EvalError.message` for the errors, `Reason.message` for what is wrong with a
construction.  A ray that hits nothing is not an error.
-/

namespace ZeroSet

/-- What an evaluation mode does not support. -/
inductive Operation (K : Type) where
  /-- A real literal. -/
  | number
  /-- A vector literal. -/
  | vector
  /-- An interval literal. -/
  | interval
  /-- A power. -/
  | power
  /-- A built-in function. -/
  | builtin (b : Builtin K)
  /-- A vector with a number of components that no vector has. -/
  | arity (n : Nat)

/-- The limits of a search that have to be positive. -/
inductive Limit where
  /-- The far end of the search. -/
  | maxDistance
  /-- The length below which a cell is not halved. -/
  | rootTolerance
  /-- The distance up to which roots are ignored. -/
  | epsilon
deriving DecidableEq

/-- Why something could not be built. -/
inductive Reason (K : Type) where
  /-- The bounds of an interval are not in order. -/
  | boundsOutOfOrder (lo hi : K)
  /-- A bare literal is negative or not a number. -/
  | negativeLiteral (value : K)
  /-- No logarithm has this base. -/
  | logBase (base : K)
  /-- No root has degree zero. -/
  | rootDegree
  /-- A parameter name occurs twice. -/
  | repeatedParameter (function : String)
  /-- A function takes no parameter. -/
  | noParameters (function : String)
  /-- A function has fewer parameters than asked for. -/
  | missingParameter (function : String) (index : Nat)
  /-- A limit is not a positive real. -/
  | limitNotPositive (limit : Limit) (value : K)
  /-- The tolerance is not below the far end of the search. -/
  | toleranceTooWide (tolerance maxDistance : K)
  /-- A radius is not a positive real. -/
  | sphereRadius (radius : K)
  /-- A normal has no direction. -/
  | planeNormal (normal : Vec3 K)
  /-- There are only three axes. -/
  | axisIndex (index : Nat)
  /-- The extent of a rod is not positive. -/
  | rodExtent (length thickness : K)
  /-- The guard of a scene is not a positive real. -/
  | sceneGuard (epsilon : K)
  /-- A field mentions names that are not coordinates. -/
  | strayNames (names : List String)
  /-- Shading was asked for where nothing was hit. -/
  | nothingHit

/-- What can go wrong. -/
inductive EvalError (K : Type) where
  /-- A variable has no binding. -/
  | unboundVariable (name : String)
  /-- The divisor is zero, or an interval around zero. -/
  | divisionByZero
  /-- The mode does not support the operation. -/
  | unimplemented (operation : Operation K) (mode : Mode)
  /-- The binding of a variable refers to the variable itself. -/
  | cyclicBinding (name : String)
  /-- Something was rejected before any ray was traced. -/
  | invalidConstruction (reason : Reason K)
  /-- Two sizes that have to agree do not. -/
  | dimensionMismatch (left right : Nat)
  /-- A value of one kind was needed and one of another kind was found. -/
  | typeMismatch (expected found : Mode)

variable {K : Type} [Decimal K]

/-- The name of an operation in messages. -/
def Operation.name : Operation K → String
  | .number => "number literal"
  | .vector => "vector literal"
  | .interval => "interval literal"
  | .power => "power"
  | .builtin b => b.name
  | .arity n => "vector of arity " ++ Nat.repr n

/-- The name of a limit in messages and in stored settings. -/
def Limit.name : Limit → String
  | .maxDistance => "max_distance"
  | .rootTolerance => "root_tolerance"
  | .epsilon => "epsilon"

/-- A triple in brackets. -/
def Vec3.text (v : Vec3 K) : String :=
  "[" ++ ", ".intercalate (v.toList.map Decimal.text) ++ "]"

/-- What is wrong with a construction, in words. -/
def Reason.message : Reason K → String
  | .boundsOutOfOrder lo hi =>
    "interval bounds out of order: [" ++ Decimal.text lo ++ ", " ++ Decimal.text hi ++ "]"
  | .negativeLiteral v =>
    "numeric literal " ++ Decimal.text v ++ " must be non-negative; use unary minus"
  | .logBase base => "logarithm base " ++ Decimal.text base ++ " is not valid"
  | .rootDegree => "root degree must be non-zero"
  | .repeatedParameter f => "function `" ++ f ++ "` repeats a parameter name"
  | .noParameters f => "function `" ++ f ++ "` needs at least one parameter"
  | .missingParameter f i => "`" ++ f ++ "` has no parameter " ++ Nat.repr i
  | .limitNotPositive limit v =>
    limit.name ++ " must be a positive real, got " ++ Decimal.text v
  | .toleranceTooWide tolerance far =>
    "root_tolerance " ++ Decimal.text tolerance ++ " must be smaller than max_distance " ++
      Decimal.text far
  | .sphereRadius r => "sphere radius must be positive, got " ++ Decimal.text r
  | .planeNormal n => "plane normal " ++ n.text ++ " cannot be normalized"
  | .axisIndex i => "axis index " ++ Nat.repr i ++ " out of range"
  | .rodExtent length thickness =>
    "rod length " ++ Decimal.text length ++ " and thickness " ++ Decimal.text thickness ++
      " must be positive"
  | .sceneGuard e => "scene epsilon must be positive, got " ++ Decimal.text e
  | .strayNames names =>
    "implicit field may only use x, y and z, found " ++ ", ".intercalate names
  | .nothingHit => "shader requested for an intersection that missed"

/-- What went wrong, in words. -/
def EvalError.message : EvalError K → String
  | .unboundVariable name => "unbound variable `" ++ name ++ "`"
  | .divisionByZero => "division by zero"
  | .unimplemented operation mode =>
    operation.name ++ " is not implemented in " ++ mode.name ++ " mode"
  | .cyclicBinding name =>
    "variable `" ++ name ++ "` is bound to an expression that refers to itself"
  | .invalidConstruction reason => "invalid construction: " ++ reason.message
  | .dimensionMismatch left right =>
    "dimension mismatch: " ++ Nat.repr left ++ " vs " ++ Nat.repr right
  | .typeMismatch expected found =>
    "type mismatch: expected " ++ expected.kind ++ ", found " ++ found.kind

end ZeroSet
