import ZeroSet.Error

/-!
# Functions

Building functions and taking them apart: definitions by the user, compositions, the
components of a vector-valued function, and applications to arguments.

A composition is applied by feeding each component of the inner function, applied to the
arguments, to the outer one; `Func.expand` writes an application out in that way until no
composition is left at its root.
-/

namespace ZeroSet

variable {K : Type}

/-! ## Built-in functions -/

namespace Builtin

/-- The name of the single parameter of every built-in. -/
def param : String := "u"

variable [Scalar K]

/-- Rejects a base or degree that no function has. -/
def check : Builtin K → Except (EvalError K) Unit
  | .log base =>
    if 0 < base && !(base == 1) then .ok () else .error (.invalidConstruction (.logBase base))
  | .root degree =>
    if degree == 0 || Scalar.isNaN degree then .error (.invalidConstruction .rootDegree)
    else .ok ()
  | _ => .ok ()

/-- The value at a real argument. -/
def value : Builtin K → K → K
  | .exp, u => Scalar.exp u
  | .ln, u => Scalar.ln u
  | .log base, u => Scalar.ln u / Scalar.ln base
  | .sqrt, u => Scalar.sqrt u
  | .root degree, u => Scalar.pow u (1 / degree)

end Builtin

namespace Func

/-! ## Shape -/

/-- The parameter names in the order of the arguments. -/
def params : Func K → List String
  | .custom _ params _ => params
  | .comp inner _ => inner.params
  | .builtin _ => [Builtin.param]

/-- The number of arguments. -/
def arity (f : Func K) : Nat := f.params.length

/-- The number of components that the function returns. -/
def dim : Func K → Nat
  | .custom _ _ body => (body.items?.map List.length).getD 1
  | .comp _ outer => outer.dim
  | .builtin _ => 1

/-! ## Construction -/

/-- The function with a body over distinct parameters, at least one of them. -/
def define (name : String) (params : List String) (body : Expr K) :
    Except (EvalError K) (Func K) :=
  if ¬params.Nodup then .error (.invalidConstruction (.repeatedParameter name))
  else if params.isEmpty then .error (.invalidConstruction (.noParameters name))
  else .ok (.custom name params body)

/-- First `f`, then `outer`, which has to take as many arguments as `f` returns components. -/
def compose (f outer : Func K) : Except (EvalError K) (Func K) :=
  if outer.arity ≠ f.dim then .error (.dimensionMismatch f.dim outer.arity)
  else .ok (.comp f outer)

/-- The function that returns one component, counted from zero. -/
def component : Func K → Nat → Except (EvalError K) (Func K)
  | .custom name params body, index =>
    match body.items? with
    | some items =>
      match items[index]? with
      | some item => .ok (.custom (name ++ "[" ++ Nat.repr index ++ "]") params item)
      | none => .error (.dimensionMismatch (index + 1) items.length)
    | none =>
      if index = 0 then .ok (.custom name params body)
      else .error (.dimensionMismatch (index + 1) 1)
  | .comp inner outer, index => do
    let outer ← outer.component index
    return .comp inner outer
  | .builtin b, index =>
    if index = 0 then .ok (.builtin b) else .error (.dimensionMismatch (index + 1) 1)

/-! ## Application -/

variable [Scalar K]

/-- The application to as many arguments as there are parameters. -/
def apply (f : Func K) (args : List (Expr K)) : Except (EvalError K) (Expr K) :=
  if args.length ≠ f.arity then .error (.dimensionMismatch args.length f.arity)
  else
    match f with
    | .builtin b => do
      b.check
      return .apply f args
    | _ => .ok (.apply f args)

/-- Every component of the function applied to the same arguments. -/
def applyComponents (f : Func K) (args : List (Expr K)) : Except (EvalError K) (List (Expr K)) :=
  (List.range f.dim).mapM fun index => do
    let component ← f.component index
    component.apply args

/-- An application without a composition at its root. -/
def expand : Func K → List (Expr K) → Except (EvalError K) (Expr K)
  | .comp inner outer, args => do
    let intermediate ← inner.applyComponents args
    outer.expand intermediate
  | f, args => f.apply args

end Func

end ZeroSet
