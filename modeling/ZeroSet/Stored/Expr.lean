import ZeroSet.Stored.Basic
import ZeroSet.Expr.Basic

/-!
# Stored expressions and functions

The stored forms of expressions and functions.  An operator is an alternative with its
operands as fields, and a function is one of its three kinds.  Nothing is checked beyond
the form: an application may have any number of arguments.
-/

namespace ZeroSet

variable {K : Type}

/-! ## Writing -/

/-- The name of an operator in stored forms. -/
def BinOp.tag : BinOp → String
  | .add => "Plus"
  | .sub => "Minus"
  | .mul => "Times"
  | .div => "Divide"

/-- The stored form of a built-in. -/
def Builtin.encode [Decimal K] : Builtin K → Json
  | .exp => .ofString "Exp"
  | .ln => .ofString "Ln"
  | .log base => .choice "Log" (.ofScalar base)
  | .sqrt => .ofString "Sqrt"
  | .root degree => .choice "Root" (.ofScalar degree)

mutual

/-- The stored form of an expression. -/
def Expr.encode [Decimal K] : Expr K → Json
  | .num v => .choice "Number" (.ofScalar v)
  | .var name => .choice "Variable" (.ofString name)
  | .vec items => .choice "Vector" (.array (Expr.encodeList items))
  | .interval lo hi => .choice "Interval" (.record [("min", lo.encode), ("max", hi.encode)])
  | .neg a => .choice "UnaryMinus" (.record [("operand", a.encode)])
  | .binary op a b => .choice op.tag (.record [("a", a.encode), ("b", b.encode)])
  | .power a b => .choice "Power" (.record [("base", a.encode), ("exponent", b.encode)])
  | .apply f args =>
    .choice "Apply" (.record [("function", f.encode), ("args", .array (Expr.encodeList args))])

/-- The stored forms of a list of expressions. -/
def Expr.encodeList [Decimal K] : List (Expr K) → List Json
  | [] => []
  | e :: es => e.encode :: Expr.encodeList es

/-- The stored form of a function. -/
def Func.encode [Decimal K] : Func K → Json
  | .custom name params body =>
    .choice "Custom" (.record
      [("name", .ofString name), ("params", .array (params.map .ofString)),
        ("body", body.encode)])
  | .comp inner outer =>
    .choice "Composite" (.record [("inner", inner.encode), ("outer", outer.encode)])
  | .builtin b => .choice "Default" b.encode

end

/-! ## Reading -/

/-- The operator with a given name in stored forms. -/
def BinOp.ofTag? (tag : String) : Option BinOp :=
  [BinOp.add, .sub, .mul, .div].find? (·.tag = tag)

variable [Scalar K] [Decimal K]

/-- The built-in of a stored form. -/
def Builtin.decode (depth : Nat) (j : Json) : Option (Builtin K) :=
  match j.bareName? depth with
  | some "Exp" => some .exp
  | some "Ln" => some .ln
  | some "Sqrt" => some .sqrt
  | _ =>
    match depth, j.alternative? with
    | _ + 1, some ("Log", base) => base.asScalar?.map .log
    | _ + 1, some ("Root", degree) => degree.asScalar?.map .root
    | _, _ => none

mutual

/-- The expression of a stored form. -/
def Expr.decode : (depth : Nat) → Json → Option (Expr K)
  | 0, _ => none
  | depth + 1, j =>
    match depth, j.alternative? with
    | _, some ("Number", v) => v.asScalar?.map .num
    | _, some ("Variable", name) => name.asString?.map .var
    | depth + 1, some ("Vector", items) => do
      let items ← items.asItems?
      let items ← items.mapM (Expr.decode depth)
      return .vec items
    | depth + 1, some ("Interval", bounds) => do
      let (lo, hi) ← bounds.twoFields? "min" "max"
      let lo ← Expr.decode depth lo
      let hi ← Expr.decode depth hi
      return .interval lo hi
    | depth + 1, some ("UnaryMinus", operand) => do
      let a ← operand.field? "operand"
      let a ← Expr.decode depth a
      return .neg a
    | depth + 1, some ("Power", operands) => do
      let (a, b) ← operands.twoFields? "base" "exponent"
      let a ← Expr.decode depth a
      let b ← Expr.decode depth b
      return .power a b
    | depth + 1, some ("Apply", application) => do
      let (f, args) ← application.twoFields? "function" "args"
      let f ← Func.decode depth f
      let args ← Expr.decodeItems depth args
      return .apply f args
    | depth + 1, some (tag, operands) => do
      let op ← BinOp.ofTag? tag
      let (a, b) ← operands.twoFields? "a" "b"
      let a ← Expr.decode depth a
      let b ← Expr.decode depth b
      return .binary op a b
    | _, _ => none

/-- The expressions of an array of stored forms. -/
def Expr.decodeItems : (depth : Nat) → Json → Option (List (Expr K))
  | depth + 1, .array items => items.mapM (Expr.decode depth)
  | _, _ => none

/-- The function of a stored form. -/
def Func.decode : (depth : Nat) → Json → Option (Func K)
  | 0, _ => none
  | depth + 1, j =>
    match depth, j.alternative? with
    | depth, some ("Default", b) => (Builtin.decode depth b).map .builtin
    | depth + 1, some ("Custom", definition) => do
      match ← definition.fields? ["name", "params", "body"] with
      | [name, params, body] => do
        let name ← name.asString?
        let params ← if depth = 0 then none else params.asItems?
        let params ← params.mapM Json.asString?
        let body ← Expr.decode depth body
        return .custom name params body
      | _ => none
    | depth + 1, some ("Composite", parts) => do
      let (inner, outer) ← parts.twoFields? "inner" "outer"
      let inner ← Func.decode depth inner
      let outer ← Func.decode depth outer
      return .comp inner outer
    | _, _ => none

end

instance : Stored (Expr K) := ⟨Expr.encode, Expr.decode⟩
instance : Stored (Func K) := ⟨Func.encode, Func.decode⟩

end ZeroSet
