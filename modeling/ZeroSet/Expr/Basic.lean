import ZeroSet.Scalar
import ZeroSet.Mode

/-!
# Expressions and functions

Expressions are trees over numbers and named variables; functions are either written
by the user as a named body over parameters, or composed of two others, or built in.
The two types refer to each other, because an application node holds a function and the
body of a function is an expression.

* `Expr`, `Func`, `Builtin`, `BinOp` — the trees.
* `Expr.beq`, `Func.beq` — equality of trees, comparing numbers as numbers do: a tree that
  holds a value that is not a number differs from itself.
* `Expr.size` — the number of nodes, not counting the bodies of applied functions.
-/

namespace ZeroSet

/-- The functions of one argument that need no definition. -/
inductive Builtin (K : Type) where
  /-- The exponential function. -/
  | exp
  /-- The natural logarithm. -/
  | ln
  /-- The logarithm to a base. -/
  | log (base : K)
  /-- The square root. -/
  | sqrt
  /-- The root of a degree. -/
  | root (degree : K)

/-- The arithmetic operators with two operands. -/
inductive BinOp where
  /-- Sum. -/
  | add
  /-- Difference. -/
  | sub
  /-- Product. -/
  | mul
  /-- Quotient. -/
  | div
deriving DecidableEq

mutual

/-- An expression tree. -/
inductive Expr (K : Type) where
  /-- A real literal, of either sign. -/
  | num (value : K)
  /-- A variable, looked up by name. -/
  | var (name : String)
  /-- A vector literal. -/
  | vec (items : List (Expr K))
  /-- An interval literal with its bounds. -/
  | interval (lo hi : Expr K)
  /-- The negated operand. -/
  | neg (operand : Expr K)
  /-- Two operands under an arithmetic operator. -/
  | binary (op : BinOp) (left right : Expr K)
  /-- The power `base ^ exponent`. -/
  | power (base exponent : Expr K)
  /-- A function applied to arguments, one for each of its parameters. -/
  | apply (f : Func K) (args : List (Expr K))

/-- A function that expressions can apply. -/
inductive Func (K : Type) where
  /-- A body over named parameters; other names in the body keep their outer meaning. -/
  | custom (name : String) (params : List String) (body : Expr K)
  /-- First `inner`, then `outer` on what it returns. -/
  | comp (inner outer : Func K)
  /-- A function that needs no definition. -/
  | builtin (b : Builtin K)

end

namespace Expr

variable {K : Type}

instance : Add (Expr K) := ⟨.binary .add⟩
instance : Sub (Expr K) := ⟨.binary .sub⟩
instance : Mul (Expr K) := ⟨.binary .mul⟩
instance : Div (Expr K) := ⟨.binary .div⟩
instance : Neg (Expr K) := ⟨.neg⟩

/-- The interval literal with numbers for bounds. -/
def intervalOf (lo hi : K) : Expr K := .interval (.num lo) (.num hi)

/-- The exponential function applied to an argument. -/
def exp (arg : Expr K) : Expr K := .apply (.builtin .exp) [arg]

/-- The natural logarithm applied to an argument. -/
def ln (arg : Expr K) : Expr K := .apply (.builtin .ln) [arg]

/-- The square root applied to an argument. -/
def sqrt (arg : Expr K) : Expr K := .apply (.builtin .sqrt) [arg]

/-- The number, if the expression is a literal. -/
def asNumber? : Expr K → Option K
  | .num v => some v
  | _ => none

/-- The elements, if the expression is a vector literal. -/
def items? : Expr K → Option (List (Expr K))
  | .vec items => some items
  | _ => none

/-- Whether the expression is the literal `v`. -/
def isNumber [BEq K] (e : Expr K) (v : K) : Bool :=
  match e with
  | .num w => w == v
  | _ => false

end Expr

/-! ## Equality of trees -/

section

variable {K : Type} [BEq K]

/-- Built-ins are equal when their names and parameters are. -/
def Builtin.beq : Builtin K → Builtin K → Bool
  | .exp, .exp => true
  | .ln, .ln => true
  | .log b, .log c => b == c
  | .sqrt, .sqrt => true
  | .root d, .root e => d == e
  | _, _ => false

instance : BEq (Builtin K) := ⟨Builtin.beq⟩

mutual

/-- Whether two expressions are the same tree. -/
def Expr.beq : Expr K → Expr K → Bool
  | .num v, .num w => v == w
  | .var m, .var n => m == n
  | .vec as, .vec bs => Expr.beqList as bs
  | .interval a b, .interval c d => a.beq c && b.beq d
  | .neg a, .neg b => a.beq b
  | .binary o a b, .binary p c d => o == p && a.beq c && b.beq d
  | .power a b, .power c d => a.beq c && b.beq d
  | .apply f as, .apply g bs => f.beq g && Expr.beqList as bs
  | _, _ => false

/-- Whether two lists hold the same trees. -/
def Expr.beqList : List (Expr K) → List (Expr K) → Bool
  | [], [] => true
  | a :: as, b :: bs => a.beq b && Expr.beqList as bs
  | _, _ => false

/-- Whether two functions are the same tree, names of functions and parameters included. -/
def Func.beq : Func K → Func K → Bool
  | .custom m ps a, .custom n qs b => m == n && ps == qs && a.beq b
  | .comp f g, .comp h k => f.beq h && g.beq k
  | .builtin b, .builtin c => b == c
  | _, _ => false

end

instance : BEq (Expr K) := ⟨Expr.beq⟩
instance : BEq (Func K) := ⟨Func.beq⟩

end

/-! ## Size -/

section

variable {K : Type}

mutual

/-- The number of nodes; an applied function counts as part of its application. -/
def Expr.size : Expr K → Nat
  | .num _ => 1
  | .var _ => 1
  | .vec items => 1 + Expr.sizeList items
  | .interval lo hi => 1 + lo.size + hi.size
  | .neg a => 1 + a.size
  | .binary _ a b => 1 + a.size + b.size
  | .power a b => 1 + a.size + b.size
  | .apply _ args => 1 + Expr.sizeList args

/-- The number of nodes in a list of trees. -/
def Expr.sizeList : List (Expr K) → Nat
  | [] => 0
  | e :: es => e.size + Expr.sizeList es

end

end

end ZeroSet
