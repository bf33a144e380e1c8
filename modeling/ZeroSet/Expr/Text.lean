import ZeroSet.Expr.Basic
import ZeroSet.Decimal.Numeral

/-!
# Formulas as text

Expressions are written in infix notation with as few parentheses as possible.  Each
node binds with a certain strength, each operand position asks for a least strength, and
an operand that binds more loosely is put in parentheses.

Sums and products associate to the left, powers to the right; a negative literal binds
like a negation.
-/

namespace ZeroSet

/-- How tightly a node holds together. -/
inductive Strength where
  /-- Sums and differences. -/
  | sum
  /-- Products and quotients. -/
  | product
  /-- Negations and negative literals. -/
  | sign
  /-- Powers. -/
  | power
  /-- Everything that needs no parentheses anywhere. -/
  | atom
deriving DecidableEq

/-- The place of a strength among the others, loosest first. -/
def Strength.rank : Strength → Nat
  | sum => 0
  | product => 1
  | sign => 2
  | power => 3
  | atom => 4

namespace BinOp

/-- The sign of an operator between its operands. -/
def symbol : BinOp → String
  | add => " + "
  | sub => " - "
  | mul => " * "
  | div => " / "

/-- The strength of an operator, which its left operand must have too. -/
def strength : BinOp → Strength
  | add | sub => .sum
  | mul | div => .product

/-- The strength that the right operand must have. -/
def rightStrength : BinOp → Strength
  | add | sub => .product
  | mul => .sign
  | div => .power

end BinOp

variable {K : Type}

/-- The name of a built-in function, its parameter included. -/
def Builtin.name [Decimal K] : Builtin K → String
  | .exp => "exp"
  | .ln => "ln"
  | .log base => "log_" ++ Decimal.text base
  | .sqrt => "sqrt"
  | .root degree => "root_" ++ Decimal.text degree

/-- The name of a function; a composition is read from right to left. -/
def Func.name [Decimal K] : Func K → String
  | .custom name _ _ => name
  | .comp inner outer => outer.name ++ "∘" ++ inner.name
  | .builtin b => b.name

/-- How tightly an expression holds together. -/
def Expr.strength [Scalar K] : Expr K → Strength
  | .binary op _ _ => op.strength
  | .neg _ => .sign
  | .num v => if v < 0 then .sign else .atom
  | .power _ _ => .power
  | _ => .atom

/-- A text in parentheses if what it stands for binds more loosely than `least`. -/
def parenthesize (least actual : Strength) (text : String) : String :=
  if actual.rank < least.rank then "(" ++ text ++ ")" else text

mutual

/-- The formula of an expression. -/
def Expr.text [Scalar K] [Decimal K] : Expr K → String
  | .num v => Decimal.text v
  | .var name => name
  | .vec items => "(" ++ Expr.textList items ++ ")"
  | .interval lo hi => "[" ++ lo.text ++ ", " ++ hi.text ++ "]"
  | .neg a => "-" ++ parenthesize .power a.strength a.text
  | .binary op a b =>
    parenthesize op.strength a.strength a.text ++ op.symbol ++
      parenthesize op.rightStrength b.strength b.text
  | .power a b =>
    parenthesize .atom a.strength a.text ++ "^" ++ parenthesize .power b.strength b.text
  | .apply f args => f.name ++ "(" ++ Expr.textList args ++ ")"

/-- Formulas with commas between them. -/
def Expr.textList [Scalar K] [Decimal K] : List (Expr K) → String
  | [] => ""
  | [e] => e.text
  | e :: es => e.text ++ ", " ++ Expr.textList es

end

end ZeroSet
