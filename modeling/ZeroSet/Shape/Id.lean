import ZeroSet.Error

/-!
# Shape identifiers

Every shape gets a number from a supply when it is built, in the order of building.  A
shape that is refused before it gets its number uses none up.
-/

namespace ZeroSet

/-- The number of a shape. -/
structure ShapeId where
  /-- The number itself, counted from zero. -/
  number : Nat
deriving DecidableEq

/-- The number after a hash sign. -/
def ShapeId.text (id : ShapeId) : String := "#" ++ Nat.repr id.number

/-- A source of numbers for shapes. -/
structure IdSupply where
  /-- How many numbers have been issued, which is also the next one. -/
  issued : Nat

namespace IdSupply

/-- A supply that has issued nothing. -/
def fresh : IdSupply := ⟨0⟩

/-- Issues the next number. -/
def issue : StateM IdSupply ShapeId := fun supply =>
  (⟨supply.issued⟩, ⟨supply.issued + 1⟩)

end IdSupply

/-- Building a shape may fail, and may use up numbers either way. -/
abbrev Building (K α : Type) := ExceptT (EvalError K) (StateM IdSupply) α

end ZeroSet
