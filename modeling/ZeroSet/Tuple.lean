import ZeroSet.Error

/-!
# Tuples

The values of vector mode: one to four scalars.  Sums and differences need the same number
of components on both sides.  In a product either side, and in a quotient the divisor, may
have a single component, which then applies to every component of the other side.
-/

namespace ZeroSet

/-- One to four scalars. -/
structure Tuple (K : Type) where
  /-- The components in order. -/
  components : List K
  /-- There is at least one component. -/
  length_pos : 1 ≤ components.length
  /-- There are at most four components. -/
  length_le : components.length ≤ 4

namespace Tuple

variable {K : Type}

/-- The number of components. -/
def arity (t : Tuple K) : Nat := t.components.length

/-- The tuple of the given components, if there are one to four of them. -/
def ofList (components : List K) : Except (EvalError K) (Tuple K) :=
  if h : 1 ≤ components.length ∧ components.length ≤ 4 then .ok ⟨components, h.1, h.2⟩
  else .error (.unimplemented (.arity components.length) .vector)

/-- The triple, if there are three components. -/
def toVec3? (t : Tuple K) : Option (Vec3 K) :=
  match t.components with
  | [x, y, z] => some ⟨x, y, z⟩
  | _ => none

/-- The component, if there is only one. -/
def single? (t : Tuple K) : Option K :=
  match t.components with
  | [x] => some x
  | _ => none

/-- A function applied to every component. -/
def map (f : K → K) (t : Tuple K) : Tuple K :=
  { components := t.components.map f
    length_pos := by simpa using t.length_pos
    length_le := by simpa using t.length_le }

/-- A function applied to matching components of tuples of the same arity. -/
def zipWith (f : K → K → K) (t u : Tuple K) : Except (EvalError K) (Tuple K) :=
  if h : t.components.length = u.components.length then
    .ok
      { components := List.zipWith f t.components u.components
        length_pos := by
          have := t.length_pos
          rw [List.length_zipWith]
          omega
        length_le := by
          have := t.length_le
          rw [List.length_zipWith]
          omega }
  else .error (.dimensionMismatch t.arity u.arity)

variable [Scalar K]

/-- The product component by component; a single component scales the other side. -/
def times (t u : Tuple K) : Except (EvalError K) (Tuple K) :=
  match t.single?, u.single? with
  | some s, none => .ok (u.map (s * ·))
  | none, some s => .ok (t.map (· * s))
  | _, _ => t.zipWith (· * ·) u

/-- The quotient component by component; a single divisor applies to every component. -/
def divide (t u : Tuple K) : Except (EvalError K) (Tuple K) :=
  if u.components.any (· == 0) then .error .divisionByZero
  else
    match t.single?, u.single? with
    | none, some s => .ok (t.map (· / s))
    | _, _ => t.zipWith (· / ·) u

end Tuple

end ZeroSet
