import ZeroSet.Error

/-!
# Settings of a root search

How far to look, how closely, and what counts as too near.  `Settings.check` accepts the
settings a search can use; the far end plus one stands for "no root".
-/

namespace ZeroSet

/-- Hits nearer than this are ignored unless something else is asked for. -/
def defaultEpsilon {K : Type} [Scalar K] : K := 1e-6

/-- The limits of a root search and of the refinement after it. -/
structure Settings (K : Type) where
  /-- Roots are searched from zero to here. -/
  maxDistance : K
  /-- A cell shorter than this is not halved any more. -/
  rootTolerance : K
  /-- Roots up to here are ignored. -/
  epsilon : K
  /-- How many refining steps follow a search. -/
  newtonSteps : Nat

namespace Settings

variable {K : Type} [Scalar K]

/-- The settings where nothing else is asked for. -/
def standard : Settings K := ⟨100.0, 1e-3, defaultEpsilon, 0⟩

/-- A finer search, with refinement. -/
def highQuality : Settings K := ⟨100.0, 1e-5, defaultEpsilon, 4⟩

/-- A shorter and coarser search. -/
def fast : Settings K := ⟨50.0, 1e-2, defaultEpsilon, 0⟩

/-- Requires a limit to be a positive real. -/
def checkLimit (limit : Limit) (value : K) : Except (EvalError K) Unit :=
  if Scalar.isFinite value && 0 < value then .ok ()
  else .error (.invalidConstruction (.limitNotPositive limit value))

/-- Requires every limit to be a positive real and the tolerance to be below the far end. -/
def check (s : Settings K) : Except (EvalError K) Unit := do
  checkLimit .maxDistance s.maxDistance
  checkLimit .rootTolerance s.rootTolerance
  checkLimit .epsilon s.epsilon
  if s.maxDistance ≤ s.rootTolerance then
    throw (.invalidConstruction (.toleranceTooWide s.rootTolerance s.maxDistance))

/-- The distance that stands for no root; it is larger than that of any root. -/
def noRoot (s : Settings K) : K := s.maxDistance + 1

end Settings

end ZeroSet
