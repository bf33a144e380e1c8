import ZeroSet.RootSearch.Settings
import ZeroSet.Evaluation

/-!
# Branch and prune

The nearest root of an expression in one variable, by halving intervals.  A cell is an
interval for the variable.  If the enclosure of the expression over a cell excludes zero,
the cell is pruned; a cell shorter than the tolerance is a leaf; every other cell is halved,
and the upper half is searched only if the lower half has nothing to offer.  A leaf that
starts too near is passed over.

* `Bisection.ofSettings` — a search with checked settings.
* `Bisection.findLeafWithin` — the first leaf in a window, with the effort it took.
* `Bisection.findRoot` — the lower end of the first leaf.
-/

namespace ZeroSet

/-- What a search took. -/
structure Effort where
  /-- How many cells were examined. -/
  evaluations : Nat
  /-- How many cells were discarded because no root lies in them. -/
  pruned : Nat
  /-- How many cells were short enough. -/
  leaves : Nat
  /-- The largest number of halvings that led to a cell. -/
  maxDepth : Nat
deriving DecidableEq

namespace Effort

/-- No effort yet. -/
def zero : Effort := ⟨0, 0, 0, 0⟩

/-- One more cell examined, after `depth` halvings. -/
def examine (depth : Nat) (e : Effort) : Effort :=
  { e with evaluations := e.evaluations + 1, maxDepth := max e.maxDepth depth }

/-- One more cell pruned. -/
def prune (e : Effort) : Effort := { e with pruned := e.pruned + 1 }

/-- One more leaf. -/
def leaf (e : Effort) : Effort := { e with leaves := e.leaves + 1 }

end Effort

/-- A root search; built by `Bisection.ofSettings`, which checks the limits. -/
structure Bisection (K : Type) where
  /-- Roots are searched from zero to here. -/
  maxDistance : K
  /-- A cell shorter than this is not halved any more. -/
  rootTolerance : K
  /-- Leaves that start up to here are passed over. -/
  epsilon : K

/-- Searching keeps count of the effort and evaluates. -/
abbrev Search (K α : Type) := StateT Effort (ExceptT (EvalError K) (StateM (Env K))) α

namespace Bisection

variable {K : Type} [Scalar K]

/-- The search with the given settings, if they are usable. -/
def ofSettings (s : Settings K) : Except (EvalError K) (Bisection K) := do
  s.check
  return ⟨s.maxDistance, s.rootTolerance, s.epsilon⟩

/-- The distance that stands for no root. -/
def noRoot (b : Bisection K) : K := b.maxDistance + 1

/-- The enclosure of `g` while a variable ranges over a cell. -/
def enclose (g : Expr K) (name : String) (cell : Interval K) : Evaluation K (Interval K) :=
  .within [(name, .intervalOf cell.lo cell.hi)] g.evaluateInterval

/-- Counts a leaf, and passes it over if it starts too near. -/
def accept (b : Bisection K) (cell : Interval K) : Search K (Option (Interval K)) := do
  modify Effort.leaf
  return if b.epsilon < cell.lo then some cell else none

/-- The first acceptable leaf in a cell that `depth` halvings led to.  At most `budget` more
halvings are made, after which a cell counts as short enough. -/
def search (b : Bisection K) (g : Expr K) (name : String) :
    (budget depth : Nat) → Interval K → Search K (Option (Interval K))
  | budget, depth, cell => do
    modify (·.examine depth)
    let enclosure ← enclose g name cell
    if enclosure.containsZero then
      match budget with
      | 0 => b.accept cell
      | budget + 1 =>
        if cell.length < b.rootTolerance then b.accept cell
        else
          match ← b.search g name budget (depth + 1) cell.lowerHalf with
          | some leaf => return some leaf
          | none => b.search g name budget (depth + 1) cell.upperHalf
    else do
      modify Effort.prune
      return none

/-- The first acceptable leaf between zero and `far`, which is cut to the far end of the
search, and the effort it took.  Nothing is searched if the window ends too near. -/
def findLeafWithin (b : Bisection K) (g : Expr K) (name : String) (far : K) :
    Evaluation K (Option (Interval K) × Effort) :=
  let far := Scalar.lesser far b.maxDistance
  if b.epsilon < far then
    (b.search g name (Scalar.halvings far b.rootTolerance) 0 ⟨0, far⟩).run .zero
  else return (none, .zero)

/-- The first acceptable leaf. -/
def findLeaf (b : Bisection K) (g : Expr K) (name : String) :
    Evaluation K (Option (Interval K) × Effort) := b.findLeafWithin g name b.maxDistance

/-- The lower end of the first acceptable leaf, or the distance that stands for no root. -/
def findRoot (b : Bisection K) (g : Expr K) (name : String) : Evaluation K (K × Effort) := do
  let (leaf, effort) ← b.findLeaf g name
  return ((leaf.map Interval.lo).getD b.noRoot, effort)

end Bisection

end ZeroSet
