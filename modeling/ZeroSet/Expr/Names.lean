import ZeroSet.Expr.Basic

/-!
# Free names

The names an expression takes from its surroundings.  A function hides its parameters
inside its own body; the other names of the body stay free wherever it is applied.

* `Expr.freeNames` — the free names in order of occurrence, repeated as often as they occur.
* `Expr.distinctNames` — each free name once, in the order of their code points.
* `mem_distinctNames` — the two hold the same names.
-/

namespace ZeroSet

variable {K : Type}

mutual

/-- The free names of an expression in order of occurrence. -/
def Expr.freeNames : Expr K → List String
  | .num _ => []
  | .var name => [name]
  | .vec items => Expr.freeNamesList items
  | .interval lo hi => lo.freeNames ++ hi.freeNames
  | .neg a => a.freeNames
  | .binary _ a b => a.freeNames ++ b.freeNames
  | .power a b => a.freeNames ++ b.freeNames
  | .apply f args => f.freeNames ++ Expr.freeNamesList args

/-- The free names of a list of expressions. -/
def Expr.freeNamesList : List (Expr K) → List String
  | [] => []
  | e :: es => e.freeNames ++ Expr.freeNamesList es

/-- The names a function body takes from outside. -/
def Func.freeNames : Func K → List String
  | .custom _ params body => body.freeNames.filter (· ∉ params)
  | .comp inner outer => inner.freeNames ++ outer.freeNames
  | .builtin _ => []

end

/-- A name put in its place in a list in order, unless it is there already. -/
def insertName (name : String) : List String → List String
  | [] => [name]
  | n :: ns =>
    if name < n then name :: n :: ns
    else if name = n then n :: ns
    else n :: insertName name ns

theorem mem_insertName {name m : String} {ns : List String} :
    m ∈ insertName name ns ↔ m = name ∨ m ∈ ns := by
  induction ns with
  | nil => simp [insertName]
  | cons n ns ih =>
    rw [insertName]
    split
    · simp
    · split
      · simp_all
      · simp only [List.mem_cons, ih]
        exact or_left_comm

/-- The names of a list, each once and in order. -/
def sortNames (names : List String) : List String := names.foldr insertName []

theorem mem_sortNames {names : List String} {m : String} : m ∈ sortNames names ↔ m ∈ names := by
  induction names with
  | nil => simp [sortNames]
  | cons n ns ih =>
    show m ∈ insertName n (sortNames ns) ↔ _
    rw [mem_insertName, ih, List.mem_cons]

namespace Expr

/-- The free names of an expression, each once, in the order of their code points. -/
def distinctNames (e : Expr K) : List String := sortNames e.freeNames

/-- Whether a name is free in the expression. -/
def dependsOn (e : Expr K) (name : String) : Bool := e.freeNames.contains name

/-- Whether no name is free in the expression. -/
def isConstant (e : Expr K) : Bool := e.freeNames.isEmpty

theorem mem_distinctNames {e : Expr K} {name : String} :
    name ∈ e.distinctNames ↔ name ∈ e.freeNames := mem_sortNames

theorem dependsOn_iff {e : Expr K} {name : String} :
    e.dependsOn name = true ↔ name ∈ e.freeNames := by
  simp [dependsOn]

theorem not_dependsOn_iff {e : Expr K} {name : String} :
    (!e.dependsOn name) = true ↔ name ∉ e.freeNames := by
  simp [dependsOn]

theorem not_not_dependsOn {e : Expr K} {name : String} (h : name ∈ e.freeNames) :
    ¬(!e.dependsOn name) = true :=
  fun hnot => not_dependsOn_iff.1 hnot h

end Expr

end ZeroSet
