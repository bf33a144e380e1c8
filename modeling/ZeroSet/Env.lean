import ZeroSet.Error

/-!
# Environments

Which expression each variable stands for, and which variables are being resolved.  A name
whose binding is being evaluated may not be reached again; a scope that binds a name anew
may use it freely and puts everything back when it ends.

* `Bindings` — a finite map from names to expressions in order of first binding.
* `Env.within` — runs a state transformer with further names bound and restores them.
* `Evaluation` — computations that may fail and that thread an environment.
* `Evaluation.resolving` — evaluates the binding of a variable under the guard against
  cycles.
-/

namespace ZeroSet

/-! ## Bindings -/

/-- Names with the expressions they are bound to, each name once. -/
structure Bindings (K : Type) where
  /-- The names in order of first binding. -/
  entries : List (String × Expr K)
  /-- No name is bound twice. -/
  distinct : (entries.map Prod.fst).Nodup

namespace Bindings

variable {K : Type}

/-- No bindings. -/
def empty : Bindings K := ⟨[], List.nodup_nil⟩

/-- The expression bound to a name. -/
def get? (b : Bindings K) (name : String) : Option (Expr K) :=
  (b.entries.find? (·.1 = name)).map Prod.snd

/-- Whether a name is bound. -/
def contains (b : Bindings K) (name : String) : Bool := (b.get? name).isSome

/-- The number of bound names. -/
def size (b : Bindings K) : Nat := b.entries.length

/-- An entry replaced where it stands, or added at the end. -/
def putEntry (name : String) (e : Expr K) : List (String × Expr K) → List (String × Expr K)
  | [] => [(name, e)]
  | entry :: rest =>
    if entry.1 = name then (name, e) :: rest else entry :: putEntry name e rest

theorem mem_putEntry {name n : String} {e : Expr K} {entries : List (String × Expr K)} :
    n ∈ (putEntry name e entries).map Prod.fst ↔ n = name ∨ n ∈ entries.map Prod.fst := by
  induction entries with
  | nil => simp [putEntry]
  | cons entry rest ih =>
    rw [putEntry]
    split
    · rename_i h
      simp [h]
    · rw [List.map_cons, List.mem_cons, ih, List.map_cons, List.mem_cons]
      exact or_left_comm

theorem nodup_putEntry {name : String} {e : Expr K} {entries : List (String × Expr K)}
    (h : (entries.map Prod.fst).Nodup) : ((putEntry name e entries).map Prod.fst).Nodup := by
  induction entries with
  | nil => simp [putEntry]
  | cons entry rest ih =>
    rw [List.map_cons, List.nodup_cons] at h
    rw [putEntry]
    split
    · rename_i heq
      rw [List.map_cons, List.nodup_cons]
      exact ⟨heq ▸ h.1, h.2⟩
    · rename_i hne
      rw [List.map_cons, List.nodup_cons, mem_putEntry]
      exact ⟨fun hmem => hmem.elim hne h.1, ih h.2⟩

/-- Binds a name, replacing what it was bound to. -/
def put (b : Bindings K) (name : String) (e : Expr K) : Bindings K :=
  ⟨putEntry name e b.entries, nodup_putEntry b.distinct⟩

/-- Removes the binding of a name. -/
def erase (b : Bindings K) (name : String) : Bindings K :=
  { entries := b.entries.filter (·.1 ≠ name)
    distinct := b.distinct.sublist ((List.filter_sublist).map Prod.fst) }

/-- Binds a name, or removes its binding if there is nothing to bind it to. -/
def assign (b : Bindings K) (name : String) : Option (Expr K) → Bindings K
  | some e => b.put name e
  | none => b.erase name

/-- Binds the names of a list from the first to the last. -/
def putAll (b : Bindings K) (pairs : List (String × Expr K)) : Bindings K :=
  pairs.foldl (fun b p => b.put p.1 p.2) b

/-- What each name of a list stands for just before it is bound, from the first to the last. -/
def previous (b : Bindings K) : List (String × Expr K) → List (String × Option (Expr K))
  | [] => []
  | p :: ps => (p.1, b.get? p.1) :: (b.put p.1 p.2).previous ps

/-- Puts names back to what they stood for, from the last to the first. -/
def restore (b : Bindings K) (saved : List (String × Option (Expr K))) : Bindings K :=
  saved.foldr (fun s b => b.assign s.1 s.2) b

end Bindings

/-! ## Environments -/

/-- What names stand for, and which of them are being resolved. -/
structure Env (K : Type) where
  /-- The bindings. -/
  bindings : Bindings K
  /-- The names whose bindings are being evaluated, innermost first. -/
  resolving : List String

namespace Env

variable {K : Type}

/-- Nothing bound and nothing being resolved. -/
def empty : Env K := ⟨.empty, []⟩

/-- The environment with names bound from the first to the last. -/
def ofList (pairs : List (String × Expr K)) : Env K := ⟨Bindings.empty.putAll pairs, []⟩

/-- The expression bound to a name. -/
def get (env : Env K) (name : String) : Except (EvalError K) (Expr K) :=
  match env.bindings.get? name with
  | some e => .ok e
  | none => .error (.unboundVariable name)

/-- Binds a name and answers what it was bound to before. -/
def bind (name : String) (e : Expr K) : StateM (Env K) (Option (Expr K)) := fun env =>
  (env.bindings.get? name, { env with bindings := env.bindings.put name e })

/-- Removes the binding of a name and answers what it was bound to. -/
def unbind (name : String) : StateM (Env K) (Option (Expr K)) := fun env =>
  (env.bindings.get? name, { env with bindings := env.bindings.erase name })

/-- The environment inside a scope: the names of the scope are bound from the first to the
last and are no longer being resolved. -/
def enter (env : Env K) (pairs : List (String × Expr K)) : Env K :=
  { bindings := env.bindings.putAll pairs
    resolving := env.resolving.filter (· ∉ pairs.map Prod.fst) }

/-- The environment after a scope that left `inner`: what the names of the scope stood for before
each of them was bound is put back, and the same names as in `outer` are being resolved. -/
def leave (outer : Env K) (pairs : List (String × Expr K)) (inner : Env K) : Env K :=
  { bindings := inner.bindings.restore (outer.bindings.previous pairs)
    resolving := outer.resolving }

/-- Runs a state transformer in a scope of its own. -/
def within {α : Type} (pairs : List (String × Expr K)) (body : StateM (Env K) α) :
    StateM (Env K) α := fun env =>
  let result := body.run (env.enter pairs)
  (result.1, env.leave pairs result.2)

end Env

/-! ## Evaluations -/

/-- A computation that may fail and that threads an environment either way. -/
abbrev Evaluation (K α : Type) := ExceptT (EvalError K) (StateM (Env K)) α

namespace Evaluation

variable {K α : Type}

/-- Runs an evaluation in a scope of its own. -/
def within (pairs : List (String × Expr K)) (body : Evaluation K α) : Evaluation K α :=
  ExceptT.mk (Env.within pairs body.run)

/-- Hands the binding of a variable to `use`, while the variable counts as being resolved.
Fails if it is being resolved already or not bound. -/
def resolving (name : String) (use : Expr K → Evaluation K α) : Evaluation K α :=
  ExceptT.mk fun env =>
    if name ∈ env.resolving then (.error (.cyclicBinding name), env)
    else
      match env.bindings.get? name with
      | none => (.error (.unboundVariable name), env)
      | some e =>
        let result := (use e).run.run { env with resolving := name :: env.resolving }
        (result.1, { result.2 with resolving := result.2.resolving.tail })

end Evaluation

end ZeroSet
