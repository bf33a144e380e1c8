import ZeroSet.Proofs.NameErrors
import ZeroSet.Scalar.Binary64

/-!
# A mode yields values of its own kind

The operators and the functions that read a number, a tuple or an interval out of a value have a
branch for a value of another kind.  Inside a vector, an interval, a power or a built-in the mode
changes, and a call hands the values of its arguments on as literals; still no evaluation ever
gets to such a branch, however ill-formed the functions are that an expression applies.

* `EvalError.IsMismatch` — the error of a value of the wrong kind.
* `Expr.avoids_isMismatch` — no evaluation ends in it.
* `Expr.kind_of_value` — every value has the kind of the mode, and so nothing fails for want of it.
-/

namespace ZeroSet

variable {K : Type}

/-- The error of a value of the wrong kind. -/
def EvalError.IsMismatch : EvalError K → Prop
  | .typeMismatch _ _ => True
  | _ => False

theorem EvalError.IsMismatch.aboutMeaning {err : EvalError K} (h : err.IsMismatch) :
    err.AboutMeaning := by
  cases err with
  | typeMismatch expected found => trivial
  | _ => exact h.elim

namespace Expr

variable [Scalar K]

/-- If variables never lead to a value of the wrong kind, no expression does.  Nothing has to be
known of the environment, nor of the names that are looked up in it. -/
theorem avoids_isMismatch_of_variables {depth : Nat}
    (hvar : ∀ name mode env,
      Avoids EvalError.IsMismatch ((var name : Expr K).outcome mode depth env))
    (e : Expr K) (mode : Mode) (env : Env K) :
    Avoids EvalError.IsMismatch (e.outcome mode depth env) :=
  avoids_of_variables (P := fun _ _ => True) (S := fun _ => True) (fun _ h => h.aboutMeaning)
    (fun _ _ => trivial) (fun mode _ _ => hvar _ mode _) e mode trivial fun _ _ => trivial

/-- No expression evaluates to a value of the wrong kind somewhere on the way. -/
theorem avoids_isMismatch (e : Expr K) (mode : Mode) (depth : Nat) (env : Env K) :
    Avoids EvalError.IsMismatch (e.outcome mode depth env) := by
  induction depth generalizing e mode env with
  | zero =>
    refine avoids_isMismatch_of_variables ?_ e mode env
    intro name mode env
    rw [outcome_var_zero_eq]
    split
    · exact .error id
    · cases env.bindings.get? name with
      | none => exact .error id
      | some bound => exact .error id
  | succ depth ih =>
    refine avoids_isMismatch_of_variables ?_ e mode env
    intro name mode env
    rw [outcome_var]
    split
    · exact .error id
    · cases env.bindings.get? name with
      | none => exact .error id
      | some bound => exact ih bound mode _

/-- A value has the kind of the mode it was evaluated in, and neither evaluating nor reading the
number, the tuple or the interval out of the value fails for its kind. -/
theorem kind_of_value (e : Expr K) (env : Env K) :
    (∀ mode v, (e.evaluate mode).value env = .ok v → v.mode = mode) ∧
      (∀ mode, Avoids EvalError.IsMismatch ((e.evaluate mode).value env)) ∧
      Avoids EvalError.IsMismatch (e.evaluateReal.value env) ∧
      Avoids EvalError.IsMismatch (e.evaluateVector.value env) ∧
      Avoids EvalError.IsMismatch (e.evaluateInterval.value env) := by
  refine ⟨?_, fun mode => avoids_isMismatch e mode _ env, ?_, ?_, ?_⟩
  · intro mode v hv
    exact mode_of_outcome hv
  · rw [value_evaluateReal]
    exact avoids_asReal (avoids_isMismatch e .real _ env)
  · rw [value_evaluateVector]
    exact avoids_asVector (avoids_isMismatch e .vector _ env)
  · rw [value_evaluateInterval]
    exact avoids_asInterval (avoids_isMismatch e .interval _ env)

/-- A function that repeats a parameter returns the interval of the last argument. -/
theorem kind_of_value_repeated :
    ((apply (.custom "f" ["a", "a"] (var "a")) [num 1, num 2] : Expr Float).evaluate
        .interval).value .empty = .ok (.interval (.point 2)) ∧
      (Value.interval (.point (2 : Float))).mode = .interval := by
  have hvalue : ((apply (.custom "f" ["a", "a"] (var "a")) [num 1, num 2] : Expr Float).evaluate
      .interval).value .empty = .ok (.interval (.point 2)) := by
    rw [value_evaluate, outcome_custom, if_neg (by decide)]
    simp only [List.mapM_cons, List.mapM_nil, outcome_num]
    refine (outcome_var "a").trans ?_
    exact outcome_intervalOf 2 2
  exact ⟨hvalue, (kind_of_value _ _).1 .interval _ hvalue⟩

end Expr

end ZeroSet
