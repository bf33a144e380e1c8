import ZeroSet.Proofs.BranchAndPrune
import ZeroSet.Func.Call

/-!
# Evaluating leaves the environment alone

Scopes are opened and names are marked as being resolved all the way down an evaluation, and each
of them is undone on the way back, whether there is a value to hand on or an error.  What holds of
a single scope (`Env.leave_enter`) and of the evaluator (`Expr.tidy_evaluate`) carries over to
everything that evaluates.

* `Func.tidy_call` — a call, which may already fail before its application is evaluated.
* `Bisection.tidy_findLeafWithin`, `Bisection.tidy_findRoot` — searches, which open a scope for
  every cell and may fail in the middle.
* `Evaluation.env_unchanged` — all of them give back the environment they were given.
-/

namespace ZeroSet

variable {K : Type} [Scalar K]

theorem Func.tidy_call (f : Func K) (args : List (Expr K)) (mode : Mode) :
    (f.call args mode).Tidy :=
  .bind (.lift _) fun e => Expr.tidy_evaluate e mode

namespace Bisection

theorem tidy_findLeafWithin (b : Bisection K) (g : Expr K) (name : String) (far : K) :
    (b.findLeafWithin g name far).Tidy := by
  rw [findLeafWithin]
  split
  · exact tidy_search _ _ _ _
  · exact .pure _

theorem tidy_findRoot (b : Bisection K) (g : Expr K) (name : String) :
    (b.findRoot g name).Tidy :=
  .bind (tidy_findLeafWithin b g name b.maxDistance) fun _ => .pure _

end Bisection

/-- Whatever is evaluated, called or searched for, and whether it ends with a value or with an
error from any depth, the environment afterwards is the one before: every name stands for what it
stood for, or for nothing as before, and the same names are being resolved. -/
theorem Evaluation.env_unchanged (e : Expr K) (mode : Mode) (f : Func K) (args : List (Expr K))
    (b : Bisection K) (name : String) (far : K) (env : Env K) :
    ((e.evaluate mode).run.run env).2 = env ∧ ((f.call args mode).run.run env).2 = env ∧
      ((b.findLeafWithin e name far).run.run env).2 = env ∧
      ((b.findRoot e name).run.run env).2 = env :=
  ⟨Expr.tidy_evaluate e mode env, f.tidy_call args mode env,
    b.tidy_findLeafWithin e name far env, b.tidy_findRoot e name env⟩

end ZeroSet
