import ZeroSet.Proofs.Dependencies
import ZeroSet.Proofs.Termination
import ZeroSet.Scalar.Binary64

/-!
# Only the names an expression reaches matter

An expression reaches the names that it mentions, from a bound name those that its binding
mentions, and so on.  No other binding has a say in what the expression evaluates to, not even in
which error it ends: neither the number of bindings, which limits how far variables are followed,
nor a binding that a parameter hides for a while.

* `Bindings.Reaches` — the names that an expression leads to.
* `Expr.outcome_eq_of_pending` — following variables further than they can lead changes nothing.
* `Expr.evaluate_eq_of_reaches` — environments that agree on these names give the same result.
-/

namespace ZeroSet

variable {K : Type}

/-- The smallest set that holds the names of an expression and, with a bound name, the names that
its binding mentions. -/
inductive Bindings.Reaches (b : Bindings K) (e : Expr K) : String → Prop where
  /-- The expression mentions the name. -/
  | free {n : String} : n ∈ e.freeNames → Reaches b e n
  /-- The binding of a name that was reached mentions the name. -/
  | step {m n : String} : Reaches b e m → b.Refers m n → Reaches b e n

/-- What an expression reaches is closed, so that it is enough to compare the bindings. -/
theorem Env.agreeOn_reaches {left right : Env K} {e : Expr K} (hleft : left.resolving = [])
    (hright : right.resolving = [])
    (h : ∀ n, left.bindings.Reaches e n → left.bindings.get? n = right.bindings.get? n) :
    Env.AgreeOn (left.bindings.Reaches e) left right where
  closed m n hm hedge := .step hm hedge
  bindings := h
  resolving n _ := by
    rw [hleft, hright]

namespace Expr

variable [Scalar K]

/-- Where fewer names are pending than variables may be followed in a row, it does not matter how
often they may. -/
theorem outcome_eq_of_pending {env : Env K} {depth depth' : Nat} (h : env.pending.card < depth)
    (h' : env.pending.card < depth') (e : Expr K) (mode : Mode) :
    e.outcome mode depth env = e.outcome mode depth' env := by
  have hends := ends_evaluateWithin e depth mode env h
  have hends' := ends_evaluateWithin e depth' mode env h'
  -- both agree with the same unrolling of the recursion, whatever its open calls do
  obtain ⟨n, hn, hn'⟩ := (hends.and hends').exists
  have hrun : (e.evaluateWithin depth mode).run.run env =
      (e.evaluateWithin depth' mode).run.run env := (hn evaluate).symm.trans (hn' evaluate)
  rw [outcome, outcome, Evaluation.value, Evaluation.value, hrun]

/-- The outcome at any depth that is beyond the number of bindings is the value. -/
theorem value_evaluate_of_size_lt {env : Env K} {depth : Nat} (h : env.bindings.size < depth)
    (e : Expr K) (mode : Mode) : (e.evaluate mode).value env = e.outcome mode depth env := by
  have hpending := env.card_pending_le
  rw [value_evaluate]
  exact outcome_eq_of_pending (by omega) (by omega) e mode

/-- Two environments in which nothing is being resolved and in which the names that an expression
reaches are bound alike, or not at all, give it the same value or the same error. -/
theorem evaluate_eq_of_reaches (e : Expr K) (mode : Mode) {left right : Env K}
    (hleft : left.resolving = []) (hright : right.resolving = [])
    (h : ∀ n, left.bindings.Reaches e n → left.bindings.get? n = right.bindings.get? n) :
    (e.evaluate mode).value left = (e.evaluate mode).value right := by
  -- one of the environments may bind more names than the other, and then follows them further
  have hsize := Nat.le_max_left left.bindings.size right.bindings.size
  have hsize' := Nat.le_max_right left.bindings.size right.bindings.size
  rw [value_evaluate_of_size_lt (Nat.lt_succ_of_le hsize),
    value_evaluate_of_size_lt (Nat.lt_succ_of_le hsize')]
  exact outcome_congr (Env.agreeOn_reaches hleft hright h) fun n hn => .free hn

/-- What the parameter `u` of an applied function is bound to outside does not matter, be it a
number or `u` itself. -/
theorem evaluate_eq_of_reaches_parameter :
    ((apply (.custom "f" ["u"] (binary .mul (var "u") (var "y"))) [var "x"] : Expr Float).evaluate
        .real).value (.ofList [("x", neg (var "y")), ("y", num 2), ("u", num 5)]) =
      ((apply (.custom "f" ["u"] (binary .mul (var "u") (var "y"))) [var "x"]).evaluate .real).value
        (.ofList [("u", var "u"), ("y", num 2), ("x", neg (var "y"))]) := by
  refine evaluate_eq_of_reaches _ .real rfl rfl ?_
  have hreached : ∀ n, (Env.ofList [("x", neg (var "y")), ("y", num (2 : Float)),
      ("u", num 5)]).bindings.Reaches
        (apply (.custom "f" ["u"] (binary .mul (var "u") (var "y"))) [var "x"]) n →
      n = "x" ∨ n = "y" := by
    intro n hn
    induction hn with
    | free hfree => simpa [freeNames, freeNamesList, Func.freeNames, or_comm] using hfree
    | step _ hedge ih =>
      obtain ⟨e, hget, hn⟩ := hedge
      rcases ih with rfl | rfl
      · cases hget
        exact .inr (List.mem_singleton.1 hn)
      · cases hget
        cases hn
  intro n hn
  rcases hreached n hn with rfl | rfl
  · rfl
  · rfl

end Expr

end ZeroSet
