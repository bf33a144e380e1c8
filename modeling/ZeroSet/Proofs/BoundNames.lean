import ZeroSet.Proofs.CycleGuard
import ZeroSet.Proofs.FreeNames
import ZeroSet.Proofs.ValueKinds

/-!
# Where every name is bound

An environment supplies a set of names if it binds each of them to an expression over the set.
Calling a function adds its parameters to the set, and following a variable stays in it, so that
evaluating an expression over the set never comes upon a name without a binding.  If moreover no
name leads back to itself, evaluating fails only for what an operation makes of its operands.

* `Env.Supplies` — environments in which all the names of a set can be looked up.
* `Expr.avoids_isUnbound` — there, an expression over the set looks up bound names only.
* `Expr.evaluate_avoids_aboutMeaning` — without cycles it fails neither for a name nor for a kind.
-/

namespace ZeroSet

variable {K : Type} {S : String → Prop} {env : Env K}

/-- The error of a variable without a binding. -/
def EvalError.IsUnbound : EvalError K → Prop
  | .unboundVariable _ => True
  | _ => False

theorem EvalError.IsUnbound.aboutMeaning {err : EvalError K} (h : err.IsUnbound) :
    err.AboutMeaning := by
  cases err with
  | unboundVariable name => trivial
  | _ => exact h.elim

/-! ## Environments that supply a set of names -/

/-- Every name of the set is bound to an expression over the set. -/
def Env.Supplies (S : String → Prop) (env : Env K) : Prop :=
  ∀ n, S n → ∃ e, env.bindings.get? n = some e ∧ e.Over S

/-- Inside a function the parameters are supplied as well. -/
theorem Env.Supplies.call (h : env.Supplies S) {params : List String} {values : List (Value K)}
    (hcount : values.length = params.length) :
    (env.enter (params.zip (values.map Value.toExpr))).Supplies fun n => n ∈ params ∨ S n := by
  have hnames := Env.names_of_zip hcount
  intro n hn
  by_cases hparam : n ∈ params
  · -- a parameter stands for a literal, which mentions nothing
    obtain ⟨e, hmem, hget⟩ := Bindings.get?_putAll_of_mem (hnames.symm ▸ hparam)
    refine ⟨e, hget env.bindings, fun m hm => ?_⟩
    rw [Expr.freeNames_of_isLiteral (Env.isLiteral_of_mem_zip hmem)] at hm
    cases hm
  · obtain ⟨e, hget, he⟩ := h n (hn.resolve_left hparam)
    rw [Env.get?_enter_of_notMem hparam]
    exact ⟨e, hget, fun m hm => .inr (he m hm)⟩

namespace Expr

variable [Scalar K] {e : Expr K}

/-- An expression over names that are supplied looks up bound names only. -/
theorem avoids_isUnbound (henv : env.Supplies S) (he : e.Over S) (mode : Mode) (depth : Nat) :
    Avoids EvalError.IsUnbound (e.outcome mode depth env) := by
  have hbad : ∀ err : EvalError K, err.IsUnbound → err.AboutMeaning := fun _ h => h.aboutMeaning
  induction depth generalizing e mode S env with
  | zero =>
    refine avoids_of_variables hbad (P := Env.Supplies) (fun hcount h => h.call hcount)
      (fun {name S env} mode henv hname => ?_) e mode henv he
    obtain ⟨bound, hget, -⟩ := henv name hname
    rw [outcome_var_zero_eq, hget]
    split
    · exact .error id
    · exact .error id
  | succ depth ih =>
    refine avoids_of_variables hbad (P := Env.Supplies) (fun hcount h => h.call hcount)
      (fun {name S env} mode henv hname => ?_) e mode henv he
    obtain ⟨bound, hget, hbound⟩ := henv name hname
    rw [outcome_var, hget]
    split
    · exact .error id
    · -- which names are being resolved does not matter
      have hresolving : Env.Supplies S { env with resolving := name :: env.resolving } := henv
      exact ih hresolving hbound mode

/-- With nothing being resolved at the start, the guard does not fire if no name leads back to
itself. -/
theorem evaluate_avoids_isCyclic (hstart : env.resolving = []) (hacyclic : env.bindings.Acyclic)
    (e : Expr K) (mode : Mode) : Avoids EvalError.IsCyclic ((e.evaluate mode).value env) := by
  have henv : Env.OnPath env.bindings [] env := by
    refine ⟨?_, ?_, fun _ _ => rfl⟩
    · simp
    · simp
  refine avoids_isCyclic hacyclic e mode (Nat.lt_succ_of_le env.card_pending_le) henv ?_
  intro n _
  right
  simp [hstart]

/-- Where every name that an expression mentions is supplied and none leads back to itself, the
expression fails neither for what a name stands for nor for the kind of a value. -/
theorem evaluate_avoids_aboutMeaning (hstart : env.resolving = [])
    (hacyclic : env.bindings.Acyclic) (henv : env.Supplies S) (he : e.Over S) (mode : Mode) :
    Avoids EvalError.AboutMeaning ((e.evaluate mode).value env) := by
  intro err herr hbad
  cases err with
  | unboundVariable name => exact avoids_isUnbound henv he mode _ _ herr trivial
  | cyclicBinding name => exact evaluate_avoids_isCyclic hstart hacyclic e mode _ herr trivial
  | typeMismatch expected found => exact avoids_isMismatch e mode _ env _ herr trivial
  | _ => exact hbad

theorem evaluateReal_avoids_aboutMeaning (hstart : env.resolving = [])
    (hacyclic : env.bindings.Acyclic) (henv : env.Supplies S) (he : e.Over S) :
    Avoids EvalError.AboutMeaning (e.evaluateReal.value env) := by
  rw [value_evaluateReal]
  exact avoids_asReal (evaluate_avoids_aboutMeaning hstart hacyclic henv he .real)

theorem evaluateInterval_avoids_aboutMeaning (hstart : env.resolving = [])
    (hacyclic : env.bindings.Acyclic) (henv : env.Supplies S) (he : e.Over S) :
    Avoids EvalError.AboutMeaning (e.evaluateInterval.value env) := by
  rw [value_evaluateInterval]
  exact avoids_asInterval (evaluate_avoids_aboutMeaning hstart hacyclic henv he .interval)

end Expr

end ZeroSet
