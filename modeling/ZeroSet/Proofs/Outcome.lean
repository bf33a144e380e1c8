import ZeroSet.Proofs.Scopes
import ZeroSet.Evaluation
import Mathlib.Data.List.Forall2

/-!
# Outcomes of evaluations

An evaluation threads an environment, but it gives the environment back as it got it
(`Expr.tidy_evaluateWithin`), so that only its outcome matters.  `Expr.outcome` is that outcome,
and every kind of node has one equation for it.

* `Evaluation.Tidy` — evaluations that leave every environment as they found it.
* `Expr.expansionInduction` — induction along the recursion of the evaluator, where an
  application of a composition rests on its expansion.
* `Expr.outcome_neg`, `Expr.outcome_binary`, … — the outcome of a node from those of its parts.
* `Expr.mode_of_outcome` — a mode yields values of its own kind only.
-/

namespace ZeroSet

variable {K α β : Type}

/-! ## Results that may be errors -/

theorem bind_eq_ok {ε : Type} {x : Except ε α} {f : α → Except ε β} {b : β} :
    (x >>= f) = .ok b ↔ ∃ a, x = .ok a ∧ f a = .ok b := by
  cases x with
  | error err => simp [bind, Except.bind]
  | ok a => simp [bind, Except.bind]

theorem bind_eq_error {ε : Type} {x : Except ε α} {f : α → Except ε β} {err : ε} :
    (x >>= f) = .error err ↔ x = .error err ∨ ∃ a, x = .ok a ∧ f a = .error err := by
  cases x with
  | error _ => simp [bind, Except.bind]
  | ok _ => simp [bind, Except.bind]

theorem map_eq_ok {ε : Type} {x : Except ε α} {f : α → β} {b : β} :
    x.map f = .ok b ↔ ∃ a, x = .ok a ∧ f a = b := by
  cases x with
  | error err => simp [Except.map]
  | ok a => simp [Except.map]

theorem mapM_eq_ok {ε : Type} {f : α → Except ε β} {as : List α} {bs : List β} :
    as.mapM f = .ok bs ↔ List.Forall₂ (fun a b => f a = .ok b) as bs := by
  induction as generalizing bs with
  | nil => cases bs <;> simp [pure, Except.pure]
  | cons a as ih =>
    rw [List.mapM_cons, bind_eq_ok, List.forall₂_cons_left_iff]
    constructor
    · rintro ⟨b, hb, h⟩
      obtain ⟨rest, hrest, h⟩ := bind_eq_ok.1 h
      cases h
      exact ⟨b, rest, hb, ih.1 hrest, rfl⟩
    · rintro ⟨b, rest, hb, hrest, rfl⟩
      exact ⟨b, hb, bind_eq_ok.2 ⟨rest, ih.2 hrest, rfl⟩⟩

/-- If a list of results fails, then one of them does. -/
theorem exists_error_of_mapM {ε : Type} {f : α → Except ε β} {as : List α} {err : ε}
    (h : as.mapM f = .error err) : ∃ a ∈ as, f a = .error err := by
  induction as with
  | nil => cases h
  | cons a as ih =>
    rw [List.mapM_cons] at h
    rcases bind_eq_error.1 h with h | ⟨b, -, h⟩
    · exact ⟨a, List.mem_cons_self .., h⟩
    · rcases bind_eq_error.1 h with h | ⟨bs, -, h⟩
      · obtain ⟨c, hc, h⟩ := ih h
        exact ⟨c, List.mem_cons_of_mem _ hc, h⟩
      · cases h

theorem mapM_congr {ε : Type} {f g : α → Except ε β} {as : List α} (h : ∀ a ∈ as, f a = g a) :
    as.mapM f = as.mapM g := by
  induction as with
  | nil => rfl
  | cons a as ih =>
    rw [List.mapM_cons, List.mapM_cons, h a (List.mem_cons_self ..),
      ih fun b hb => h b (List.mem_cons_of_mem _ hb)]

/-! ## Evaluations that leave no trace -/

namespace Evaluation

/-- The evaluation leaves every environment as it found it. -/
def Tidy (action : Evaluation K α) : Prop := ∀ env, (action.run.run env).2 = env

theorem Tidy.pure (a : α) : (Pure.pure a : Evaluation K α).Tidy := fun _ => rfl

theorem Tidy.throw (err : EvalError K) : (MonadExcept.throw err : Evaluation K α).Tidy :=
  fun _ => rfl

theorem Tidy.lift (x : Except (EvalError K) α) : (liftM x : Evaluation K α).Tidy := fun _ => rfl

theorem run_bind (action : Evaluation K α) (f : α → Evaluation K β) (env : Env K) :
    (action >>= f).run.run env =
      match action.run.run env with
      | (.ok a, after) => (f a).run.run after
      | (.error err, after) => (.error err, after) := by
  show (match action.run.run env with
    | (result, after) => (ExceptT.bindCont f result).run after) = _
  rcases action.run.run env with ⟨_ | _, _⟩ <;> rfl

theorem Tidy.bind {action : Evaluation K α} {f : α → Evaluation K β} (h : action.Tidy)
    (hf : ∀ a, (f a).Tidy) : (action >>= f).Tidy := by
  intro env
  rw [run_bind]
  have hafter := h env
  rcases haction : action.run.run env with ⟨_ | a, after⟩
  · rw [haction] at hafter
    exact hafter
  · rw [haction] at hafter
    exact (hf a after).trans hafter

theorem Tidy.mapM {f : α → Evaluation K β} {as : List α} (h : ∀ a ∈ as, (f a).Tidy) :
    (as.mapM f).Tidy := by
  induction as with
  | nil => exact .pure _
  | cons a as ih =>
    rw [List.mapM_cons]
    exact .bind (h a (List.mem_cons_self ..)) fun _ =>
      .bind (ih fun b hb => h b (List.mem_cons_of_mem _ hb)) fun _ => .pure _

/-- Whatever a scope is used for, it gives the names back. -/
theorem Tidy.within {body : Evaluation K α} (h : body.Tidy) (pairs : List (String × Expr K)) :
    (Evaluation.within pairs body).Tidy := by
  intro env
  show env.leave pairs (body.run.run (env.enter pairs)).2 = env
  rw [h, Env.leave_enter]

theorem Tidy.resolving {name : String} {use : Expr K → Evaluation K α}
    (h : ∀ e, (use e).Tidy) : (Evaluation.resolving name use).Tidy := by
  intro env
  simp only [Evaluation.resolving, ExceptT.run_mk, StateT.run]
  split
  · rfl
  · split
    · rfl
    · rename_i e _
      have hafter := h e { env with resolving := name :: env.resolving }
      simp only [StateT.run] at hafter
      rw [hafter]
      rfl

theorem value_bind {action : Evaluation K α} {f : α → Evaluation K β} (h : action.Tidy)
    (env : Env K) : (action >>= f).value env = action.value env >>= fun a => (f a).value env := by
  unfold value
  rw [run_bind]
  have hafter := h env
  rcases haction : action.run.run env with ⟨_ | a, after⟩
  · rfl
  · rw [haction] at hafter
    cases hafter
    rfl

/-- Evaluations one after another give what each of them gives. -/
theorem value_mapM {f : α → Evaluation K β} {as : List α} (h : ∀ a ∈ as, (f a).Tidy)
    (env : Env K) : (as.mapM f).value env = as.mapM fun a => (f a).value env := by
  induction as with
  | nil => rfl
  | cons a as ih =>
    obtain ⟨ha, has⟩ := List.forall_mem_cons.1 h
    rw [List.mapM_cons, List.mapM_cons, value_bind ha]
    congr 1
    funext b
    rw [value_bind (.mapM has), ih has]
    rfl

theorem value_within (pairs : List (String × Expr K)) (body : Evaluation K α) (env : Env K) :
    (Evaluation.within pairs body).value env = body.value (env.enter pairs) := rfl

theorem value_lift_bind (x : Except (EvalError K) α) (f : α → Evaluation K β) (env : Env K) :
    ((liftM x : Evaluation K α) >>= f).value env = x >>= fun a => (f a).value env :=
  value_bind (.lift x) env

theorem value_resolving (name : String) (use : Expr K → Evaluation K α) (env : Env K) :
    (Evaluation.resolving name use).value env =
      if name ∈ env.resolving then .error (.cyclicBinding name)
      else match env.bindings.get? name with
        | none => .error (.unboundVariable name)
        | some e => (use e).value { env with resolving := name :: env.resolving } := by
  simp only [value, resolving, ExceptT.run_mk, StateT.run]
  split
  · rfl
  · cases env.bindings.get? name <;> rfl

end Evaluation

/-! ## Induction along the evaluator -/

theorem Expr.weight_lt_of_mem_items {e : Expr K} {items : List (Expr K)} (h : e ∈ items) :
    e.weight < (Expr.vec items).weight := by
  have := Expr.weight_le_weightList h
  simp only [Expr.weight]
  omega

/-- An application rests on its arguments and the body of the function, and an application of
a composition on its expansion, which weighs less. -/
theorem Expr.expansionInduction [Scalar K] {P : Expr K → Prop}
    (num : ∀ v, P (.num v)) (var : ∀ name, P (.var name))
    (vec : ∀ items, (∀ e ∈ items, P e) → P (.vec items))
    (interval : ∀ lo hi, P lo → P hi → P (.interval lo hi))
    (neg : ∀ a, P a → P (.neg a))
    (binary : ∀ op a b, P a → P b → P (.binary op a b))
    (power : ∀ a b, P a → P b → P (.power a b))
    (builtin : ∀ b args, (∀ a ∈ args, P a) → P (.apply (.builtin b) args))
    (custom : ∀ name params body args, (∀ a ∈ args, P a) → P body →
      P (.apply (.custom name params body) args))
    (comp : ∀ inner outer args, (∀ e, (Func.comp inner outer).expand args = .ok e → P e) →
      P (.apply (.comp inner outer) args))
    (e : Expr K) : P e := by
  induction hn : e.weight using Nat.strongRecOn generalizing e with
  | ind n ih =>
    subst hn
    have below : ∀ e', e'.weight < e.weight → P e' := fun e' h => ih _ h e' rfl
    cases e with
    | num v => exact num v
    | var name => exact var name
    | vec items => exact vec items fun e he => below e (weight_lt_of_mem_items he)
    | interval lo hi =>
      exact interval lo hi (below lo (by simp only [weight]; omega))
        (below hi (by simp only [weight]; omega))
    | neg a => exact neg a (below a (by simp only [weight]; omega))
    | binary op a b =>
      exact binary op a b (below a (by simp only [weight]; omega))
        (below b (by simp only [weight]; omega))
    | power a b =>
      exact power a b (below a (by simp only [weight]; omega))
        (below b (by simp only [weight]; omega))
    | apply f args =>
      cases f with
      | builtin b =>
        refine builtin b args fun a ha => below a ?_
        have := weight_le_weightList ha
        simp only [weight, Func.weight]
        omega
      | custom name params body =>
        refine custom name params body args (fun a ha => below a ?_) (below body ?_)
        · have := weight_le_weightList ha
          simp only [weight, Func.weight]
          omega
        · simp only [weight, Func.weight]
          omega
      | comp inner outer =>
        exact comp inner outer args fun e he => below e (Func.weight_expand_lt he)

/-! ## Evaluating leaves no trace -/

namespace Evaluation

variable [Scalar K] {meaning : String → Mode → Evaluation K (Value K)}

theorem tidy_evalReals {es : List (Expr K)} (h : ∀ e ∈ es, (e.evalWith meaning .real).Tidy) :
    (Expr.evalReals meaning es).Tidy := by
  induction es with
  | nil =>
    rw [Expr.evalReals]
    exact .pure _
  | cons e es ih =>
    rw [Expr.evalReals]
    exact .bind (h e (List.mem_cons_self ..)) fun _ => .bind (.lift _) fun _ =>
      .bind (ih fun e he => h e (List.mem_cons_of_mem _ he)) fun _ => .pure _

theorem tidy_evalArgs {es : List (Expr K)} {mode : Mode}
    (h : ∀ e ∈ es, (e.evalWith meaning mode).Tidy) : (Expr.evalArgs meaning es mode).Tidy := by
  induction es with
  | nil =>
    rw [Expr.evalArgs]
    exact .pure _
  | cons e es ih =>
    rw [Expr.evalArgs]
    exact .bind (h e (List.mem_cons_self ..)) fun _ =>
      .bind (ih fun e he => h e (List.mem_cons_of_mem _ he)) fun _ => .pure _

/-- If looking up a variable leaves no trace, neither does evaluating. -/
theorem tidy_evalWith (h : ∀ name mode, (meaning name mode).Tidy) (e : Expr K) (mode : Mode) :
    (e.evalWith meaning mode).Tidy := by
  induction e using Expr.expansionInduction generalizing mode with
  | num v =>
    rw [Expr.evalWith.eq_def]
    cases mode
    · exact .pure _
    · exact .throw _
    · exact .pure _
  | var name =>
    rw [Expr.evalWith]
    exact h name mode
  | vec items ih =>
    rw [Expr.evalWith.eq_def]
    cases mode
    · exact .throw _
    · exact .bind (tidy_evalReals fun e he => ih e he .real) fun _ => .bind (.lift _) fun _ =>
        .pure _
    · exact .throw _
  | interval lo hi ihlo ihhi =>
    rw [Expr.evalWith.eq_def]
    cases mode
    · exact .throw _
    · exact .throw _
    · exact .bind (ihlo .real) fun _ => .bind (.lift _) fun _ => .bind (ihhi .real) fun _ =>
        .bind (.lift _) fun _ => .bind (.lift _) fun _ => .pure _
  | neg a ih =>
    rw [Expr.evalWith]
    exact .bind (ih mode) fun _ => .pure _
  | binary op a b iha ihb =>
    rw [Expr.evalWith]
    exact .bind (iha mode) fun _ => .bind (ihb mode) fun _ => .lift _
  | power a b iha ihb =>
    rw [Expr.evalWith.eq_def]
    cases mode
    · exact .bind (iha .real) fun _ => .bind (.lift _) fun _ => .bind (ihb .real) fun _ =>
        .bind (.lift _) fun _ => .pure _
    · exact .throw _
    · exact .throw _
  | builtin b args ih =>
    rw [Expr.evalWith.eq_def]
    refine .bind (.lift _) fun _ => ?_
    split
    · exact .bind (ih _ (List.mem_singleton_self _) .real) fun _ => .bind (.lift _) fun _ =>
        .pure _
    · exact .throw _
    · exact .throw _
  | custom name params body args ihargs ihbody =>
    rw [Expr.evalWith]
    split
    · exact .throw _
    · exact .bind (tidy_evalArgs fun a ha => ihargs a ha mode) fun _ => .within (ihbody mode) _
  | comp inner outer args ih =>
    rw [Expr.evalWith]
    split
    · exact ih _ ‹_› mode
    · exact .throw _

end Evaluation

namespace Expr

variable [Scalar K]

/-- What a variable means where bindings may be followed at most `depth` more times. -/
def variableAt : (depth : Nat) → String → Mode → Evaluation K (Value K)
  | 0, name, _ => .resolving name fun _ => throw (.cyclicBinding name)
  | depth + 1, name, mode => .resolving name fun bound => bound.evaluateWithin depth mode

theorem evaluateWithin_eq (e : Expr K) (depth : Nat) (mode : Mode) :
    e.evaluateWithin depth mode = e.evalWith (variableAt depth) mode := by
  cases depth <;> rfl

theorem tidy_evaluateWithin (e : Expr K) (depth : Nat) (mode : Mode) :
    (e.evaluateWithin depth mode).Tidy := by
  induction depth generalizing e mode with
  | zero =>
    rw [evaluateWithin_eq]
    exact Evaluation.tidy_evalWith (fun _ _ => .resolving fun _ => .throw _) e mode
  | succ depth ih =>
    rw [evaluateWithin_eq]
    exact Evaluation.tidy_evalWith (fun _ _ => .resolving fun _ => ih _ _) e mode

theorem tidy_evalWith_variableAt {depth : Nat} {mode : Mode} (e : Expr K) :
    (e.evalWith (variableAt depth) mode).Tidy := by
  rw [← evaluateWithin_eq]
  exact tidy_evaluateWithin e depth mode

/-! ## The outcome of each node -/

/-- What evaluating yields in an environment where bindings are followed at most `depth` times
in a row. -/
def outcome (e : Expr K) (mode : Mode) (depth : Nat) (env : Env K) :
    Except (EvalError K) (Value K) :=
  (e.evaluateWithin depth mode).value env

variable {mode : Mode} {depth : Nat} {env : Env K}

theorem value_evaluate (e : Expr K) (mode : Mode) (env : Env K) :
    (e.evaluate mode).value env = e.outcome mode (env.bindings.size + 1) env := rfl

theorem tidy_evaluate (e : Expr K) (mode : Mode) : (e.evaluate mode).Tidy :=
  fun env => tidy_evaluateWithin e (env.bindings.size + 1) mode env

theorem value_evaluateReal (e : Expr K) (env : Env K) :
    e.evaluateReal.value env =
      e.outcome .real (env.bindings.size + 1) env >>= Value.asReal :=
  Evaluation.value_bind (tidy_evaluate e .real) env

theorem value_evaluateVector (e : Expr K) (env : Env K) :
    e.evaluateVector.value env =
      e.outcome .vector (env.bindings.size + 1) env >>= Value.asVector :=
  Evaluation.value_bind (tidy_evaluate e .vector) env

theorem value_evaluateInterval (e : Expr K) (env : Env K) :
    e.evaluateInterval.value env =
      e.outcome .interval (env.bindings.size + 1) env >>= Value.asInterval :=
  Evaluation.value_bind (tidy_evaluate e .interval) env

theorem value_evalWith (e : Expr K) :
    (e.evalWith (variableAt depth) mode).value env = e.outcome mode depth env := by
  rw [outcome, evaluateWithin_eq]

theorem value_evalWith_bind (e : Expr K) (f : Value K → Evaluation K α) :
    (e.evalWith (variableAt depth) mode >>= f).value env =
      e.outcome mode depth env >>= fun v => (f v).value env := by
  rw [Evaluation.value_bind (tidy_evalWith_variableAt e), value_evalWith]

theorem value_evalReals (items : List (Expr K)) :
    (evalReals (variableAt depth) items).value env =
      items.mapM fun e => e.outcome .real depth env >>= Value.asReal := by
  induction items with
  | nil =>
    rw [evalReals]
    rfl
  | cons e items ih =>
    rw [evalReals, value_evalWith_bind, List.mapM_cons, bind_assoc]
    congr 1
    funext v
    rw [Evaluation.value_lift_bind]
    congr 1
    funext x
    rw [Evaluation.value_bind (Evaluation.tidy_evalReals fun e _ => tidy_evalWith_variableAt e), ih]
    rfl

theorem value_evalArgs (args : List (Expr K)) :
    (evalArgs (variableAt depth) args mode).value env =
      args.mapM fun a => a.outcome mode depth env := by
  induction args with
  | nil =>
    rw [evalArgs]
    rfl
  | cons a args ih =>
    rw [evalArgs, value_evalWith_bind, List.mapM_cons]
    congr 1
    funext v
    rw [Evaluation.value_bind (Evaluation.tidy_evalArgs fun a _ => tidy_evalWith_variableAt a), ih]
    rfl

theorem outcome_num (v : K) :
    (num v).outcome mode depth env =
      match mode with
      | .real => .ok (.real v)
      | .vector => .error (.unimplemented .number .vector)
      | .interval => .ok (.interval (.point v)) := by
  rw [← value_evalWith, evalWith.eq_def]
  cases mode <;> rfl

/-- Where no binding may be followed any more, a bound name counts as one that leads back to
itself. -/
theorem outcome_var_zero_eq (name : String) :
    (var name).outcome mode 0 env =
      if name ∈ env.resolving then .error (.cyclicBinding name)
      else match env.bindings.get? name with
        | none => .error (.unboundVariable name)
        | some _ => .error (.cyclicBinding name) := by
  rw [← value_evalWith, evalWith]
  exact Evaluation.value_resolving ..

theorem outcome_var_zero (name : String) (mode : Mode) (env : Env K) :
    ∃ err, (var name).outcome mode 0 env = .error err := by
  rw [outcome_var_zero_eq]
  split
  · exact ⟨_, rfl⟩
  · cases env.bindings.get? name with
    | none => exact ⟨_, rfl⟩
    | some e => exact ⟨_, rfl⟩

theorem outcome_var (name : String) :
    (var name).outcome mode (depth + 1) env =
      if name ∈ env.resolving then .error (.cyclicBinding name)
      else match env.bindings.get? name with
        | none => .error (.unboundVariable name)
        | some e => e.outcome mode depth { env with resolving := name :: env.resolving } := by
  rw [← value_evalWith, evalWith]
  exact Evaluation.value_resolving ..

theorem outcome_vec (items : List (Expr K)) :
    (vec items).outcome mode depth env =
      if mode = .vector then (do
        let xs ← items.mapM fun e => e.outcome .real depth env >>= Value.asReal
        let t ← Tuple.ofList xs
        return .vector t)
      else .error (.unimplemented .vector mode) := by
  rw [← value_evalWith, evalWith.eq_def]
  cases mode with
  | vector =>
    refine (Evaluation.value_bind (Evaluation.tidy_evalReals fun e _ =>
      tidy_evalWith_variableAt e) _).trans ?_
    rw [value_evalReals, if_pos rfl]
    congr 1
    funext xs
    exact Evaluation.value_lift_bind ..
  | _ => rfl

theorem outcome_interval (lo hi : Expr K) :
    (interval lo hi).outcome mode depth env =
      if mode = .interval then (do
        let lo ← lo.outcome .real depth env >>= Value.asReal
        let hi ← hi.outcome .real depth env >>= Value.asReal
        let a ← Interval.ofBounds lo hi
        return .interval a)
      else .error (.unimplemented .interval mode) := by
  rw [← value_evalWith, evalWith.eq_def]
  cases mode with
  | interval =>
    refine (value_evalWith_bind lo _).trans ?_
    rw [if_pos rfl, bind_assoc]
    congr 1
    funext v
    rw [Evaluation.value_lift_bind]
    congr 1
    funext x
    rw [value_evalWith_bind, bind_assoc]
    congr 1
    funext w
    rw [Evaluation.value_lift_bind]
    congr 1
    funext y
    exact Evaluation.value_lift_bind ..
  | _ => rfl

/-- An interval literal with numbers for bounds evaluates to itself if they are in order. -/
theorem outcome_intervalOf (lo hi : K) :
    (intervalOf lo hi).outcome .interval depth env =
      (Interval.ofBounds lo hi).map Value.interval := by
  rw [intervalOf, outcome_interval, if_pos rfl, outcome_num, outcome_num]
  show (Interval.ofBounds lo hi >>= fun a => pure (Value.interval a)) = _
  cases Interval.ofBounds lo hi <;> rfl

theorem outcome_neg (a : Expr K) :
    (neg a).outcome mode depth env = (a.outcome mode depth env).map Value.negate := by
  rw [← value_evalWith, evalWith, value_evalWith_bind]
  rfl

theorem outcome_binary (op : BinOp) (a b : Expr K) :
    (binary op a b).outcome mode depth env = (do
      let v ← a.outcome mode depth env
      let w ← b.outcome mode depth env
      op.onValues v w) := by
  rw [← value_evalWith, evalWith, value_evalWith_bind]
  congr 1
  funext v
  rw [value_evalWith_bind]
  rfl

theorem outcome_power (base exponent : Expr K) :
    (power base exponent).outcome mode depth env =
      if mode = .real then (do
        let x ← base.outcome .real depth env >>= Value.asReal
        let y ← exponent.outcome .real depth env >>= Value.asReal
        return .real (Scalar.pow x y))
      else .error (.unimplemented .power mode) := by
  rw [← value_evalWith, evalWith.eq_def]
  cases mode with
  | real =>
    refine (value_evalWith_bind base _).trans ?_
    rw [if_pos rfl, bind_assoc]
    congr 1
    funext v
    rw [Evaluation.value_lift_bind]
    congr 1
    funext x
    rw [value_evalWith_bind, bind_assoc]
    congr 1
    funext w
    exact Evaluation.value_lift_bind ..
  | _ => rfl

theorem outcome_builtin (b : Builtin K) (args : List (Expr K)) :
    (apply (.builtin b) args).outcome mode depth env = (do
      b.check
      match mode, args with
      | .real, [arg] => do
        let x ← arg.outcome .real depth env >>= Value.asReal
        return .real (b.value x)
      | .real, args => .error (.dimensionMismatch args.length 1)
      | mode, _ => .error (.unimplemented (.builtin b) mode)) := by
  rw [← value_evalWith, evalWith.eq_def]
  refine (Evaluation.value_bind (.lift _) _).trans ?_
  congr 1
  funext _
  cases mode with
  | real =>
    rcases args with _ | ⟨arg, _ | ⟨_, _⟩⟩
    · rfl
    · dsimp only
      rw [value_evalWith_bind]
      refine Eq.trans ?_ (bind_assoc ..).symm
      congr 1
      funext v
      exact Evaluation.value_lift_bind ..
    · rfl
  | _ => rfl

theorem outcome_custom (name : String) (params : List String) (body : Expr K)
    (args : List (Expr K)) :
    (apply (.custom name params body) args).outcome mode depth env =
      if args.length ≠ params.length then
        .error (.dimensionMismatch args.length params.length)
      else (do
        let values ← args.mapM fun a => a.outcome mode depth env
        body.outcome mode depth (env.enter (params.zip (values.map Value.toExpr)))) := by
  rw [← value_evalWith, evalWith]
  split
  · rfl
  · rw [Evaluation.value_bind (Evaluation.tidy_evalArgs fun a _ => tidy_evalWith_variableAt a),
      value_evalArgs]
    congr 1
    funext values
    rw [Evaluation.value_within, value_evalWith]

theorem outcome_comp (inner outer : Func K) (args : List (Expr K)) :
    (apply (.comp inner outer) args).outcome mode depth env = (do
      let expanded ← (Func.comp inner outer).expand args
      expanded.outcome mode depth env) := by
  rw [← value_evalWith, evalWith]
  split
  · rename_i heq
    refine (value_evalWith _).trans ?_
    rw [heq]
    rfl
  · rename_i heq
    rw [heq]
    rfl

end Expr

/-! ## The kind of an outcome -/

theorem Value.mode_negate [Scalar K] (v : Value K) : v.negate.mode = v.mode := by
  cases v <;> rfl

theorem BinOp.mode_of_onValues [Scalar K] {op : BinOp} {u v w : Value K}
    (h : op.onValues v w = .ok u) : u.mode = v.mode := by
  cases v <;> cases w <;> simp only [onValues, map_eq_ok] at h <;>
    first
    | obtain ⟨x, -, rfl⟩ := h; rfl
    | cases h

namespace Expr

variable [Scalar K] {depth : Nat} {env : Env K}

/-- If variables yield values of the mode's kind, so does every expression. -/
theorem mode_of_outcome_of_variables
    (hvar : ∀ {name mode env v}, (var name : Expr K).outcome mode depth env = .ok v → v.mode = mode)
    {e : Expr K} {mode : Mode} {v : Value K} (h : e.outcome mode depth env = .ok v) :
    v.mode = mode := by
  induction e using expansionInduction generalizing mode env v with
  | num x =>
    rw [outcome_num] at h
    cases mode <;> cases h <;> rfl
  | var name => exact hvar h
  | vec items _ =>
    rw [outcome_vec] at h
    split at h
    · obtain ⟨xs, -, h⟩ := bind_eq_ok.1 h
      obtain ⟨t, -, h⟩ := bind_eq_ok.1 h
      cases h
      exact Eq.symm ‹_›
    · cases h
  | interval lo hi _ _ =>
    rw [outcome_interval] at h
    split at h
    · obtain ⟨x, -, h⟩ := bind_eq_ok.1 h
      obtain ⟨y, -, h⟩ := bind_eq_ok.1 h
      obtain ⟨a, -, h⟩ := bind_eq_ok.1 h
      cases h
      exact Eq.symm ‹_›
    · cases h
  | neg a ih =>
    rw [outcome_neg] at h
    obtain ⟨w, hw, rfl⟩ := map_eq_ok.1 h
    rw [Value.mode_negate, ih hw]
  | binary op a b iha _ =>
    rw [outcome_binary] at h
    obtain ⟨w, hw, h⟩ := bind_eq_ok.1 h
    obtain ⟨_, -, h⟩ := bind_eq_ok.1 h
    rw [BinOp.mode_of_onValues h, iha hw]
  | power base exponent _ _ =>
    rw [outcome_power] at h
    split at h
    · obtain ⟨x, -, h⟩ := bind_eq_ok.1 h
      obtain ⟨y, -, h⟩ := bind_eq_ok.1 h
      cases h
      exact Eq.symm ‹_›
    · cases h
  | builtin b args _ =>
    rw [outcome_builtin] at h
    obtain ⟨_, -, h⟩ := bind_eq_ok.1 h
    split at h
    · obtain ⟨x, -, h⟩ := bind_eq_ok.1 h
      cases h
      rfl
    · cases h
    · cases h
  | custom name params body args _ ihbody =>
    rw [outcome_custom] at h
    split at h
    · cases h
    · obtain ⟨values, -, h⟩ := bind_eq_ok.1 h
      exact ihbody h
  | comp inner outer args ih =>
    rw [outcome_comp] at h
    obtain ⟨expanded, hexpanded, h⟩ := bind_eq_ok.1 h
    exact ih expanded hexpanded h

/-- A mode yields values of its own kind only. -/
theorem mode_of_outcome {e : Expr K} {mode : Mode} {v : Value K}
    (h : e.outcome mode depth env = .ok v) : v.mode = mode := by
  induction depth generalizing e mode env v with
  | zero =>
    refine mode_of_outcome_of_variables (fun {name mode env v} hname => ?_) h
    obtain ⟨err, herr⟩ := outcome_var_zero name mode env
    rw [herr] at hname
    cases hname
  | succ depth ih =>
    refine mode_of_outcome_of_variables (fun {name mode env v} hname => ?_) h
    rw [outcome_var] at hname
    split at hname
    · cases hname
    · split at hname
      · cases hname
      · exact ih hname

theorem real_of_outcome {e : Expr K} {v : Value K} (h : e.outcome .real depth env = .ok v) :
    ∃ x, v = .real x := by
  have := mode_of_outcome h
  cases v with
  | real x => exact ⟨x, rfl⟩
  | _ => cases this

theorem vector_of_outcome {e : Expr K} {v : Value K} (h : e.outcome .vector depth env = .ok v) :
    ∃ t, v = .vector t := by
  have := mode_of_outcome h
  cases v with
  | vector t => exact ⟨t, rfl⟩
  | _ => cases this

theorem interval_of_outcome {e : Expr K} {v : Value K}
    (h : e.outcome .interval depth env = .ok v) : ∃ a, v = .interval a := by
  have := mode_of_outcome h
  cases v with
  | interval a => exact ⟨a, rfl⟩
  | _ => cases this

/-- Arguments evaluate to numbers. -/
theorem reals_of_outcomes {args : List (Expr K)} {values : List (Value K)}
    (h : args.mapM (fun a => a.outcome .real depth env) = .ok values) :
    ∃ xs : List K, values = xs.map Value.real := by
  have hall := mapM_eq_ok.1 h
  clear h
  induction hall with
  | nil => exact ⟨[], rfl⟩
  | cons hv _ ih =>
    obtain ⟨x, rfl⟩ := real_of_outcome hv
    obtain ⟨xs, rfl⟩ := ih
    exact ⟨x :: xs, rfl⟩

end Expr

end ZeroSet
