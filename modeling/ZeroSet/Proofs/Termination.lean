import ZeroSet.Proofs.PendingNames
import ZeroSet.Expr.Derivative
import Mathlib.Order.Filter.AtTopBot.Basic
import Mathlib.Order.Filter.Finite

/-!
# Evaluating and differentiating end

Evaluation follows variables into bindings and compositions into their expansions, which are
larger trees, and a function takes names off the list that guards against cycles.  Still no
evaluation goes on for ever.  To say so, one level of the recursion is written down with the
levels below left open (`Expr.evaluateStep`).  Unrolled often enough, it gives the result
whatever the open calls would do: there are none left.

* `Evaluation.AgreesAt` — two evaluations that do the same in an environment.
* `Expr.evalStep`, `Expr.evaluateStep` — one level of an evaluation.
* `Expr.derivativeStep` — one level of a differentiation.
* `Expr.exists_unrolling` — both end on every expression.
-/

namespace ZeroSet

variable {K α β : Type}

/-! ## Evaluations that agree -/

namespace Evaluation

/-- Two evaluations have the same result in an environment and leave the same one behind. -/
def AgreesAt (env : Env K) (x y : Evaluation K α) : Prop := x.run.run env = y.run.run env

variable {env : Env K}

theorem AgreesAt.rfl {x : Evaluation K α} : AgreesAt env x x := Eq.refl _

theorem AgreesAt.bind {x y : Evaluation K α} {f g : α → Evaluation K β} (h : AgreesAt env x y)
    (hy : y.Tidy) (hfg : ∀ a, y.value env = .ok a → AgreesAt env (f a) (g a)) :
    AgreesAt env (x >>= f) (y >>= g) := by
  show (x >>= f).run.run env = (y >>= g).run.run env
  rw [run_bind, run_bind, show x.run.run env = y.run.run env from h]
  have hafter := hy env
  rcases hrun : y.run.run env with ⟨err | a, after⟩
  · exact Eq.refl _
  · rw [hrun] at hafter
    cases hafter
    exact hfg a (by rw [value, hrun])

theorem AgreesAt.within {x y : Evaluation K α} {pairs : List (String × Expr K)}
    (h : AgreesAt (env.enter pairs) x y) :
    AgreesAt env (Evaluation.within pairs x) (Evaluation.within pairs y) := by
  show (_, env.leave _ _) = (_, env.leave _ _)
  rw [show x.run.run (env.enter pairs) = y.run.run (env.enter pairs) from h]

theorem AgreesAt.resolving {name : String} {use use' : Expr K → Evaluation K α}
    (h : ∀ e, name ∉ env.resolving → env.bindings.get? name = some e →
      AgreesAt { env with resolving := name :: env.resolving } (use e) (use' e)) :
    AgreesAt env (Evaluation.resolving name use) (Evaluation.resolving name use') := by
  show (if _ then _ else _) = if _ then _ else _
  split
  · exact Eq.refl _
  · rename_i hname
    cases hget : env.bindings.get? name with
    | none => exact Eq.refl _
    | some e =>
      dsimp only
      rw [show (use e).run.run _ = (use' e).run.run _ from h e hname hget]

theorem AgreesAt.mapM {f g : α → Evaluation K β} {as : List α} (hg : ∀ a ∈ as, (g a).Tidy)
    (h : ∀ a ∈ as, AgreesAt env (f a) (g a)) : AgreesAt env (as.mapM f) (as.mapM g) := by
  induction as with
  | nil => exact .rfl
  | cons a as ih =>
    obtain ⟨hga, hgas⟩ := List.forall_mem_cons.1 hg
    obtain ⟨ha, has⟩ := List.forall_mem_cons.1 h
    rw [List.mapM_cons, List.mapM_cons]
    exact .bind ha hga fun _ _ => .bind (ih hgas has) (.mapM hgas) fun _ _ => .rfl

end Evaluation

open Evaluation

/-! ## One level of an evaluation -/

namespace Expr

variable [Scalar K]

/-- One level of an evaluation: `recur` evaluates the parts, and `meaning` the variables. -/
def evalStep (meaning : String → Mode → Evaluation K (Value K))
    (recur : Expr K → Mode → Evaluation K (Value K)) (e : Expr K) (mode : Mode) :
    Evaluation K (Value K) :=
  match e with
  | .num v =>
    match mode with
    | .real => pure (.real v)
    | .interval => pure (.interval (.point v))
    | .vector => throw (.unimplemented .number .vector)
  | .var name => meaning name mode
  | .vec items =>
    match mode with
    | .vector => do
      let components ← items.mapM fun e => do
        let v ← recur e .real
        v.asReal
      let t ← Tuple.ofList components
      return .vector t
    | mode => throw (.unimplemented .vector mode)
  | .interval lo hi =>
    match mode with
    | .interval => do
      let lo ← (← recur lo .real).asReal
      let hi ← (← recur hi .real).asReal
      let a ← Interval.ofBounds lo hi
      return .interval a
    | mode => throw (.unimplemented .interval mode)
  | .neg a => do
    let v ← recur a mode
    return v.negate
  | .binary op a b => do
    let v ← recur a mode
    let w ← recur b mode
    op.onValues v w
  | .power base exponent =>
    match mode with
    | .real => do
      let base ← (← recur base .real).asReal
      let exponent ← (← recur exponent .real).asReal
      return .real (Scalar.pow base exponent)
    | mode => throw (.unimplemented .power mode)
  | .apply (.builtin b) args => do
    b.check
    match mode, args with
    | .real, [arg] =>
      let x ← (← recur arg .real).asReal
      return .real (b.value x)
    | .real, args => throw (.dimensionMismatch args.length 1)
    | mode, _ => throw (.unimplemented (.builtin b) mode)
  | .apply (.custom _ params body) args =>
    if args.length ≠ params.length then throw (.dimensionMismatch args.length params.length)
    else do
      let values ← args.mapM fun a => recur a mode
      Evaluation.within (params.zip (values.map Value.toExpr)) (recur body mode)
  | .apply (.comp inner outer) args => do
    let expanded ← (Func.comp inner outer).expand args
    recur expanded mode

/-- One level of an evaluation where variables lead to their bindings, with no bound on how often
in a row. -/
def evaluateStep (recur : Expr K → Mode → Evaluation K (Value K)) :
    Expr K → Mode → Evaluation K (Value K) :=
  evalStep (fun name mode => .resolving name fun bound => recur bound mode) recur

section

variable (meaning : String → Mode → Evaluation K (Value K))

theorem evalReals_eq_mapM (es : List (Expr K)) :
    evalReals meaning es =
      es.mapM fun e => e.evalWith meaning .real >>= fun v => liftM v.asReal := by
  induction es with
  | nil =>
    rw [evalReals]
    rfl
  | cons e es ih =>
    rw [evalReals, List.mapM_cons, ih, bind_assoc]

theorem evalArgs_eq_mapM (es : List (Expr K)) (mode : Mode) :
    evalArgs meaning es mode = es.mapM fun e => e.evalWith meaning mode := by
  induction es with
  | nil =>
    rw [evalArgs]
    rfl
  | cons e es ih => rw [evalArgs, List.mapM_cons, ih]

/-- Evaluating is evaluating the parts, and then one level more. -/
theorem evalWith_eq_evalStep (e : Expr K) (mode : Mode) :
    e.evalWith meaning mode = evalStep meaning (fun e mode => e.evalWith meaning mode) e mode := by
  rw [evalWith.eq_def]
  cases e with
  | num v => cases mode <;> rfl
  | var name => rfl
  | vec items =>
    cases mode with
    | vector =>
      dsimp only
      rw [evalReals_eq_mapM]
      rfl
    | _ => rfl
  | interval lo hi => cases mode <;> rfl
  | neg a => rfl
  | binary op a b => rfl
  | power a b => cases mode <;> rfl
  | apply f args =>
    cases f with
    | builtin b =>
      cases mode <;> rfl
    | custom name params body =>
      dsimp only
      rw [evalArgs_eq_mapM]
      rfl
    | comp inner outer =>
      dsimp only [evalStep]
      split
      · rename_i h
        rw [h]
        rfl
      · rename_i h
        rw [h]
        rfl

end

/-! ## Evaluating ends -/

/-- The recursion unrolled `n` times gives the result for all `n` from some number on, whatever
`rest` the calls that are still open would do. -/
def Ends (depth : Nat) (e : Expr K) (mode : Mode) (env : Env K) : Prop :=
  ∀ᶠ n in Filter.atTop, ∀ rest,
    AgreesAt env ((evaluateStep^[n] rest) e mode) (e.evaluateWithin depth mode)

variable {depth : Nat} {e a b : Expr K} {mode : Mode} {env : Env K}

/-- It is enough to look at the level on top. -/
theorem ends_of_step
    (h : ∀ᶠ n in Filter.atTop, ∀ rest,
      AgreesAt env
        (evalStep (fun name mode => .resolving name fun bound => (evaluateStep^[n] rest) bound mode)
          (evaluateStep^[n] rest) e mode)
        (evalStep (variableAt depth) (evaluateWithin depth) e mode)) :
    Ends depth e mode env := by
  have hfix : e.evaluateWithin depth mode =
      evalStep (variableAt depth) (evaluateWithin depth) e mode := by
    have hfun : evaluateWithin depth =
        fun (e : Expr K) mode => e.evalWith (variableAt depth) mode := by
      funext e mode
      exact evaluateWithin_eq e depth mode
    rw [hfun]
    exact evalWith_eq_evalStep (variableAt depth) e mode
  rw [Ends, ← Filter.map_add_atTop_eq_nat 1, Filter.eventually_map]
  filter_upwards [h] with n hn rest
  rw [Function.iterate_succ_apply', hfix]
  exact hn rest

theorem ends_num (v : K) : Ends depth (.num v) mode env := by
  refine ends_of_step (.of_forall fun n rest => ?_)
  exact .rfl

/-- The parts of a list all end after the same number of levels. -/
theorem eventually_forall_mem {es : List (Expr K)} (h : ∀ e ∈ es, Ends depth e mode env) :
    ∀ᶠ n in Filter.atTop, ∀ e ∈ es, ∀ rest,
      AgreesAt env ((evaluateStep^[n] rest) e mode) (e.evaluateWithin depth mode) :=
  (Filter.eventually_all_finite es.finite_toSet).2 h

theorem ends_vec {items : List (Expr K)} (h : ∀ e ∈ items, Ends depth e .real env) :
    Ends depth (.vec items) mode env := by
  refine ends_of_step ?_
  filter_upwards [eventually_forall_mem h] with n hn rest
  cases mode with
  | vector =>
    have htidy : ∀ e ∈ items,
        ((e.evaluateWithin depth .real >>= fun v => liftM v.asReal) : Evaluation K K).Tidy :=
      fun e _ => .bind (tidy_evaluateWithin e depth .real) fun _ => .lift _
    refine .bind (.mapM htidy fun e he => ?_) (.mapM htidy) fun _ _ => .rfl
    exact .bind (hn e he rest) (tidy_evaluateWithin e depth .real) fun _ _ => .rfl
  | _ => exact .rfl

theorem ends_interval (ha : Ends depth a .real env) (hb : Ends depth b .real env) :
    Ends depth (.interval a b) mode env := by
  refine ends_of_step ?_
  filter_upwards [ha, hb] with n hna hnb rest
  cases mode with
  | interval =>
    refine .bind (hna rest) (tidy_evaluateWithin a depth .real) fun _ _ => ?_
    refine .bind .rfl (.lift _) fun _ _ => ?_
    exact .bind (hnb rest) (tidy_evaluateWithin b depth .real) fun _ _ => .rfl
  | _ => exact .rfl

theorem ends_of_isLiteral (h : e.isLiteral = true) : Ends depth e mode env := by
  refine literalInduction (P := fun e => ∀ mode, Ends depth e mode env) ?_ ?_ ?_ h mode
  · intro v mode
    exact ends_num v
  · intro items ih mode
    exact ends_vec fun e he => ih e he .real
  · intro lo hi hlo hhi mode
    exact ends_interval (hlo .real) (hhi .real)

/-- If variables end wherever at most `bound` names are pending, so does every expression. -/
theorem ends_of_variables {bound : Nat}
    (hvar : ∀ name mode (env : Env K), env.pending.card ≤ bound → Ends depth (.var name) mode env)
    (e : Expr K) (mode : Mode) (env : Env K) (henv : env.pending.card ≤ bound) :
    Ends depth e mode env := by
  induction e using expansionInduction generalizing mode env with
  | num v => exact ends_num v
  | var name => exact hvar name mode env henv
  | vec items ih => exact ends_vec fun e he => ih e he .real env henv
  | interval lo hi ihlo ihhi => exact ends_interval (ihlo .real env henv) (ihhi .real env henv)
  | neg a ih =>
    refine ends_of_step ?_
    filter_upwards [ih mode env henv] with n hn rest
    exact .bind (hn rest) (tidy_evaluateWithin a depth mode) fun _ _ => .rfl
  | binary op a b iha ihb =>
    refine ends_of_step ?_
    filter_upwards [iha mode env henv, ihb mode env henv] with n hna hnb rest
    refine .bind (hna rest) (tidy_evaluateWithin a depth mode) fun _ _ => ?_
    exact .bind (hnb rest) (tidy_evaluateWithin b depth mode) fun _ _ => .rfl
  | power a b iha ihb =>
    refine ends_of_step ?_
    filter_upwards [iha .real env henv, ihb .real env henv] with n hna hnb rest
    cases mode with
    | real =>
      refine .bind (hna rest) (tidy_evaluateWithin a depth .real) fun _ _ => ?_
      refine .bind .rfl (.lift _) fun _ _ => ?_
      exact .bind (hnb rest) (tidy_evaluateWithin b depth .real) fun _ _ => .rfl
    | _ => exact .rfl
  | builtin f args ih =>
    refine ends_of_step ?_
    filter_upwards [eventually_forall_mem fun a ha => ih a ha .real env henv] with n hn rest
    refine .bind .rfl (.lift _) fun _ _ => ?_
    cases mode with
    | real =>
      rcases args with _ | ⟨arg, _ | ⟨_, _⟩⟩
      · exact .rfl
      · have harg := hn arg (List.mem_singleton_self arg) rest
        exact .bind harg (tidy_evaluateWithin arg depth .real) fun _ _ => .rfl
      · exact .rfl
    | _ => exact .rfl
  | custom name params body args ihargs ihbody =>
    have htidy : ∀ a ∈ args, (a.evaluateWithin depth mode).Tidy :=
      fun a _ => tidy_evaluateWithin a depth mode
    -- the arguments settle in which environment the body is evaluated
    have hinside : ∀ᶠ n in Filter.atTop, ∀ values : List (Value K),
        (args.mapM fun a : Expr K => a.evaluateWithin depth mode).value env = .ok values →
          ∀ rest, AgreesAt (env.enter (params.zip (values.map Value.toExpr)))
            ((evaluateStep^[n] rest) body mode) (body.evaluateWithin depth mode) := by
      rcases hvalues : (args.mapM fun a : Expr K => a.evaluateWithin depth mode).value env with
        err | values
      · refine .of_forall fun n values hok => ?_
        cases hok
      · have hle := (env.card_pending_enter_le params values).trans henv
        filter_upwards [ihbody mode _ hle] with n hn values' hok
        cases hok
        exact hn
    refine ends_of_step ?_
    filter_upwards [eventually_forall_mem fun a ha => ihargs a ha mode env henv, hinside]
      with n hn hbody rest
    show AgreesAt env (if _ then _ else _) (if _ then _ else _)
    split
    · exact .rfl
    · refine .bind (.mapM htidy fun a ha => hn a ha rest) (.mapM htidy) fun values hok => ?_
      exact .within (hbody values hok rest)
  | comp inner outer args ih =>
    rcases hexpanded : (Func.comp inner outer).expand args with err | expanded
    · refine ends_of_step (.of_forall fun n rest => ?_)
      show AgreesAt env (_ >>= _) (_ >>= _)
      rw [hexpanded]
      exact .rfl
    · refine ends_of_step ?_
      filter_upwards [ih expanded hexpanded mode env henv] with n hn rest
      show AgreesAt env (_ >>= _) (_ >>= _)
      rw [hexpanded]
      exact hn rest

theorem ends_var {name : String}
    (h : ∀ bound, name ∉ env.resolving → env.bindings.get? name = some bound →
      Ends depth bound mode { env with resolving := name :: env.resolving }) :
    Ends (depth + 1) (.var name) mode env := by
  refine ends_of_step ?_
  by_cases hname : name ∈ env.resolving
  · refine .of_forall fun n rest => .resolving fun bound hname' _ => ?_
    exact absurd hname hname'
  · cases hget : env.bindings.get? name with
    | none =>
      refine .of_forall fun n rest => .resolving fun bound _ hget' => ?_
      cases hget.symm.trans hget'
    | some bound =>
      filter_upwards [h bound hname hget] with n hn rest
      refine .resolving fun bound' _ hget' => ?_
      cases hget.symm.trans hget'
      exact hn rest

/-- If fewer names are pending than variables may be followed in a row, evaluating ends. -/
theorem ends_evaluateWithin (e : Expr K) (depth : Nat) (mode : Mode) (env : Env K)
    (henv : env.pending.card < depth) : Ends depth e mode env := by
  induction depth generalizing e mode env with
  | zero => cases henv
  | succ depth ih =>
    have hcard : env.pending.card ≤ depth := Nat.le_of_lt_succ henv
    refine ends_of_variables (fun name mode env henv => ?_) e mode env hcard
    refine ends_var fun bound hname hget => ?_
    cases hliteral : bound.isLiteral with
    | true => exact ends_of_isLiteral hliteral
    | false =>
      have hlt := Env.card_pending_resolve hname hget hliteral
      exact ih bound mode _ (hlt.trans_le henv)

/-! ## One level of a differentiation -/

/-- The terms of the chain rule for the arguments of a user function, where `recur`
differentiates. -/
def chainTermsStep (recur : String → Expr K → Except (EvalError K) (Expr K)) (name : String)
    (withBody : Expr K → Expr K) (body : Expr K) :
    (params : List String) → (args : List (Expr K)) → Except (EvalError K) (List (Expr K))
  | param :: params, arg :: args =>
    if !arg.dependsOn name then chainTermsStep recur name withBody body params args
    else do
      let outer ← recur param body
      let inner ← recur name arg
      let terms ← chainTermsStep recur name withBody body params args
      return withBody outer * inner :: terms
  | _, _ => .ok []

/-- One level of a differentiation: `recur` differentiates the parts. -/
def derivativeStep (recur : String → Expr K → Except (EvalError K) (Expr K)) (name : String)
    (e : Expr K) : Except (EvalError K) (Expr K) :=
  if !e.dependsOn name then .ok (.num 0)
  else
    match e with
    | .num _ => .ok (.num 0)
    | .var other => .ok (.num (if other = name then 1 else 0))
    | .vec items => do
      let items ← items.mapM (recur name)
      return .vec items
    | .interval lo hi => do
      let lo ← recur name lo
      let hi ← recur name hi
      return .interval lo hi
    | .neg a => do
      let da ← recur name a
      return -da
    | .binary op a b => do
      let da ← recur name a
      let db ← recur name b
      return match op with
        | .add => da + db
        | .sub => da - db
        | .mul => da * b + a * db
        | .div => (da * b - a * db) / .power b (.num 2.0)
    | .power a b =>
      if b.dependsOn name then do
        let db ← recur name b
        let da ← recur name a
        return .exp (b * .ln a) * (db * .ln a + b * (da / a))
      else do
        let da ← recur name a
        return b * .power a (b - .num 1) * da
    | .apply (.builtin f) args => do
      f.check
      match args with
      | [u] => do
        let du ← recur name u
        return f.derivativeAt u * du
      | args => .error (.dimensionMismatch args.length 1)
    | .apply (.comp inner outer) args => do
      let expanded ← (Func.comp inner outer).expand args
      recur name expanded
    | .apply (.custom f params body) args => do
      let withBody (body : Expr K) : Expr K := .apply (.custom f params body) args
      let chained ← chainTermsStep recur name withBody body params args
      if name ∉ params && body.dependsOn name then do
        let inner ← recur name body
        return Expr.sum (chained ++ [withBody inner])
      else return Expr.sum chained

theorem derivativeList_eq_mapM (name : String) (es : List (Expr K)) :
    derivativeList name es = es.mapM fun e => e.derivative name := by
  induction es with
  | nil =>
    rw [derivativeList]
    rfl
  | cons e es ih => rw [derivativeList, List.mapM_cons, ih]

theorem chainTerms_eq_chainTermsStep (name : String) (withBody : Expr K → Expr K)
    (body : Expr K) (params : List String) (args : List (Expr K)) :
    chainTerms name withBody body params args =
      chainTermsStep (fun name e => e.derivative name) name withBody body params args := by
  induction params generalizing args with
  | nil => rw [chainTerms.eq_def]; rfl
  | cons param params ih =>
    cases args with
    | nil => rw [chainTerms.eq_def]; rfl
    | cons arg args => rw [chainTerms, chainTermsStep, ih]

/-- Differentiating is differentiating the parts, and then one level more. -/
theorem derivative_eq_derivativeStep (name : String) (e : Expr K) :
    e.derivative name = derivativeStep (fun name e => e.derivative name) name e := by
  rw [derivative.eq_def, derivativeStep.eq_def]
  congr 1
  cases e with
  | vec items =>
    dsimp only
    rw [derivativeList_eq_mapM]
  | apply f args =>
    cases f with
    | builtin b => rfl
    | custom f params body =>
      dsimp only
      rw [chainTerms_eq_chainTermsStep]
    | comp inner outer =>
      dsimp only
      split
      · rename_i h
        rw [h]
        rfl
      · rename_i h
        rw [h]
        rfl
  | _ => rfl

/-! ## Differentiating ends -/

/-- The recursion unrolled `n` times gives the derivative for all `n` from some number on, whatever
`rest` the calls that are still open would do. -/
def DerivativeEnds (name : String) (e : Expr K) : Prop :=
  ∀ᶠ n in Filter.atTop, ∀ rest, (derivativeStep^[n] rest) name e = e.derivative name

theorem derivativeEnds_of_step {name : String}
    (h : ∀ᶠ n in Filter.atTop, ∀ rest,
      derivativeStep (derivativeStep^[n] rest) name e =
        derivativeStep (fun name e => e.derivative name) name e) :
    DerivativeEnds name e := by
  rw [DerivativeEnds, ← Filter.map_add_atTop_eq_nat 1, Filter.eventually_map]
  filter_upwards [h] with n hn rest
  rw [Function.iterate_succ_apply', derivative_eq_derivativeStep]
  exact hn rest

theorem eventually_derivatives {name : String} {es : List (Expr K)}
    (h : ∀ e ∈ es, DerivativeEnds name e) :
    ∀ᶠ n in Filter.atTop, ∀ e ∈ es, ∀ rest,
      (derivativeStep^[n] rest) name e = e.derivative name :=
  (Filter.eventually_all_finite es.finite_toSet).2 h

omit [Scalar K] in
theorem chainTermsStep_congr {recur recur' : String → Expr K → Except (EvalError K) (Expr K)}
    {name : String} {withBody : Expr K → Expr K} {body : Expr K} {params : List String}
    {args : List (Expr K)} (hbody : ∀ param ∈ params, recur param body = recur' param body)
    (hargs : ∀ a ∈ args, recur name a = recur' name a) :
    chainTermsStep recur name withBody body params args =
      chainTermsStep recur' name withBody body params args := by
  induction params generalizing args with
  | nil => rw [chainTermsStep.eq_def, chainTermsStep.eq_def]
  | cons param params ih =>
    cases args with
    | nil => rw [chainTermsStep.eq_def, chainTermsStep.eq_def]
    | cons arg args =>
      obtain ⟨hparam, hparams⟩ := List.forall_mem_cons.1 hbody
      obtain ⟨harg, hrest⟩ := List.forall_mem_cons.1 hargs
      rw [chainTermsStep, chainTermsStep, hparam, harg, ih hparams hrest]

/-- Differentiating ends. -/
theorem derivativeEnds (name : String) (e : Expr K) : DerivativeEnds name e := by
  induction e using expansionInduction generalizing name with
  | num v => exact derivativeEnds_of_step (.of_forall fun _ _ => rfl)
  | var other => exact derivativeEnds_of_step (.of_forall fun _ _ => rfl)
  | vec items ih =>
    refine derivativeEnds_of_step ?_
    filter_upwards [eventually_derivatives fun e he => ih e he name] with n hn rest
    have hitems := mapM_congr fun e he => hn e he rest
    simp only [derivativeStep, hitems]
  | interval lo hi ihlo ihhi =>
    refine derivativeEnds_of_step ?_
    filter_upwards [ihlo name, ihhi name] with n hlo hhi rest
    simp only [derivativeStep, hlo rest, hhi rest]
  | neg a ih =>
    refine derivativeEnds_of_step ?_
    filter_upwards [ih name] with n hn rest
    simp only [derivativeStep, hn rest]
  | binary op a b iha ihb =>
    refine derivativeEnds_of_step ?_
    filter_upwards [iha name, ihb name] with n ha hb rest
    simp only [derivativeStep, ha rest, hb rest]
  | power a b iha ihb =>
    refine derivativeEnds_of_step ?_
    filter_upwards [iha name, ihb name] with n ha hb rest
    simp only [derivativeStep, ha rest, hb rest]
  | builtin f args ih =>
    refine derivativeEnds_of_step ?_
    filter_upwards [eventually_derivatives fun a ha => ih a ha name] with n hn rest
    rcases args with _ | ⟨arg, _ | ⟨_, _⟩⟩
    · rfl
    · simp only [derivativeStep, hn arg (List.mem_singleton_self arg) rest]
    · rfl
  | custom f params body args ihargs ihbody =>
    have hparams : ∀ᶠ n in Filter.atTop, ∀ param ∈ params, ∀ rest,
        (derivativeStep^[n] rest) param body = body.derivative param :=
      (Filter.eventually_all_finite params.finite_toSet).2 fun param _ => ihbody param
    refine derivativeEnds_of_step ?_
    filter_upwards [eventually_derivatives fun a ha => ihargs a ha name, hparams, ihbody name]
      with n hn hparams hbody rest
    have hchained : chainTermsStep (derivativeStep^[n] rest) name
        (fun body => apply (.custom f params body) args) body params args =
          chainTermsStep derivative name (fun body => apply (.custom f params body) args) body
            params args :=
      chainTermsStep_congr (fun param hparam => hparams param hparam rest) fun a ha => hn a ha rest
    simp only [derivativeStep, hchained, hbody rest]
  | comp inner outer args ih =>
    rcases hexpanded : (Func.comp inner outer).expand args with err | expanded
    · refine derivativeEnds_of_step (.of_forall fun n rest => ?_)
      simp only [derivativeStep, hexpanded]
      rfl
    · refine derivativeEnds_of_step ?_
      filter_upwards [ih expanded hexpanded name] with n hn rest
      simp only [derivativeStep, hexpanded]
      congr 1
      exact hn rest

/-! ## Both end -/

/-- In every mode and every environment, cyclic or not, evaluating an expression ends, and so does
differentiating it in any name: unrolled often enough, either recursion has reached its result,
whatever stands for the calls further down. -/
theorem exists_unrolling :
    (∀ (e : Expr K) (mode : Mode) (env : Env K), ∃ n, ∀ rest,
      ((evaluateStep^[n] rest) e mode).run.run env = (e.evaluate mode).run.run env) ∧
    ∀ (name : String) (e : Expr K), ∃ n, ∀ rest,
      (derivativeStep^[n] rest) name e = e.derivative name := by
  constructor
  · intro e mode env
    have henv : env.pending.card < env.bindings.size + 1 :=
      Nat.lt_succ_of_le env.card_pending_le
    exact (ends_evaluateWithin e _ mode env henv).exists
  · intro name e
    exact (derivativeEnds name e).exists

end Expr

end ZeroSet
