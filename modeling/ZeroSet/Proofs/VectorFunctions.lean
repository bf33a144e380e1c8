import ZeroSet.Proofs.FeedingForward
import ZeroSet.Proofs.RealValue
import ZeroSet.Proofs.Reachability

/-!
# Functions with vectors for bodies

A function whose body is a vector has a component for each element.  Where the parameters stand for
numbers, the body evaluates to the tuple of the components' values.  A call in vector mode does not
bring this about: it evaluates the arguments in vector mode too, and what has a real value never has
a tuple for a value, since numbers are real values and vectors are not.

* `Expr.exists_error_of_real` — no expression has both a real value and a tuple.
* `Func.yields_of_componentValues` — the values of the components are those of the elements.
* `Func.tuple_of_componentValues` — the body gives the tuple of these values, the call an error.
* `Func.call_vector_withOpposite` — a function of one number for which the call fails.
-/

namespace ZeroSet

variable {K : Type} [Scalar K]

/-! ## Real values and tuples exclude each other -/

namespace Expr

variable {depth : Nat} {env : Env K}

/-- If no variable has both a real value and a tuple, no expression has both. -/
theorem exists_error_of_real_of_variables
    (hvar : ∀ {name env v}, (var name : Expr K).outcome .real depth env = .ok v →
      ∃ err, (var name : Expr K).outcome .vector depth env = .error err)
    {e : Expr K} {v : Value K} (h : e.outcome .real depth env = .ok v) :
    ∃ err, e.outcome .vector depth env = .error err := by
  induction e using expansionInduction generalizing env v with
  | num x => exact ⟨_, outcome_num x⟩
  | var name => exact hvar h
  | vec items _ =>
    rw [outcome_vec] at h
    cases h
  | interval lo hi _ _ => exact ⟨_, outcome_interval lo hi⟩
  | neg a ih =>
    rw [outcome_neg] at h
    obtain ⟨w, hw, -⟩ := map_eq_ok.1 h
    obtain ⟨err, herr⟩ := ih hw
    exact ⟨err, by rw [outcome_neg, herr]; rfl⟩
  | binary op a b iha _ =>
    rw [outcome_binary] at h
    obtain ⟨w, hw, -⟩ := bind_eq_ok.1 h
    obtain ⟨err, herr⟩ := iha hw
    exact ⟨err, by rw [outcome_binary, herr]; rfl⟩
  | power base exponent _ _ => exact ⟨_, outcome_power base exponent⟩
  | builtin b args _ =>
    rw [outcome_builtin] at h
    obtain ⟨_, hcheck, -⟩ := bind_eq_ok.1 h
    exact ⟨_, by rw [outcome_builtin, hcheck]; rfl⟩
  | custom name params body args ihargs ihbody =>
    rw [outcome_custom] at h ⊢
    split at h
    · cases h
    · rename_i hlength
      obtain ⟨values, hvalues, hbody⟩ := bind_eq_ok.1 h
      rw [if_neg hlength]
      cases args with
      | nil =>
        -- nothing is passed, so that the body is evaluated in the same environment
        cases hvalues
        exact ihbody hbody
      | cons a args =>
        obtain ⟨w, _, hw, -, -⟩ := List.forall₂_cons_left_iff.1 (mapM_eq_ok.1 hvalues)
        obtain ⟨err, herr⟩ := ihargs a (List.mem_cons_self ..) hw
        exact ⟨err, by rw [List.mapM_cons, herr]; rfl⟩
  | comp inner outer args ih =>
    rw [outcome_comp] at h ⊢
    obtain ⟨expanded, hexpanded, hvalue⟩ := bind_eq_ok.1 h
    rw [hexpanded]
    exact ih expanded hexpanded hvalue

/-- An expression that has a real value fails in vector mode. -/
theorem exists_error_of_real {e : Expr K} {v : Value K} (h : e.outcome .real depth env = .ok v) :
    ∃ err, e.outcome .vector depth env = .error err := by
  induction depth generalizing e env v with
  | zero =>
    refine exists_error_of_real_of_variables ?_ h
    intro name env v hname
    obtain ⟨err, herr⟩ := outcome_var_zero name .real env
    rw [herr] at hname
    cases hname
  | succ depth ih =>
    refine exists_error_of_real_of_variables ?_ h
    intro name env v hname
    rw [outcome_var] at hname ⊢
    split at hname
    · cases hname
    · rename_i hresolving
      rw [if_neg hresolving]
      cases hget : env.bindings.get? name with
      | none =>
        rw [hget] at hname
        cases hname
      | some bound =>
        rw [hget] at hname
        exact ih hname

end Expr

/-! ## The components and the body -/

namespace Func

variable {name : String} {params : List String} {items args : List (Expr K)} {xs ws : List K}
  {env : Env K}

/-- What a component gives to some arguments is the value of its element where the parameters stand
for the values of the arguments. -/
theorem yields_of_component {index : Nat} {item : Expr K} {g : Func K} {w : K}
    (hargs : List.Forall₂ (Expr.Yields (env.bindings.size + 1) env) args xs)
    (hitem : items[index]? = some item)
    (hg : (custom name params (.vec items)).component index = .ok g)
    (hw : (g.call args .real).value env = .ok (.real w)) :
    item.Yields (env.bindings.size + 1) (env.enter (params.zip (xs.map .num))) w := by
  have hcomponent : g = custom (name ++ "[" ++ Nat.repr index ++ "]") params item := by
    simp only [component, Expr.items?, hitem] at hg
    exact (Except.ok.inj hg).symm
  subst hcomponent
  rw [value_call] at hw
  obtain ⟨applied, happlied, hw⟩ := bind_eq_ok.1 hw
  cases Func.eq_apply_of_apply happlied
  obtain ⟨-, xs', hargs', hitem⟩ := Expr.Yields.exists_custom hw
  -- the arguments have no other values
  have hsame : xs = xs' := by
    refine List.forall₂_eq_eq_eq ▸ forall₂_of_common hargs.flip hargs'.flip ?_
    intro x x' a hx hx'
    exact Expr.Yields.unique hx hx'
  rw [hsame]
  exact hitem

/-- The elements have the values of the components where the parameters stand for the values of the
arguments. -/
theorem yields_of_componentValues
    (hargs : List.Forall₂ (Expr.Yields (env.bindings.size + 1) env) args xs)
    (h : (custom name params (.vec items)).ComponentValues args .real env (ws.map .real)) :
    List.Forall₂ (Expr.Yields (env.bindings.size + 1) (env.enter (params.zip (xs.map .num))))
      items ws := by
  have hdim : (custom name params (.vec items)).dim = items.length := rfl
  obtain ⟨hlength, hstep⟩ := List.forall₂_iff_get.1 h
  simp only [List.length_map, List.length_range, hdim] at hlength hstep
  refine List.forall₂_iff_get.2 ⟨hlength, fun index hitem hvalue => ?_⟩
  obtain ⟨g, hg, hw⟩ := hstep index hitem hvalue
  simp only [List.get_eq_getElem, List.getElem_range, List.getElem_map] at hg hw
  exact yields_of_component hargs (List.getElem?_eq_getElem hitem) hg hw

/-- Where the parameters stand for the values of the arguments, the body gives the tuple of the
values of the components, at any depth that lets it reach them. -/
theorem outcome_body_of_componentValues (hsize : 1 ≤ items.length ∧ items.length ≤ 4)
    (hargs : List.Forall₂ (Expr.Yields (env.bindings.size + 1) env) args xs)
    (h : (custom name params (.vec items)).ComponentValues args .real env (ws.map .real)) :
    ∃ t : Tuple K, t.components = ws ∧
      (Expr.vec items).outcome .vector (env.bindings.size + 1)
        (env.enter (params.zip (xs.map .num))) = .ok (.vector t) := by
  have hitems := yields_of_componentValues hargs h
  have hlength : 1 ≤ ws.length ∧ ws.length ≤ 4 := by
    rw [← hitems.length_eq]
    exact hsize
  have hvalues : items.mapM (fun e => e.outcome .real (env.bindings.size + 1)
      (env.enter (params.zip (xs.map .num))) >>= Value.asReal) = .ok ws := by
    refine mapM_eq_ok.2 (hitems.imp fun e w hw => ?_)
    rw [Expr.Yields] at hw
    rw [hw]
    rfl
  refine ⟨⟨ws, hlength.1, hlength.2⟩, rfl, ?_⟩
  rw [Expr.outcome_vec, if_pos rfl, hvalues]
  show (Tuple.ofList ws >>= fun t => pure (Value.vector t)) = _
  rw [Tuple.ofList, dif_pos hlength]
  rfl

/-- Once the arguments and every component have real values, the body of a function with a vector
for its body evaluates to the tuple of the components' values in a scope that binds the parameters
to the values of the arguments.  A call in vector mode gives this tuple as well if nothing has to be
passed; otherwise it ends in the error that the first argument ends in. -/
theorem tuple_of_componentValues (hsize : 1 ≤ items.length ∧ items.length ≤ 4)
    (hargs : args.mapM (fun a => a.evaluateReal.value env) = .ok xs)
    (h : (custom name params (.vec items)).ComponentValues args .real env (ws.map .real)) :
    (∃ t : Tuple K, t.components = ws ∧
      (Evaluation.within (params.zip (xs.map .num)) ((Expr.vec items).evaluate .vector)).value env =
        .ok (.vector t) ∧
      (args = [] →
        ((custom name params (.vec items)).call args .vector).value env = .ok (.vector t))) ∧
    ∀ first rest, args = first :: rest → ∃ err, (first.evaluate .vector).value env = .error err ∧
      ((custom name params (.vec items)).call args .vector).value env = .error err := by
  have hyields : List.Forall₂ (Expr.Yields (env.bindings.size + 1) env) args xs :=
    (mapM_eq_ok.1 hargs).imp fun a x hx => Expr.evaluateReal_eq_ok.1 hx
  have hcount : args.length = params.length := by
    obtain ⟨g, w, hg, hw⟩ := h.exists_call (Nat.ne_of_gt hsize.1)
    exact (length_of_call hw).trans (congrArg List.length (params_component hg))
  have hcall : ((custom name params (.vec items)).call args .vector).value env =
      (Expr.apply (custom name params (.vec items)) args).outcome .vector
        (env.bindings.size + 1) env := by
    rw [value_call, apply_of_body (f := custom name params (.vec items)) rfl hcount]
    rfl
  rw [hcall, Expr.outcome_custom, if_neg (not_not_intro hcount)]
  constructor
  · obtain ⟨t, ht, hbody⟩ := outcome_body_of_componentValues hsize hyields h
    refine ⟨t, ht, ?_, ?_⟩
    · -- no more names are pending in the scope than outside of it
      have hliterals : xs.map Expr.num = (xs.map Value.real).map Value.toExpr := by
        rw [List.map_map]
        rfl
      have hpending : (env.enter (params.zip (xs.map .num))).pending.card ≤ env.pending.card := by
        rw [hliterals]
        exact env.card_pending_enter_le params _
      have hinside := (env.enter (params.zip (xs.map .num))).card_pending_le
      have houtside := env.card_pending_le
      rw [Evaluation.value_within, Expr.value_evaluate, ← hbody]
      exact Expr.outcome_eq_of_pending (by omega) (by omega) _ _
    · intro hnil
      subst hnil
      cases hyields
      exact hbody
  · intro first rest hcons
    subst hcons
    obtain ⟨x, _, hfirst, -, -⟩ := List.forall₂_cons_left_iff.1 hyields
    obtain ⟨err, herr⟩ := Expr.exists_error_of_real hfirst
    refine ⟨err, herr, ?_⟩
    rw [List.mapM_cons, herr]
    rfl

/-- A number and its opposite. -/
def withOpposite : Func Float := .custom "f" ["x"] (.vec [.var "x", .neg (.var "x")])

theorem componentValues_withOpposite :
    withOpposite.ComponentValues [.num 1] .real .empty ([1, -1].map .real) := by
  refine .cons ⟨_, rfl, ?_⟩ (.cons ⟨_, rfl, ?_⟩ .nil)
  · rw [value_call]
    show (Expr.apply (.custom _ _ _) _).outcome .real _ _ = _
    simp [Expr.outcome_custom, Expr.outcome_var, Expr.outcome_num, Env.enter, Env.empty,
      Bindings.empty, Bindings.putAll, Value.toExpr, bind, Except.bind, pure, Except.pure]
  · rw [value_call]
    show (Expr.apply (.custom _ _ _) _).outcome .real _ _ = _
    simp [Expr.outcome_custom, Expr.outcome_neg, Expr.outcome_var, Expr.outcome_num, Env.enter,
      Env.empty, Bindings.empty, Bindings.putAll, Value.toExpr, bind, Except.bind, pure,
      Except.pure]
    rfl

theorem evaluateReal_one :
    [Expr.num (1 : Float)].mapM (fun a => a.evaluateReal.value .empty) = .ok [1] := by
  simp [Expr.value_evaluateReal, Expr.outcome_num, Value.asReal, bind, Except.bind, pure,
    Except.pure]

/-- In the scope of the call the body gives both numbers, but the call does not get that far. -/
theorem tuple_of_componentValues_withOpposite :
    (∃ t : Tuple Float, t.components = [1, -1] ∧
      (Evaluation.within [("x", .num 1)]
        ((Expr.vec [.var "x", .neg (.var "x")]).evaluate .vector)).value .empty =
          .ok (.vector t)) ∧
      ∃ err, ((Expr.num (1 : Float)).evaluate .vector).value .empty = .error err ∧
        (withOpposite.call [.num 1] .vector).value .empty = .error err := by
  obtain ⟨⟨t, ht, hbody, -⟩, hcall⟩ := tuple_of_componentValues ⟨by decide, by decide⟩
    evaluateReal_one componentValues_withOpposite
  exact ⟨⟨t, ht, hbody⟩, hcall _ _ rfl⟩

/-- Both components have a value at one, but a call in vector mode stops at the argument. -/
theorem call_vector_withOpposite :
    [Expr.num (1 : Float)].mapM (fun a => a.evaluateReal.value .empty) = .ok [1] ∧
      withOpposite.ComponentValues [.num 1] .real .empty ([1, -1].map .real) ∧
      (withOpposite.call [.num 1] .vector).value .empty =
        .error (.unimplemented .number .vector) := by
  refine ⟨evaluateReal_one, componentValues_withOpposite, ?_⟩
  rw [value_call]
  show (Expr.apply (.custom _ _ _) _).outcome .vector _ _ = _
  rw [Expr.outcome_custom, if_neg (by decide), List.mapM_cons, Expr.outcome_num]
  rfl

end Func

end ZeroSet
