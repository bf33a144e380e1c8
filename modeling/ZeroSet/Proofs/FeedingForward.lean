import ZeroSet.Proofs.NarrowerIntervals
import ZeroSet.Proofs.ToCustom

/-!
# Compositions feed values forward

A composition is evaluated as its expansion, in which the outer function is applied to the
components of the inner one, each applied to the arguments as they stand.  Over exact scalars this
is the same as calling the components first and passing their values on as literals: a literal
stands for its value in every environment, and the outer function takes nothing from its arguments
but their values.

* `Func.Built.component` — components of functions that can be built can be built.
* `Func.ComponentValues` — what all components of a function give.
* `Func.value_call_eq` — a call is the evaluation of an expansion.
* `Func.value_comp_iff` — a composition gives what the outer function gives to these values.
* `Func.call_compose_iff` — the same for calls, and that composing is associative.
-/

namespace ZeroSet

variable {K : Type}

namespace Func

/-! ## Components -/

/-- A component of a function that can be built can be built. -/
theorem Built.component {f g : Func K} (hf : f.Built) {index : Nat}
    (h : f.component index = .ok g) : g.Built := by
  induction hf generalizing g index with
  | custom hdefine =>
    obtain ⟨hnodup, hparams, rfl⟩ := define_eq_ok.1 hdefine
    obtain ⟨name, body, rfl, -⟩ := exists_of_component_custom h
    exact .custom (define_eq_ok.2 ⟨hnodup, hparams, rfl⟩)
  | builtin b =>
    rw [eq_of_component_builtin h]
    exact .builtin b
  | comp hinner _ hcompose _ ihouter =>
    obtain ⟨hdim, rfl⟩ := compose_eq_ok.1 hcompose
    obtain ⟨g', hg', rfl⟩ := exists_of_component_comp h
    have harity : g'.arity = _ := congrArg List.length (params_component hg')
    exact .comp hinner (ihouter hg') (compose_eq_ok.2 ⟨harity.trans hdim, rfl⟩)

section

variable [Scalar K] {f g c : Func K} {args : List (Expr K)} {mode : Mode} {env : Env K}
  {values values' : List (Value K)} {v : Value K}

/-- The values that the components of a function give, each called with the same arguments. -/
def ComponentValues (f : Func K) (args : List (Expr K)) (mode : Mode) (env : Env K)
    (values : List (Value K)) : Prop :=
  List.Forall₂ (fun index w => ∃ g, f.component index = .ok g ∧
    (g.call args mode).value env = .ok w) (List.range f.dim) values

theorem ComponentValues.length_eq (h : f.ComponentValues args mode env values) :
    values.length = f.dim := by
  rw [← List.Forall₂.length_eq h, List.length_range]

/-- Components have no more than one list of values. -/
theorem ComponentValues.unique (h : f.ComponentValues args mode env values)
    (h' : f.ComponentValues args mode env values') : values = values' := by
  refine List.forall₂_eq_eq_eq ▸ forall₂_of_common h.flip h'.flip ?_
  rintro w w' index ⟨g, hg, hw⟩ ⟨g', hg', hw'⟩
  cases hg.symm.trans hg'
  exact Except.ok.inj (hw.symm.trans hw')

/-- With a component there is a call of it. -/
theorem ComponentValues.exists_call (h : f.ComponentValues args mode env values)
    (hdim : f.dim ≠ 0) :
    ∃ g w, f.component 0 = .ok g ∧ (g.call args mode).value env = .ok w := by
  obtain ⟨w, -, g, hg, hw⟩ :=
    exists_of_mem_forall₂ h (List.mem_range.2 (Nat.pos_of_ne_zero hdim))
  exact ⟨g, w, hg, hw⟩

/-! ## Calls -/

/-- A call that gives something has as many arguments as there are parameters. -/
theorem length_of_call (h : (f.call args mode).value env = .ok v) : args.length = f.arity := by
  by_contra hlength
  rw [value_call, apply_of_length_ne hlength] at h
  cases h

/-- A call with as many arguments as there are parameters is the evaluation of an expansion. -/
theorem value_call_eq (hlength : args.length = f.arity) :
    (f.call args mode).value env =
      f.expand args >>= fun e => e.outcome mode (env.bindings.size + 1) env := by
  rw [value_call]
  cases f with
  | comp inner outer =>
    have happly : (comp inner outer).apply args = .ok (.apply (comp inner outer) args) := by
      unfold apply
      exact if_neg (not_not_intro hlength)
    rw [happly]
    exact Expr.outcome_comp inner outer args
  | _ => rfl

/-- The components of a function have values where they can be applied and the applications have
these values. -/
theorem componentValues_iff :
    f.ComponentValues args mode env values ↔ ∃ mid, f.applyComponents args = .ok mid ∧
      List.Forall₂ (fun e w => e.outcome mode (env.bindings.size + 1) env = .ok w) mid values := by
  have hstep : ∀ index w, (∃ g, f.component index = .ok g ∧ (g.call args mode).value env = .ok w) ↔
      ∃ e, (f.component index >>= fun g => g.apply args) = .ok e ∧
        e.outcome mode (env.bindings.size + 1) env = .ok w := by
    intro index w
    simp only [value_call, bind_eq_ok]
    constructor
    · rintro ⟨g, hg, e, he, hw⟩
      exact ⟨e, ⟨g, hg, he⟩, hw⟩
    · rintro ⟨e, ⟨g, hg, he⟩, hw⟩
      exact ⟨g, hg, e, he, hw⟩
  simp only [ComponentValues, hstep, forall₂_exists_iff, applyComponents, mapM_eq_ok]

end

end Func

/-! ## Values as literals -/

variable [ExactScalar K]

theorem Value.Narrows.proper {v w : Value K} (h : v.Narrows w) : v.Proper := by
  cases h with
  | real x => trivial
  | vector t => trivial
  | interval h => exact h.proper

namespace Expr

variable {mode : Mode} {depth : Nat} {env : Env K} {mid : List (Expr K)} {values : List (Value K)}

/-- A literal for the value of an expression has this value everywhere. -/
theorem outcome_literal {e : Expr K} {w : Value K} (h : e.outcome mode depth env = .ok w)
    (depth' : Nat) (env' : Env K) : w.toExpr.outcome mode depth' env' = .ok w := by
  have hliteral := Value.outcome_toExpr (narrows_self_of_outcome h).proper depth' env'
  rwa [mode_of_outcome h] at hliteral

/-- Expressions have the same outcomes as the literals for their values. -/
theorem sameOutcomes_literals
    (h : List.Forall₂ (fun e w => e.outcome mode depth env = .ok w) mid values) :
    SameOutcomes mode depth env env mid (values.map Value.toExpr) := by
  rw [SameOutcomes, List.forall₂_map_right_iff]
  refine h.imp fun e w hw => ?_
  rw [hw, outcome_literal hw]

end Expr

/-! ## Feeding values forward -/

namespace Func

variable {f g h c e : Func K} {args : List (Expr K)} {mode : Mode} {env : Env K}
  {values : List (Value K)} {v : Value K}

/-- The expansion of a function over expressions is worth as much as over the literals for their
values. -/
theorem expand_literals {mid : List (Expr K)} {depth : Nat}
    (h : List.Forall₂ (fun e w => e.outcome mode depth env = .ok w) mid values) :
    (g.expand mid >>= fun e => e.outcome mode depth env) =
      g.expand (values.map Value.toExpr) >>= fun e => e.outcome mode depth env := by
  have hsame := Expr.sameOutcomes_literals h
  have hagree := Env.AgreeOn.refl env
  exact Expr.outcome_expand_congr hsame.length_eq
    (Expr.outcome_apply_congr g hagree (fun _ _ => trivial) hsame)

/-- A composition gives what the outer function gives to the values of the components of the inner
one. -/
theorem value_comp_iff (hg : g.Built) (hdim : g.arity = f.dim) :
    ((comp f g).call args mode).value env = .ok v ↔
      ∃ values, f.ComponentValues args mode env values ∧
        (g.call (values.map Value.toExpr) mode).value env = .ok v := by
  have hliterals : ∀ {values : List (Value K)}, f.ComponentValues args mode env values →
      (values.map Value.toExpr).length = g.arity := by
    intro values hvalues
    rw [List.length_map, hvalues.length_eq, hdim]
  constructor
  · intro h
    rw [value_call_eq (length_of_call h), expand, bind_assoc] at h
    obtain ⟨mid, hmid, h⟩ := bind_eq_ok.1 h
    obtain ⟨expanded, hexpanded, hv⟩ := bind_eq_ok.1 h
    rw [← Expr.outcome_of_expand hexpanded] at hv
    -- the outer function has evaluated its arguments
    obtain ⟨values, hvalues⟩ :=
      exists_mapM_of_forall_mem (Expr.exists_outcome_of_isStrict hg.isStrict hv)
    have hall := mapM_eq_ok.1 hvalues
    have hcomponents := componentValues_iff.2 ⟨mid, hmid, hall⟩
    refine ⟨values, hcomponents, ?_⟩
    rw [value_call_eq (hliterals hcomponents), ← expand_literals hall]
    exact h
  · rintro ⟨values, hcomponents, h⟩
    have hlength : args.length = f.arity := by
      obtain ⟨first, w, hfirst, hw⟩ := hcomponents.exists_call (hdim ▸ hg.arity_ne_zero)
      exact (length_of_call hw).trans (congrArg List.length (params_component hfirst))
    rw [value_call_eq (hliterals hcomponents)] at h
    obtain ⟨mid, hmid, hall⟩ := componentValues_iff.1 hcomponents
    rw [value_call_eq (show args.length = (comp f g).arity from hlength), expand, bind_assoc, hmid]
    exact (expand_literals hall).trans h

/-- The components of a composition are those of the outer function, fed with the values of the
components of the inner one. -/
theorem componentValues_comp_iff (hg : g.Built) (harity : g.arity = f.dim) (hdim : g.dim ≠ 0) :
    (comp f g).ComponentValues args mode env values ↔
      ∃ mid, f.ComponentValues args mode env mid ∧
        g.ComponentValues (mid.map Value.toExpr) mode env values := by
  have hcomponent : ∀ {index g'}, g.component index = .ok g' → ∀ {w},
      ((comp f g').call args mode).value env = .ok w ↔
        ∃ mid, f.ComponentValues args mode env mid ∧
          (g'.call (mid.map Value.toExpr) mode).value env = .ok w := by
    intro index g' hg' w
    have harity' : g'.arity = f.dim := (congrArg List.length (params_component hg')).trans harity
    exact value_comp_iff (hg.component hg') harity'
  constructor
  · intro h
    obtain ⟨first, w, hfirst, hw⟩ := h.exists_call hdim
    obtain ⟨g₀, hg₀, rfl⟩ := exists_of_component_comp hfirst
    obtain ⟨mid, hmid, -⟩ := (hcomponent hg₀).1 hw
    refine ⟨mid, hmid, List.Forall₂.imp ?_ h⟩
    -- the inner function gives the same values to every component of the outer one
    rintro index u ⟨c, hc, hu⟩
    obtain ⟨g', hg', rfl⟩ := exists_of_component_comp hc
    obtain ⟨mid', hmid', hcall⟩ := (hcomponent hg').1 hu
    exact ⟨g', hg', hmid.unique hmid' ▸ hcall⟩
  · rintro ⟨mid, hmid, h⟩
    refine List.Forall₂.imp ?_ h
    rintro index u ⟨g', hg', hu⟩
    refine ⟨comp f g', ?_, (hcomponent hg').2 ⟨mid, hmid, hu⟩⟩
    rw [component, hg']
    rfl

/-- Both ways of composing three functions feed the same values forward. -/
theorem value_comp_assoc (hg : g.Built) (hh : h.Built) (hfg : g.arity = f.dim)
    (hgh : h.arity = g.dim) :
    ((comp (comp f g) h).call args mode).value env = .ok v ↔
      ((comp f (comp g h)).call args mode).value env = .ok v := by
  have hdim : g.dim ≠ 0 := hgh ▸ hh.arity_ne_zero
  have houter : (comp g h).Built := .comp hg hh (compose_eq_ok.2 ⟨hgh, rfl⟩)
  have hleft : h.arity = (comp f g).dim := hgh
  rw [value_comp_iff hh hleft, value_comp_iff houter hfg]
  constructor
  · rintro ⟨values, hvalues, hv⟩
    obtain ⟨mid, hmid, hvalues⟩ := (componentValues_comp_iff hg hfg hdim).1 hvalues
    exact ⟨mid, hmid, (value_comp_iff hh hgh).2 ⟨values, hvalues, hv⟩⟩
  · rintro ⟨mid, hmid, hv⟩
    obtain ⟨values, hvalues, hv⟩ := (value_comp_iff hh hgh).1 hv
    exact ⟨values, (componentValues_comp_iff hg hfg hdim).2 ⟨mid, hmid, hvalues⟩, hv⟩

/-- A call of a composition gives a value exactly if the components of the inner function give
values to the arguments and the outer function gives that value to the literals for them.  So both
ways of composing a chain of three functions give the same values. -/
theorem call_compose_iff (hg : g.Built) (hc : f.compose g = .ok c) :
    (∀ (args : List (Expr K)) (mode : Mode) (env : Env K) (v : Value K),
      (c.call args mode).value env = .ok v ↔
        ∃ values, f.ComponentValues args mode env values ∧
          (g.call (values.map Value.toExpr) mode).value env = .ok v) ∧
    ∀ h e : Func K, h.Built → g.compose h = .ok e →
      ∃ left right, c.compose h = .ok left ∧ f.compose e = .ok right ∧
        ∀ (args : List (Expr K)) (mode : Mode) (env : Env K) (v : Value K),
          (left.call args mode).value env = .ok v ↔ (right.call args mode).value env = .ok v := by
  obtain ⟨hfg, rfl⟩ := compose_eq_ok.1 hc
  refine ⟨fun args mode env v => value_comp_iff hg hfg, fun h e hh he => ?_⟩
  obtain ⟨hgh, rfl⟩ := compose_eq_ok.1 he
  exact ⟨_, _, compose_eq_ok.2 ⟨hgh, rfl⟩, compose_eq_ok.2 ⟨hfg, rfl⟩,
    fun args mode env v => value_comp_assoc hg hh hfg hgh⟩

/-- One more than a number, and twice the number. -/
noncomputable def spread : Func ℝ :=
  .custom "f" ["x"]
    (.vec [.binary .add (.var "x") (.num 1), .binary .mul (.var "x") (.num (2 : ℕ))])

/-- The difference of two numbers. -/
def difference : Func ℝ := .custom "g" ["a", "b"] (.binary .sub (.var "a") (.var "b"))

/-- The opposite of a number. -/
def opposite : Func ℝ := .custom "h" ["u"] (.neg (.var "u"))

theorem componentValues_spread :
    spread.ComponentValues [.num 3] .real .empty [.real 4, .real 6] := by
  refine .cons ⟨_, rfl, ?_⟩ (.cons ⟨_, rfl, ?_⟩ .nil)
  · rw [value_call]
    show (Expr.apply (.custom _ _ _) _).outcome .real _ _ = _
    simp [Expr.outcome_custom, Expr.outcome_binary, Expr.outcome_var, Expr.outcome_num, Env.enter,
      Env.empty, Bindings.empty, Bindings.putAll, Value.toExpr, bind, Except.bind, pure,
      Except.pure, BinOp.onValues, BinOp.onReals, Except.map]
    norm_num
  · rw [value_call]
    show (Expr.apply (.custom _ _ _) _).outcome .real _ _ = _
    simp [Expr.outcome_custom, Expr.outcome_binary, Expr.outcome_var, Expr.outcome_num, Env.enter,
      Env.empty, Bindings.empty, Bindings.putAll, Value.toExpr, bind, Except.bind, pure,
      Except.pure, BinOp.onValues, BinOp.onReals, Except.map]
    norm_num

theorem call_difference :
    (difference.call [.num 4, .num 6] .real).value .empty = .ok (.real (-2)) := by
  rw [value_call]
  show (Expr.apply (.custom _ _ _) _).outcome .real _ _ = _
  simp [Expr.outcome_custom, Expr.outcome_binary, Expr.outcome_var, Expr.outcome_num, Env.enter,
    Env.empty, Bindings.empty, Bindings.putAll, Value.toExpr, bind, Except.bind, pure,
    Except.pure, BinOp.onValues, BinOp.onReals, Except.map]
  norm_num

/-- Four and six are fed forward, and their difference may be reversed before or after composing. -/
theorem call_compose_iff_spread :
    difference.Built ∧ opposite.Built ∧
      spread.compose difference = .ok (.comp spread difference) ∧
      difference.compose opposite = .ok (.comp difference opposite) ∧
      ((comp spread difference).call [.num 3] .real).value .empty = .ok (.real (-2)) ∧
      ∃ left right, (comp spread difference).compose opposite = .ok left ∧
        spread.compose (.comp difference opposite) = .ok right ∧
        ∀ v, (left.call [.num 3] .real).value .empty = .ok v ↔
          (right.call [.num 3] .real).value .empty = .ok v := by
  have hdifference : difference.Built :=
    .custom (define_eq_ok.2 ⟨by decide, List.cons_ne_nil _ _, rfl⟩)
  have hopposite : opposite.Built :=
    .custom (define_eq_ok.2 ⟨List.nodup_singleton _, List.cons_ne_nil _ _, rfl⟩)
  obtain ⟨hcall, hassoc⟩ :=
    call_compose_iff (f := spread) (g := difference) hdifference (compose_eq_ok.2 ⟨rfl, rfl⟩)
  have hchain : difference.compose opposite = .ok (.comp difference opposite) :=
    compose_eq_ok.2 ⟨rfl, rfl⟩
  obtain ⟨left, right, hleft, hright, hsame⟩ := hassoc opposite _ hopposite hchain
  have hvalue := (hcall _ _ _ _).2 ⟨_, componentValues_spread, call_difference⟩
  exact ⟨hdifference, hopposite, compose_eq_ok.2 ⟨rfl, rfl⟩, hchain, hvalue, left, right, hleft,
    hright, hsame _ _ _⟩

end Func

end ZeroSet
