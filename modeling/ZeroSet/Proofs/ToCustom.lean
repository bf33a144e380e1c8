import ZeroSet.Proofs.Compositions
import ZeroSet.Func.Call
import ZeroSet.Func.Calculus
import ZeroSet.Scalar.Binary64

/-!
# Functions as user functions

Every function can be written as a user function over its own parameters, whose body is an
expanded application to them.  For a composition this puts the outer functions below the
parameters of the first one, so the two mean the same only as long as what the outer functions
take from outside does not lead to one of these names.

* `Func.Built` — the functions that can be built.
* `Func.outerNames`, `Func.Hygienic` — what the outer functions take from outside, and that it
  does not lead to a parameter.
* `Expr.outcome_apply_vars` — applied to its own parameters inside a call, a function gives what
  it gives to the arguments outside.
* `Func.toCustom_equivalent` — where nothing is captured, the user function is equivalent.
-/

namespace ZeroSet

variable {K : Type}

/-! ## The functions that can be built -/

namespace Func

theorem define_eq_ok {name : String} {params : List String} {body : Expr K} {f : Func K} :
    define name params body = .ok f ↔
      params.Nodup ∧ params ≠ [] ∧ f = .custom name params body := by
  rw [define]
  by_cases hnodup : params.Nodup
  · rw [if_neg (not_not_intro hnodup)]
    by_cases hempty : params = []
    · rw [if_pos (List.isEmpty_iff.2 hempty)]
      exact iff_of_false nofun fun h => h.2.1 hempty
    · rw [if_neg fun hc => hempty (List.isEmpty_iff.1 hc), Except.ok.injEq, eq_comm]
      exact ⟨fun h => ⟨hnodup, hempty, h⟩, fun h => h.2.2⟩
  · rw [if_pos hnodup]
    exact iff_of_false nofun fun h => hnodup h.1

theorem compose_eq_ok {inner outer f : Func K} :
    inner.compose outer = .ok f ↔ outer.arity = inner.dim ∧ f = .comp inner outer := by
  rw [compose]
  by_cases hdim : outer.arity = inner.dim
  · rw [if_neg (not_not_intro hdim), Except.ok.injEq, eq_comm]
    exact ⟨fun h => ⟨hdim, h⟩, fun h => h.2⟩
  · rw [if_pos hdim]
    exact iff_of_false nofun fun h => hdim h.1

/-- The functions that can be built of user functions and built-ins by composing. -/
inductive Built : Func K → Prop
  /-- A user function with distinct parameters, at least one of them. -/
  | custom {name : String} {params : List String} {body : Expr K} {f : Func K}
    (h : define name params body = .ok f) : Built f
  /-- A built-in. -/
  | builtin (b : Builtin K) : Built (.builtin b)
  /-- A composition of functions that fit together. -/
  | comp {inner outer f : Func K} (hinner : Built inner) (houter : Built outer)
    (h : inner.compose outer = .ok f) : Built f

namespace Built

variable {f : Func K}

theorem nodup_params (h : f.Built) : f.params.Nodup := by
  induction h with
  | custom h =>
    obtain ⟨hnodup, -, rfl⟩ := define_eq_ok.1 h
    exact hnodup
  | builtin b => exact List.nodup_singleton _
  | comp _ _ h ihinner _ =>
    obtain ⟨-, rfl⟩ := compose_eq_ok.1 h
    exact ihinner

theorem arity_ne_zero (h : f.Built) : f.arity ≠ 0 := by
  induction h with
  | custom h =>
    obtain ⟨-, hparams, rfl⟩ := define_eq_ok.1 h
    exact fun hzero => hparams (List.length_eq_zero_iff.1 hzero)
  | builtin b => exact Nat.one_ne_zero
  | comp _ _ h ihinner _ =>
    obtain ⟨-, rfl⟩ := compose_eq_ok.1 h
    exact ihinner

/-- What is built evaluates its arguments: the outer function takes as many as the inner one has
components, and that is at least one. -/
theorem isStrict (h : f.Built) : f.isStrict = true := by
  induction h with
  | custom h =>
    obtain ⟨-, -, rfl⟩ := define_eq_ok.1 h
    rfl
  | builtin b => rfl
  | comp _ houter h ihinner ihouter =>
    obtain ⟨hdim, rfl⟩ := compose_eq_ok.1 h
    exact isStrict_comp.2 ⟨hdim ▸ houter.arity_ne_zero, ihinner, ihouter⟩

end Built

/-! ## Names that the outer functions take from outside -/

/-- The names that the functions of a composition take from outside, the first one left out. -/
def outerNames : Func K → List String
  | .custom _ _ _ => []
  | .comp inner outer => inner.outerNames ++ outer.freeNames
  | .builtin _ => []

theorem outerNames_component {f g : Func K} {index : Nat} (h : f.component index = .ok g)
    {n : String} (hn : n ∈ g.outerNames) : n ∈ f.outerNames := by
  cases f with
  | custom name params body =>
    obtain ⟨_, _, rfl, -⟩ := exists_of_component_custom h
    cases hn
  | builtin b => rwa [eq_of_component_builtin h] at hn
  | comp inner outer =>
    obtain ⟨g', hg', rfl⟩ := exists_of_component_comp h
    rcases List.mem_append.1 hn with hn | hn
    · exact List.mem_append_left _ hn
    · exact List.mem_append_right _ ((hereditary_freeNames (· ∈ outer.freeNames)).component hg'
        (fun _ hm => hm) n hn)

/-- A parameter that is free in a function is one of the names of the outer functions. -/
theorem mem_outerNames : ∀ {f : Func K} {n : String}, n ∈ f.params → n ∈ f.freeNames →
    n ∈ f.outerNames
  | .custom _ _ _, _, hparam, hn => absurd hparam (mem_freeNames_custom.1 hn).2
  | .builtin _, _, _, hn => absurd hn List.not_mem_nil
  | .comp inner outer, n, hparam, hn => by
    rcases List.mem_append.1 hn with hn | hn
    · exact List.mem_append_left _ (mem_outerNames (f := inner) hparam hn)
    · exact List.mem_append_right _ hn

/-- Nothing that the outer functions take from outside leads to a parameter. -/
def Hygienic (f : Func K) (b : Bindings K) : Prop :=
  ∀ n ∈ f.outerNames, ∀ m, Relation.ReflTransGen b.Refers n m → m ∉ f.params

end Func

/-! ## Values as literals -/

namespace Value

variable [Scalar K]

/-- The bounds of an interval are in order.  Other values need no condition. -/
def Proper : Value K → Prop
  | real _ => True
  | vector _ => True
  | interval a => a.lo ≤ a.hi

/-- The literal for a value evaluates to the value. -/
theorem outcome_toExpr {v : Value K} (h : v.Proper) (depth : Nat) (env : Env K) :
    v.toExpr.outcome v.mode depth env = .ok v := by
  cases v with
  | real x => exact Expr.outcome_num x
  | vector t =>
    have hcomponents : (t.components.map Expr.num).mapM
        (fun e => e.outcome .real depth env >>= asReal) = .ok t.components := by
      rw [mapM_eq_ok, List.forall₂_map_left_iff, List.forall₂_same]
      intro x _
      rw [Expr.outcome_num]
      rfl
    have htuple : Tuple.ofList t.components = .ok t := dif_pos ⟨t.length_pos, t.length_le⟩
    show (Expr.vec _).outcome .vector depth env = _
    rw [Expr.outcome_vec, if_pos rfl, hcomponents]
    show (Tuple.ofList t.components >>= fun t => pure (vector t)) = _
    rw [htuple]
    rfl
  | interval a =>
    show (Expr.intervalOf a.lo a.hi).outcome .interval depth env = _
    have hbounds : a.lo ≤ a.hi := h
    rw [Expr.outcome_intervalOf, Interval.ofBounds, if_pos hbounds]
    rfl

end Value

/-! ## Inside a call -/

/-- A call leaves alone what the outer functions of a hygienic function depend on. -/
theorem Func.Hygienic.agreeOn_enter {f : Func K} {env : Env K} (h : f.Hygienic env.bindings)
    {pairs : List (String × Expr K)} (hnames : pairs.map Prod.fst = f.params) :
    Env.AgreeOn (fun m => ∃ n ∈ f.outerNames, Relation.ReflTransGen env.bindings.Refers n m) env
      (env.enter pairs) := by
  refine .of_enter ?_ ?_
  · rintro m n ⟨o, ho, hpath⟩ hedge
    exact ⟨o, ho, hpath.tail hedge⟩
  · rintro m ⟨o, ho, hpath⟩
    rw [hnames]
    exact h o ho m hpath

namespace Expr

variable [Scalar K] {mode : Mode} {depth : Nat} {env : Env K} {args : List (Expr K)}

/-- Inside a call every parameter has the value that was passed. -/
theorem outcomes_params {params : List String} (hnodup : params.Nodup) {values : List (Value K)}
    (hcount : values.length = params.length) (hmode : ∀ w ∈ values, w.mode = mode)
    (hproper : ∀ w ∈ values, w.Proper) :
    List.Forall₂ (fun e w => e.outcome mode (depth + 1)
      (env.enter (params.zip (values.map Value.toExpr))) = .ok w) (params.map var) values := by
  rw [List.forall₂_map_left_iff]
  refine List.forall₂_iff_zip.2 ⟨hcount.symm, fun {param w} hmem => ?_⟩
  have hnames : (params.zip (values.map Value.toExpr)).map Prod.fst = params :=
    Env.names_of_zip hcount
  have hw : w ∈ values := (List.of_mem_zip hmem).2
  have hpair : (param, w.toExpr) ∈ params.zip (values.map Value.toExpr) := by
    rw [List.zip_map_right]
    exact List.mem_map.2 ⟨(param, w), hmem, rfl⟩
  have hget : (env.enter (params.zip (values.map Value.toExpr))).bindings.get? param =
      some w.toExpr := Bindings.get?_putAll_of_nodup (hnames.symm ▸ hnodup) hpair _
  have hfree : param ∉ (env.enter (params.zip (values.map Value.toExpr))).resolving := by
    show param ∉ env.resolving.filter _
    rw [List.mem_filter, hnames, decide_eq_true_eq]
    exact fun h => h.2 (List.of_mem_zip hmem).1
  rw [outcome_var, if_neg hfree, hget]
  have hvalue := w.outcome_toExpr (hproper w hw) depth
  rw [hmode w hw] at hvalue
  exact hvalue _

/-- If the parameters have the values of the arguments, a function applied to its own parameters
inside the call gives what it gives to the arguments outside. -/
theorem outcome_apply_vars {S : String → Prop} {f : Func K} {es : List (Expr K)}
    (hes : es.length = f.params.length)
    (hS : Env.AgreeOn S env (env.enter (f.params.zip es))) (hf : ∀ n ∈ f.outerNames, S n)
    (h : SameOutcomes mode depth env (env.enter (f.params.zip es)) args (f.params.map var)) :
    (apply f args).outcome mode depth env =
      (apply f (f.params.map var)).outcome mode depth (env.enter (f.params.zip es)) := by
  -- the parameters stay the same on the way down to the components
  generalize hparams : f.params = params at *
  induction f using Func.componentInduction with
  | custom name own body =>
    cases hparams
    refine outcome_custom_congr h fun values hcount => ?_
    have hnames : (own.zip es).map Prod.fst = own := List.map_fst_zip (Nat.le_of_eq hes.symm)
    refine outcome_congr (.enter_enter ?_) fun _ _ => trivial
    exact hnames.trans (Env.names_of_zip hcount).symm
  | builtin b => exact outcome_builtin_congr b h
  | comp inner outer ihinner _ =>
    obtain ⟨hinner, houter⟩ := List.forall_mem_append.1 hf
    refine outcome_comp_congr h.length_eq (fun index g hg => ?_) fun mid mid' hmid => ?_
    · exact ihinner index g hg (fun n hn => hinner n (Func.outerNames_component hg hn))
        ((Func.params_component hg).trans hparams)
    · exact outcome_apply_congr outer hS houter hmid

/-- Arguments have the outcomes of the parameters that a call binds to their values. -/
theorem sameOutcomes_params {params : List String} (hnodup : params.Nodup)
    {values : List (Value K)}
    (hvalues : args.mapM (fun a => a.outcome mode (depth + 1) env) = .ok values)
    (hcount : values.length = params.length)
    (hproper : ∀ a ∈ args, ∀ w, a.outcome mode (depth + 1) env = .ok w → w.Proper) :
    SameOutcomes mode (depth + 1) env (env.enter (params.zip (values.map Value.toExpr))) args
      (params.map var) := by
  have hall := mapM_eq_ok.1 hvalues
  have hvalue : ∀ w ∈ values, w.mode = mode ∧ w.Proper := by
    intro w hw
    obtain ⟨a, ha, haw⟩ := exists_of_mem_mapM hvalues hw
    exact ⟨mode_of_outcome haw, hproper a ha w haw⟩
  have hparams := @outcomes_params K _ mode depth env params hnodup values hcount
    (fun w hw => (hvalue w hw).1) fun w hw => (hvalue w hw).2
  exact forall₂_of_common hall hparams fun _ _ _ ha he => ha.trans he.symm

/-- Where nothing is captured, the body has inside a call the outcome of the application. -/
theorem outcome_ownBody {f : Func K} (hf : f.Built) {body : Expr K}
    (hbody : f.expand (f.params.map var) = .ok body) (hhygienic : f.Hygienic env.bindings)
    {values : List (Value K)}
    (hvalues : args.mapM (fun a => a.outcome mode (depth + 1) env) = .ok values)
    (hcount : values.length = f.params.length)
    (hproper : ∀ a ∈ args, ∀ w, a.outcome mode (depth + 1) env = .ok w → w.Proper) :
    (apply f args).outcome mode (depth + 1) env =
      body.outcome mode (depth + 1) (env.enter (f.params.zip (values.map Value.toExpr))) := by
  have hsame := sameOutcomes_params hf.nodup_params hvalues hcount hproper
  have hagree := hhygienic.agreeOn_enter (Env.names_of_zip hcount)
  have hes : (values.map Value.toExpr).length = f.params.length := by rw [List.length_map, hcount]
  rw [← outcome_of_expand hbody]
  exact outcome_apply_vars hes hagree (fun n hn => ⟨n, hn, .refl⟩) hsame

/-- Where nothing is captured, the user function with an expanded application for its body has the
values of the function. -/
theorem outcome_ownBody_iff {f : Func K} (hf : f.Built) {body : Expr K}
    (hbody : f.expand (f.params.map var) = .ok body) (hhygienic : f.Hygienic env.bindings)
    (hlength : args.length = f.arity)
    (hproper : ∀ a ∈ args, ∀ w, a.outcome mode (depth + 1) env = .ok w → w.Proper)
    {name : String} {v : Value K} :
    (apply (.custom name f.params body) args).outcome mode (depth + 1) env = .ok v ↔
      (apply f args).outcome mode (depth + 1) env = .ok v := by
  have hcall : ∀ values, args.mapM (fun a => a.outcome mode (depth + 1) env) = .ok values →
      (apply f args).outcome mode (depth + 1) env =
        body.outcome mode (depth + 1) (env.enter (f.params.zip (values.map Value.toExpr))) :=
    fun values hvalues => outcome_ownBody hf hbody hhygienic hvalues
      ((mapM_eq_ok.1 hvalues).length_eq.symm.trans hlength) hproper
  have hcount : ¬args.length ≠ f.params.length := not_not_intro hlength
  rw [outcome_custom, if_neg hcount]
  constructor
  · intro h
    obtain ⟨values, hvalues, h⟩ := bind_eq_ok.1 h
    rw [hcall values hvalues]
    exact h
  · intro h
    -- what is built evaluates all its arguments, as a user function does
    obtain ⟨values, hvalues⟩ :=
      exists_mapM_of_forall_mem (exists_outcome_of_isStrict hf.isStrict h)
    rw [hvalues]
    show body.outcome mode (depth + 1) (env.enter _) = .ok v
    rw [← hcall values hvalues]
    exact h

end Expr

/-! ## The user function -/

namespace Func

variable [Scalar K]

theorem value_call (f : Func K) (args : List (Expr K)) (mode : Mode) (env : Env K) :
    (f.call args mode).value env = f.apply args >>= fun e =>
      e.outcome mode (env.bindings.size + 1) env :=
  Evaluation.value_lift_bind _ _ env

/-- A function has a body of its own, or its body is an expanded application to its parameters. -/
theorem expand_of_body {f : Func K} {body : Expr K} (h : f.body = .ok body) :
    (∃ name params, f = .custom name params body) ∨ f.expand (f.params.map .var) = .ok body := by
  cases f with
  | custom name params body' =>
    cases h
    exact .inl ⟨name, params, rfl⟩
  | comp inner outer => exact .inr h
  | builtin b => exact .inr h

/-- A function with a body can be applied to as many arguments as it has parameters. -/
theorem apply_of_body {f : Func K} {body : Expr K} (hbody : f.body = .ok body)
    {args : List (Expr K)} (hlength : args.length = f.arity) :
    f.apply args = .ok (.apply f args) := by
  have hcount : ¬args.length ≠ f.arity := not_not_intro hlength
  unfold apply
  rw [if_neg hcount]
  cases f with
  | builtin b =>
    obtain ⟨_, hcheck, -⟩ := bind_eq_ok.1 (show (b.check >>= fun _ => _) = _ from hbody)
    dsimp only
    rw [hcheck]
    rfl
  | _ => rfl

theorem apply_of_length_ne {f : Func K} {args : List (Expr K)} (hlength : args.length ≠ f.arity) :
    f.apply args = .error (.dimensionMismatch args.length f.arity) := if_pos hlength

/-- Partial derivatives are derivatives of the body, except that those of built-ins are known. -/
theorem partialBody_of_body {f : Func K} {body : Expr K} (hbody : f.body = .ok body)
    (hf : ∀ b, f ≠ .builtin b) (param : String) : f.partialBody param = body.derivative param := by
  cases f with
  | custom name params body' =>
    cases hbody
    rfl
  | comp inner outer =>
    rw [partialBody, hbody]
    · rfl
    · exact hf
  | builtin b => exact absurd rfl (hf b)

/-- If no name that the outer functions take from outside is a parameter, putting the body under
the parameters hides no name that is free in the function. -/
theorem mem_freeNames_ownBody {f : Func K} (hf : f.Built) {body : Expr K}
    (hbody : f.body = .ok body) (houter : ∀ n ∈ f.outerNames, n ∉ f.params) {name n : String} :
    n ∈ (custom name f.params body).freeNames ↔ n ∈ f.freeNames := by
  rw [mem_freeNames_custom]
  rcases expand_of_body hbody with ⟨own, params, rfl⟩ | hexpanded
  · exact mem_freeNames_custom.symm
  · rw [mem_freeNames_expand hf.isStrict hexpanded, Expr.mem_freeNames_apply]
    constructor
    · rintro ⟨hn | ⟨a, ha, hn⟩, hparam⟩
      · exact hn
      · obtain ⟨param, hmem, rfl⟩ := List.mem_map.1 ha
        cases List.mem_singleton.1 hn
        exact absurd hmem hparam
    · exact fun hn => ⟨.inl hn, fun hparam => houter n (mem_outerNames hparam hn) hparam⟩

variable [Decimal K]

/-- A function and its user function have the same parameters.  Where no name that the outer
functions take from outside is a parameter, applications of the two have the same free names, and
no parameter is free in the function, so that its partial derivatives, which are those of the user
function, hold all its free names fixed.  Where none of these names leads to a parameter either,
and the bounds of the arguments are in order, calls of the two have the same values. -/
theorem toCustom_equivalent {f g : Func K} (hf : f.Built) (hg : f.toCustom = .ok g) :
    g.params = f.params ∧
      ((∀ n ∈ f.outerNames, n ∉ f.params) →
        (∀ args n, n ∈ (Expr.apply g args).freeNames ↔ n ∈ (Expr.apply f args).freeNames) ∧
          ∀ param ∈ f.params, param ∉ f.freeNames) ∧
      ((∀ b, f ≠ .builtin b) → ∀ index, g.partialDerivative index = f.partialDerivative index) ∧
      ∀ (env : Env K) (args : List (Expr K)) (mode : Mode), f.Hygienic env.bindings →
        (∀ a ∈ args, ∀ w, (a.evaluate mode).value env = .ok w → w.Proper) →
        ∀ v, (g.call args mode).value env = .ok v ↔ (f.call args mode).value env = .ok v := by
  obtain ⟨body, hbody, hg⟩ := bind_eq_ok.1 hg
  cases hg
  refine ⟨rfl, fun houter => ⟨fun args n => ?_, fun param hparam hfree => ?_⟩, ?_, ?_⟩
  · rw [Expr.mem_freeNames_apply, Expr.mem_freeNames_apply,
      mem_freeNames_ownBody hf hbody houter]
  · exact houter param (mem_outerNames hparam hfree) hparam
  · intro hbuiltin index
    have hderivative : ∀ param,
        (custom f.name f.params body).partialBody param = f.partialBody param :=
      fun param => (partialBody_of_body hbody hbuiltin param).symm
    unfold partialDerivative
    simp only [hderivative]
    rfl
  · intro env args mode hhygienic hproper v
    rw [value_call, value_call]
    by_cases hlength : args.length = f.arity
    · have hown : (custom f.name f.params body).apply args = .ok (.apply _ args) :=
        apply_of_body rfl hlength
      have hwhole : f.apply args = .ok (.apply f args) := apply_of_body hbody hlength
      rw [hown, hwhole]
      rcases expand_of_body hbody with ⟨own, params, rfl⟩ | hexpanded
      · exact Iff.rfl
      · exact Expr.outcome_ownBody_iff hf hexpanded hhygienic hlength hproper
    · have hown : (custom f.name f.params body).apply args =
          .error (.dimensionMismatch args.length f.arity) := apply_of_length_ne hlength
      rw [hown, apply_of_length_ne hlength]

/-- A composition over the parameter `x` whose outer function returns what a name stands for. -/
def lookup (name : String) : Func Float :=
  .comp (.custom "f" ["x"] (.var "x")) (.custom "g" ["u"] (.var name))

theorem built_lookup (name : String) : (lookup name).Built := by
  have hinner : (custom "f" ["x"] (.var "x") : Func Float).Built :=
    .custom (define_eq_ok.2 ⟨List.nodup_singleton _, List.cons_ne_nil _ _, rfl⟩)
  have houter : (custom "g" ["u"] (.var name) : Func Float).Built :=
    .custom (define_eq_ok.2 ⟨List.nodup_singleton _, List.cons_ne_nil _ _, rfl⟩)
  exact .comp hinner houter rfl

/-- The user function that the composition is written as. -/
def lookupCustom (name : String) : Func Float :=
  .custom "g∘f" ["x"] (.apply (.custom "g" ["u"] (.var name))
    [.apply (.custom "f" ["x"] (.var "x")) [.var "x"]])

theorem toCustom_lookup (name : String) : (lookup name).toCustom = .ok (lookupCustom name) := rfl

/-- A name other than the parameter is not captured. -/
theorem toCustom_equivalent_lookup :
    (∀ args n, n ∈ (Expr.apply (lookupCustom "y") args).freeNames ↔
        n ∈ (Expr.apply (lookup "y") args).freeNames) ∧
      (∀ index, (lookupCustom "y").partialDerivative index = (lookup "y").partialDerivative index) ∧
      ∀ v, ((lookupCustom "y").call [.num 1] .real).value (.ofList [("y", .num 3)]) = .ok v ↔
        ((lookup "y").call [.num 1] .real).value (.ofList [("y", .num 3)]) = .ok v := by
  obtain ⟨-, hnames, hpartial, hcall⟩ :=
    toCustom_equivalent (built_lookup "y") (toCustom_lookup "y")
  have houter : ∀ n ∈ (lookup "y").outerNames, n = "y" := by
    intro n hn
    simpa [lookup, outerNames, freeNames, Expr.freeNames] using hn
  have hparam : "y" ∉ (lookup "y").params := by decide
  refine ⟨(hnames fun n hn => ?_).1, hpartial (fun _ h => by cases h), hcall _ _ _ ?_ ?_⟩
  · rwa [houter n hn]
  · intro n hn m hpath
    -- the name stands for a number, so it leads no further
    rw [houter n hn] at hpath
    rcases Relation.ReflTransGen.cases_head hpath with rfl | ⟨o, ⟨e, hget, ho⟩, -⟩
    · exact hparam
    · cases hget
      cases ho
  · intro a ha w hw
    cases List.mem_singleton.1 ha
    rw [Expr.value_evaluate, Expr.outcome_num] at hw
    cases hw
    trivial

/-- A name that is called like the parameter is captured: what should be looked up outside is the
argument. -/
theorem toCustom_lookup_captured :
    (lookup "x").toCustom = .ok (lookupCustom "x") ∧
      ((lookup "x").call [.num 1] .real).value .empty = .error (.unboundVariable "x") ∧
      ((lookupCustom "x").call [.num 1] .real).value .empty = .ok (.real 1) := by
  refine ⟨toCustom_lookup "x", ?_, ?_⟩
  · rw [value_call]
    show (Expr.apply (.comp _ _) [.num 1]).outcome .real 1 .empty = _
    rw [Expr.outcome_comp]
    show (Expr.apply (.custom "g" ["u"] (.var "x"))
      [.apply (.custom "f" ["x"] (.var "x")) [.num 1]]).outcome .real 1 .empty = _
    simp [Expr.outcome_custom, Expr.outcome_var, Expr.outcome_num, Env.enter, Env.empty,
      Bindings.putAll, Value.toExpr, bind, Except.bind, pure, Except.pure]
    rfl
  · rw [value_call]
    show (Expr.apply (lookupCustom "x") [.num 1]).outcome .real 1 .empty = _
    simp [lookupCustom, Expr.outcome_custom, Expr.outcome_var, Expr.outcome_num, Env.enter,
      Env.empty, Bindings.putAll, Value.toExpr, bind, Except.bind, pure, Except.pure]

end Func

end ZeroSet
