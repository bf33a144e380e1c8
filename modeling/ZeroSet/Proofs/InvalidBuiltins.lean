import ZeroSet.Func.Calculus
import ZeroSet.Proofs.FloatOrder
import ZeroSet.Proofs.Termination
import ZeroSet.Proofs.ToCustom

/-!
# Built-ins that no function has

Logarithms and roots can be built with any base and degree.  Those that stand for no function are
refused where they are applied: a composition with such a part somewhere inside has no value, no
derivative and no partial derivative.  The built-in on its own has no value and no derivative
either, but its partial derivative is written down without looking at base or degree.

* `Builtin.Invalid` — bases and degrees that are refused.
* `Func.Involves` — functions that always come to a built-in when they are applied.
* `Expr.exists_derivative_of_isStrict` — differentiating an application of a strict function
  differentiates the arguments.
* `Func.Involves.not_outcome`, `Func.Involves.not_derivative` — neither values nor derivatives.
* `Func.invalid_builtin_refused` — what is refused of a function with such a built-in inside.
-/

namespace ZeroSet

/-! ## Bases and degrees -/

/-- A base or degree that no logarithm or root has. -/
def Builtin.Invalid : Builtin Float → Prop
  | .log base => base ≤ 0 ∨ Scalar.isNaN base = true ∨ (base == 1) = true
  | .root degree => (degree == 0) = true ∨ Scalar.isNaN degree = true
  | _ => False

theorem Builtin.check_of_invalid {b : Builtin Float} (hb : b.Invalid) : b.check ≠ .ok () := by
  cases b with
  | log base =>
    have hrefused : ¬(decide (0 < base) && !(base == 1)) = true := by
      rw [Bool.and_eq_true, decide_eq_true_eq, Bool.not_eq_true']
      rintro ⟨hpos, hone⟩
      rcases hb with hle | hnan | hone'
      · exact Binary64.not_le_of_lt hpos hle
      · rw [Scalar.isNaN, Binary64.beq_self_of_pos hpos] at hnan
        cases hnan
      · rw [hone] at hone'
        cases hone'
    rw [check, if_neg hrefused]
    rintro ⟨⟩
  | root degree =>
    have hrefused : (degree == 0 || Scalar.isNaN degree) = true := by
      rw [Bool.or_eq_true]
      exact hb
    rw [check, if_pos hrefused]
    rintro ⟨⟩
  | _ => exact hb.elim

variable {K : Type}

theorem exists_error_of_ne_ok {ε α : Type} {x : Except ε α} (h : ∀ a, x ≠ .ok a) :
    ∃ err, x = .error err := by
  cases x with
  | ok a => exact absurd rfl (h a)
  | error err => exact ⟨err, rfl⟩

/-! ## Differentiating applications -/

section

variable [Scalar K]

namespace Func

variable {f : Func K} {args : List (Expr K)} {e : Expr K}

theorem length_of_apply (h : f.apply args = .ok e) : args.length = f.arity := by
  by_contra hlength
  rw [apply_of_length_ne hlength] at h
  cases h

/-- Only as many arguments as there are parameters are expanded. -/
theorem length_of_expand (hf : f.isStrict = true) (h : f.expand args = .ok e) :
    args.length = f.arity := by
  cases f with
  | comp inner outer =>
    obtain ⟨hdim, -, -⟩ := isStrict_comp.1 hf
    obtain ⟨mid, hmid, -⟩ := bind_eq_ok.1 h
    obtain ⟨g, hg, happly, -⟩ := exists_of_applyComponents hmid (Nat.pos_of_ne_zero hdim)
    have hlength := length_of_apply happly
    rwa [arity, params_component hg] at hlength
  | _ => exact length_of_apply h

end Func

namespace Expr

variable {args : List (Expr K)} {d e : Expr K} {name : String}

theorem derivative_of_expand {f : Func K} (h : f.expand args = .ok e)
    (hname : name ∈ (apply f args).freeNames) :
    (apply f args).derivative name = e.derivative name := by
  cases f with
  | comp inner outer =>
    rw [derivative_eq_derivativeStep, derivativeStep, if_neg (not_not_dependsOn hname), h]
    rfl
  | _ => rw [Func.eq_apply_of_apply h]

omit [Scalar K] in
/-- The chain rule differentiates every argument that mentions the name, if there is a parameter
for it. -/
theorem exists_of_chainTermsStep {recur : String → Expr K → Except (EvalError K) (Expr K)}
    {withBody : Expr K → Expr K} {body : Expr K} {params : List String} {ts : List (Expr K)}
    (h : chainTermsStep recur name withBody body params args = .ok ts)
    (hlength : args.length ≤ params.length) :
    ∀ a ∈ args, name ∈ a.freeNames → ∃ d, recur name a = .ok d := by
  induction params generalizing args ts with
  | nil =>
    rw [List.eq_nil_of_length_eq_zero (Nat.le_zero.1 hlength)]
    simp
  | cons param params ih =>
    cases args with
    | nil => simp
    | cons arg args =>
      have hrest : args.length ≤ params.length := Nat.le_of_succ_le_succ hlength
      rw [chainTermsStep] at h
      split at h
      · rename_i hindependent
        refine List.forall_mem_cons.2 ⟨fun hname => ?_, ih h hrest⟩
        exact absurd hname (not_dependsOn_iff.1 hindependent)
      · obtain ⟨_, -, h⟩ := bind_eq_ok.1 h
        obtain ⟨d, hd, h⟩ := bind_eq_ok.1 h
        obtain ⟨terms, hterms, -⟩ := bind_eq_ok.1 h
        exact List.forall_mem_cons.2 ⟨fun _ => ⟨d, hd⟩, ih hterms hrest⟩

/-- A derivative of an application of a strict function contains the derivatives of the arguments
that mention the name. -/
theorem exists_derivative_of_isStrict {f : Func K} (hf : f.isStrict = true)
    (hlength : args.length ≤ f.arity) (h : (apply f args).derivative name = .ok d) :
    ∀ a ∈ args, name ∈ a.freeNames → ∃ d, a.derivative name = .ok d := by
  induction f using Func.componentInduction generalizing args d with
  | custom f params body =>
    intro a ha hname
    have hmentioned := mem_freeNames_apply (f := .custom f params body).2 (.inr ⟨a, ha, hname⟩)
    rw [derivative_eq_derivativeStep, derivativeStep, if_neg (not_not_dependsOn hmentioned)] at h
    obtain ⟨chained, hchained, -⟩ := bind_eq_ok.1 h
    exact exists_of_chainTermsStep hchained hlength a ha hname
  | builtin b =>
    intro a ha hname
    have hmentioned := mem_freeNames_apply (f := .builtin b).2 (.inr ⟨a, ha, hname⟩)
    rw [derivative.eq_def, if_neg (not_not_dependsOn hmentioned)] at h
    obtain ⟨_, -, h⟩ := bind_eq_ok.1 h
    rcases args with _ | ⟨u, _ | ⟨_, _⟩⟩
    · cases ha
    · obtain ⟨du, hdu, -⟩ := bind_eq_ok.1 h
      cases List.mem_singleton.1 ha
      exact ⟨du, hdu⟩
    · cases h
  | comp inner outer ihinner ihouter =>
    intro a ha hname
    obtain ⟨hdim, hinner, houter⟩ := Func.isStrict_comp.1 hf
    have hmentioned := mem_freeNames_apply (f := .comp inner outer).2 (.inr ⟨a, ha, hname⟩)
    rw [derivative_eq_derivativeStep, derivativeStep, if_neg (not_not_dependsOn hmentioned)] at h
    obtain ⟨expanded, hexpanded, h⟩ := bind_eq_ok.1 h
    obtain ⟨mid, hmid, hexpanded⟩ := bind_eq_ok.1 hexpanded
    -- the first component of the inner function mentions the name, as the argument does
    obtain ⟨g, hg, happly, happlied⟩ :=
      Func.exists_of_applyComponents hmid (Nat.pos_of_ne_zero hdim)
    have hname' : name ∈ (apply g args).freeNames := mem_freeNames_apply.2 (.inr ⟨a, ha, hname⟩)
    rw [← derivative_of_expand hexpanded (mem_freeNames_apply.2 (.inr ⟨_, happlied, hname'⟩))] at h
    obtain ⟨d', hd'⟩ :=
      ihouter houter (Func.length_of_expand houter hexpanded).le h _ happlied hname'
    exact ihinner 0 g hg (Func.isStrict_component hg hinner) (Func.length_of_apply happly).le hd'
      a ha hname

end Expr

end

/-! ## Functions with a built-in inside -/

namespace Func

/-- Applying the function always comes to the built-in: it is the function itself or a part of the
composition, or it is inside a part that passes something on and has it used. -/
inductive Involves (b : Builtin K) : Func K → Prop
  /-- The built-in on its own. -/
  | itself : Involves b (.builtin b)
  /-- The built-in comes first. -/
  | innerPart (outer : Func K) : Involves b (.comp (.builtin b) outer)
  /-- The built-in comes last. -/
  | outerPart (inner : Func K) : Involves b (.comp inner (.builtin b))
  /-- It is inside the inner function, whose components the outer one evaluates. -/
  | withinInner {inner outer : Func K} (h : Involves b inner) (hdim : inner.dim ≠ 0)
      (houter : outer.isStrict = true) : Involves b (.comp inner outer)
  /-- It is inside the outer function. -/
  | withinOuter {inner outer : Func K} (h : Involves b outer) (hdim : inner.dim ≠ 0) :
      Involves b (.comp inner outer)

variable {b : Builtin K} {f : Func K}

/-- Each component comes to the built-in. -/
theorem Involves.component {index : Nat} {g : Func K} (hf : f.Involves b)
    (h : f.component index = .ok g) : g.Involves b := by
  induction hf generalizing g with
  | itself =>
    rw [eq_of_component_builtin h]
    exact .itself
  | innerPart outer =>
    obtain ⟨g', -, rfl⟩ := exists_of_component_comp h
    exact .innerPart g'
  | outerPart inner =>
    obtain ⟨g', hg', rfl⟩ := exists_of_component_comp h
    rw [eq_of_component_builtin hg']
    exact .outerPart inner
  | withinInner hinner hdim houter _ =>
    obtain ⟨g', hg', rfl⟩ := exists_of_component_comp h
    exact .withinInner hinner hdim (isStrict_component hg' houter)
  | withinOuter _ hdim ih =>
    obtain ⟨g', hg', rfl⟩ := exists_of_component_comp h
    exact .withinOuter (ih hg') hdim

variable [Scalar K] {args : List (Expr K)} {e : Expr K}

/-- Only a built-in that has passed its check is applied. -/
theorem check_of_apply (h : (builtin b).apply args = .ok e) : b.check = .ok () := by
  rw [apply] at h
  split at h
  · cases h
  · obtain ⟨_, hcheck, -⟩ := bind_eq_ok.1 h
    exact hcheck

/-- What is known of an expanded composition that comes to a refused built-in: the built-in is
inside one of the parts, behind what the inner function passes on. -/
theorem Involves.of_expand {inner outer : Func K} (hf : (comp inner outer).Involves b)
    (hb : b.check ≠ .ok ()) (h : (comp inner outer).expand args = .ok e) :
    inner.dim ≠ 0 ∧ (inner.Involves b ∧ outer.isStrict = true ∨ outer.Involves b) := by
  obtain ⟨mid, hmid, houter⟩ := bind_eq_ok.1 h
  cases hf with
  | innerPart =>
    have hdim : 0 < (builtin b).dim := Nat.one_pos
    obtain ⟨g, hg, happly, -⟩ := exists_of_applyComponents hmid hdim
    cases eq_of_component_builtin hg
    exact absurd (check_of_apply happly) hb
  | outerPart => exact absurd (check_of_apply houter) hb
  | withinInner hinner hdim houter => exact ⟨hdim, .inl ⟨hinner, houter⟩⟩
  | withinOuter houter hdim => exact ⟨hdim, .inr houter⟩

/-- An application that comes to a refused built-in has no value. -/
theorem Involves.not_outcome (hf : f.Involves b) (hb : b.check ≠ .ok ()) {mode : Mode}
    {depth : Nat} {env : Env K} {v : Value K} :
    (Expr.apply f args).outcome mode depth env ≠ .ok v := by
  intro h
  induction f using componentInduction generalizing args v with
  | custom => cases hf
  | builtin =>
    cases hf
    rw [Expr.outcome_builtin] at h
    obtain ⟨_, hcheck, -⟩ := bind_eq_ok.1 h
    exact hb hcheck
  | comp inner outer ihinner ihouter =>
    rw [Expr.outcome_comp] at h
    obtain ⟨expanded, hexpanded, h⟩ := bind_eq_ok.1 h
    obtain ⟨hdim, hparts⟩ := hf.of_expand hb hexpanded
    obtain ⟨mid, hmid, hexpanded⟩ := bind_eq_ok.1 hexpanded
    rw [← Expr.outcome_of_expand hexpanded] at h
    rcases hparts with ⟨hinner, houter⟩ | houter
    · obtain ⟨g, hg, -, happlied⟩ := exists_of_applyComponents hmid (Nat.pos_of_ne_zero hdim)
      obtain ⟨w, hw⟩ := Expr.exists_outcome_of_isStrict houter h _ happlied
      exact ihinner 0 g hg (hinner.component hg) hw
    · exact ihouter houter h

/-- Nor has it a derivative in a name that an argument mentions. -/
theorem Involves.not_derivative (hf : f.Involves b) (hb : b.check ≠ .ok ()) {name : String}
    (hname : ∃ a ∈ args, name ∈ a.freeNames) {d : Expr K} :
    (Expr.apply f args).derivative name ≠ .ok d := by
  intro h
  induction f using componentInduction generalizing args d with
  | custom => cases hf
  | builtin =>
    cases hf
    have hmentioned := Expr.mem_freeNames_apply (f := .builtin b).2 (.inr hname)
    rw [Expr.derivative.eq_def, if_neg (Expr.not_not_dependsOn hmentioned)] at h
    obtain ⟨_, hcheck, -⟩ := bind_eq_ok.1 h
    exact hb hcheck
  | comp inner outer ihinner ihouter =>
    have hmentioned := Expr.mem_freeNames_apply (f := .comp inner outer).2 (.inr hname)
    rw [Expr.derivative_eq_derivativeStep, Expr.derivativeStep,
      if_neg (Expr.not_not_dependsOn hmentioned)] at h
    obtain ⟨expanded, hexpanded, h⟩ := bind_eq_ok.1 h
    obtain ⟨hdim, hparts⟩ := hf.of_expand hb hexpanded
    obtain ⟨mid, hmid, hexpanded⟩ := bind_eq_ok.1 hexpanded
    obtain ⟨g, hg, -, happlied⟩ := exists_of_applyComponents hmid (Nat.pos_of_ne_zero hdim)
    have hname' : name ∈ (Expr.apply g args).freeNames := Expr.mem_freeNames_apply.2 (.inr hname)
    rw [← Expr.derivative_of_expand hexpanded
      (Expr.mem_freeNames_apply.2 (.inr ⟨_, happlied, hname'⟩))] at h
    rcases hparts with ⟨hinner, houter⟩ | houter
    · obtain ⟨d', hd'⟩ := Expr.exists_derivative_of_isStrict houter
        (length_of_expand houter hexpanded).le h _ happlied hname'
      exact ihinner 0 g hg (hinner.component hg) hname hd'
    · exact ihouter houter ⟨_, happlied, hname'⟩ h

/-- It cannot be called. -/
theorem Involves.not_call (hf : f.Involves b) (hb : b.check ≠ .ok ()) {mode : Mode} {env : Env K}
    {v : Value K} : (f.call args mode).value env ≠ .ok v := by
  intro h
  rw [value_call] at h
  obtain ⟨e, he, h⟩ := bind_eq_ok.1 h
  cases eq_apply_of_apply he
  exact hf.not_outcome hb h

theorem Involves.not_callReal (hf : f.Involves b) (hb : b.check ≠ .ok ()) {xs : List K} {y : K} :
    f.callReal xs ≠ .ok y := by
  intro h
  obtain ⟨v, hv, -⟩ := bind_eq_ok.1 h
  exact hf.not_call hb hv

/-! ## Partial derivatives -/

/-- A composition that comes to a refused built-in has no partial derivative. -/
theorem Involves.not_partialBody {inner outer : Func K} (hf : (comp inner outer).Involves b)
    (hb : b.check ≠ .ok ()) {param : String} (hparam : param ∈ (comp inner outer).params)
    {d : Expr K} : (comp inner outer).partialBody param ≠ .ok d := by
  intro h
  obtain ⟨body, hbody, h⟩ := bind_eq_ok.1 h
  have hname : ∃ a ∈ ((comp inner outer).params.map .var : List (Expr K)), param ∈ a.freeNames :=
    ⟨.var param, List.mem_map_of_mem hparam, List.mem_singleton_self param⟩
  rw [← Expr.derivative_of_expand hbody (Expr.mem_freeNames_apply.2 (.inr hname))] at h
  exact hf.not_derivative hb hname h

variable [Decimal K]

/-- Of all functions that come to a refused built-in, only the built-in itself has a partial
derivative. -/
theorem Involves.partialDerivative_iff (hf : f.Involves b) (hb : b.check ≠ .ok ()) {index : Nat} :
    (∃ d, f.partialDerivative index = .ok d) ↔ f = .builtin b ∧ index = 0 := by
  constructor
  · rintro ⟨d, h⟩
    rw [partialDerivative] at h
    cases hparam : f.params[index]? with
    | none =>
      rw [hparam] at h
      cases h
    | some param =>
      rw [hparam] at h
      obtain ⟨body, hbody, -⟩ := bind_eq_ok.1 h
      cases f with
      | custom => cases hf
      | builtin =>
        cases hf
        refine ⟨rfl, ?_⟩
        obtain ⟨hindex, -⟩ := List.getElem?_eq_some_iff.1 hparam
        exact Nat.lt_one_iff.1 hindex
      | comp inner outer =>
        exact absurd hbody (hf.not_partialBody hb (List.mem_of_getElem? hparam))
  · rintro ⟨rfl, rfl⟩
    exact ⟨_, rfl⟩

/-- Without parameters there is nothing to differentiate in. -/
theorem Involves.gradient_iff (hf : f.Involves b) (hb : b.check ≠ .ok ()) :
    (∃ ds, f.gradient = .ok ds) ↔ f = .builtin b ∨ f.arity = 0 := by
  constructor
  · rintro ⟨ds, h⟩
    rcases Nat.eq_zero_or_pos f.arity with hzero | hpos
    · exact .inr hzero
    · obtain ⟨d, -, hd⟩ := exists_of_mem_of_mapM h (List.mem_range.2 hpos)
      exact .inl ((hf.partialDerivative_iff hb).1 ⟨d, hd⟩).1
  · rintro (rfl | hzero)
    · exact ⟨_, rfl⟩
    · refine ⟨[], ?_⟩
      rw [gradient, hzero]
      rfl

end Func

/-! ## Logarithms and roots of floats -/

namespace Func

/-- A function that comes to a logarithm or root of an invalid base or degree has no value in any
mode, no derivative in a name that an argument mentions, and cannot be called.  It has a partial
derivative, or a gradient with entries, only if it is the built-in itself. -/
theorem invalid_builtin_refused {b : Builtin Float} {f : Func Float} (hb : b.Invalid)
    (hf : f.Involves b) :
    (∀ args mode env, ∃ err, ((Expr.apply f args).evaluate mode).value env = .error err) ∧
    (∀ args name, (∃ a ∈ args, name ∈ a.freeNames) →
      ∃ err, (Expr.apply f args).derivative name = .error err) ∧
    (∀ args mode env, ∃ err, (f.call args mode).value env = .error err) ∧
    (∀ xs, ∃ err, f.callReal xs = .error err) ∧
    (∀ index, (∃ d, f.partialDerivative index = .ok d) ↔ f = .builtin b ∧ index = 0) ∧
    ((∃ ds, f.gradient = .ok ds) ↔ f = .builtin b ∨ f.arity = 0) := by
  have hcheck := Builtin.check_of_invalid hb
  refine ⟨fun args mode env => exists_error_of_ne_ok fun v => ?_,
    fun args name hname => exists_error_of_ne_ok fun d => ?_,
    fun args mode env => exists_error_of_ne_ok fun v => ?_,
    fun xs => exists_error_of_ne_ok fun y => ?_,
    fun index => hf.partialDerivative_iff hcheck, hf.gradient_iff hcheck⟩
  · exact hf.not_outcome hcheck
  · exact hf.not_derivative hcheck hname
  · exact hf.not_call hcheck
  · exact hf.not_callReal hcheck

/-- The exponential of the root of degree zero of `x + 1`. -/
def growthOfRoot : Func Float :=
  .comp (.custom "f" ["x"] (.var "x" + .num 1)) (.comp (.builtin (.root 0)) (.builtin .exp))

/-- A root of degree zero is refused however deep it is inside a composition. -/
theorem invalid_builtin_refused_growthOfRoot :
    (Builtin.root (0 : Float)).Invalid ∧ growthOfRoot.Involves (.root 0) ∧
      (∃ err, ((Expr.apply growthOfRoot [.var "y"]).evaluate .real).value .empty = .error err) ∧
      (∃ err, (Expr.apply growthOfRoot [.var "y"]).derivative "y" = .error err) ∧
      (∃ err, (growthOfRoot.call [.num 2] .interval).value .empty = .error err) ∧
      (∃ err, growthOfRoot.callReal [2] = .error err) ∧
      ¬(∃ d, growthOfRoot.partialDerivative 0 = .ok d) ∧ ¬∃ ds, growthOfRoot.gradient = .ok ds := by
  have hinvalid : (Builtin.root (0 : Float)).Invalid := .inl (by decide +kernel)
  have hinvolves : growthOfRoot.Involves (.root 0) := .withinOuter (.innerPart _) Nat.one_ne_zero
  obtain ⟨hvalue, hderivative, hcall, hcallReal, hpartial, hgradient⟩ :=
    invalid_builtin_refused hinvalid hinvolves
  refine ⟨hinvalid, hinvolves, hvalue _ _ _, hderivative _ _ ⟨.var "y", by simp, by decide⟩,
    hcall _ _ _, hcallReal _, fun h => ?_, fun h => ?_⟩
  · cases ((hpartial 0).1 h).1
  · rcases hgradient.1 h with h | h
    · cases h
    · cases h

/-- The partial derivative of a logarithm to a negative base is a function. -/
theorem partialDerivative_negativeBase :
    (Builtin.log (-2 : Float)).Invalid ∧
      (∃ d, (builtin (.log (-2 : Float))).partialDerivative 0 = .ok d) ∧
      ∃ ds, (builtin (.log (-2 : Float))).gradient = .ok ds :=
  ⟨.inl (by decide +kernel), ⟨_, rfl⟩, ⟨_, rfl⟩⟩

end Func

end ZeroSet
