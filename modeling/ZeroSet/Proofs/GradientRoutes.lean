import ZeroSet.Proofs.Renaming
import ZeroSet.Proofs.Reachability
import ZeroSet.Proofs.ToCustom
import ZeroSet.Proofs.SurvivingLeaves
import ZeroSet.Proofs.SurfaceNames

/-!
# Two ways to a gradient

A function of three parameters that mentions nothing else makes a surface: it is applied to the
coordinates, and the application is differentiated in these and simplified.  The function has
partial derivatives of its own, for which its body is differentiated in its own parameters, be it
the body of a user function or the expansion of a composition.  Whatever the parameters are called,
the two ways lead to the same values.

* `Env.atNumbers` — names that stand for numbers.
* `Func.outcome_closed` — what a function gives for numbers under names and for the numbers.
* `Expr.derivative_apply_vars` — the derivative of a user function applied to variables.
* `Func.evaluates_derivative` — the derivative of an application to variables has the value of the
  partial derivative.
* `Surface.gradient_routes_agree` — a surface has the values and the gradient of its function.
-/

namespace ZeroSet

variable {K : Type}

/-! ## Numbers under names -/

/-- Names that stand for numbers, with nothing else bound. -/
def Env.atNumbers (names : List String) (xs : List K) : Env K :=
  .ofList (names.zip (xs.map .num))

/-- Names can be renamed one by one. -/
theorem exists_renaming {olds news : List String} (hnodup : olds.Nodup)
    (hlength : olds.length = news.length) : ∃ ρ : String → String, olds.map ρ = news := by
  induction olds generalizing news with
  | nil => exact ⟨id, (List.length_eq_zero_iff.1 hlength.symm).symm⟩
  | cons old olds ih =>
    cases news with
    | nil => cases hlength
    | cons new news =>
      obtain ⟨hold, hnodup⟩ := List.nodup_cons.1 hnodup
      obtain ⟨ρ, hρ⟩ := ih hnodup (Nat.succ.inj hlength)
      refine ⟨fun n => if n = old then new else ρ n, ?_⟩
      rw [List.map_cons, if_pos rfl, ← hρ]
      congr 1
      refine List.map_congr_left fun n hn => if_neg ?_
      rintro rfl
      exact hold hn

section

variable [Scalar K] {names : List String} {xs : List K} {mode : Mode} {depth : ℕ}

/-- A name has the outcome of its number. -/
theorem Expr.outcome_var_atNumbers (hnodup : names.Nodup) {n : String} {x : K}
    (hlength : xs.length = names.length) (h : (n, x) ∈ names.zip xs) :
    (var n).outcome mode (depth + 1) (.atNumbers names xs) =
      (num x).outcome mode (depth + 1) .empty := by
  have hnames : (names.zip (xs.map num)).map Prod.fst = names := by
    rw [List.map_fst_zip]
    rw [List.length_map, hlength]
  have hpair : (n, num x) ∈ names.zip (xs.map num) := by
    rw [List.zip_map_right]
    exact List.mem_map.2 ⟨(n, x), h, rfl⟩
  have hget : (Env.atNumbers names xs).bindings.get? n = some (num x) :=
    Bindings.get?_putAll_of_nodup (hnames.symm ▸ hnodup) hpair _
  have hfree : n ∉ (Env.atNumbers names xs).resolving := List.not_mem_nil
  rw [outcome_var, if_neg hfree, hget, outcome_num]
  exact outcome_num x

/-- The variables have the outcomes of the numbers. -/
theorem Expr.sameOutcomes_atNumbers (hnodup : names.Nodup) (hlength : xs.length = names.length) :
    SameOutcomes mode (depth + 1) (.atNumbers names xs) .empty (names.map var) (xs.map num) := by
  rw [SameOutcomes, List.forall₂_map_left_iff, List.forall₂_map_right_iff]
  exact List.forall₂_iff_zip.2
    ⟨hlength.symm, fun h => outcome_var_atNumbers hnodup hlength h⟩

/-- The same numbers under other names are the names renamed. -/
theorem Expr.renames_atNumbers {ρ : String → String} {params : List String}
    (hparams : params.Nodup) (hnodup : names.Nodup) (hρ : params.map ρ = names)
    (hlength : xs.length = params.length) :
    Renames ρ (fun n => n ∈ params) (depth + 1) (.atNumbers params xs)
      (.atNumbers names xs) := by
  subst hρ
  intro n hn mode
  have hzip : (params.zip xs).map Prod.fst = params := List.map_fst_zip hlength.ge
  obtain ⟨⟨n, x⟩, hx, rfl⟩ := List.mem_map.1 (hzip.symm ▸ hn)
  have hx' : (ρ n, x) ∈ (params.map ρ).zip xs := by
    rw [List.zip_map_left]
    exact List.mem_map.2 ⟨(n, x), hx, rfl⟩
  rw [outcome_var_atNumbers hparams hlength hx,
    outcome_var_atNumbers hnodup (by rwa [List.length_map]) hx']

/-- Among numbers there is nothing to follow. -/
theorem Expr.value_evaluateReal_atNumbers (e : Expr K) :
    e.evaluateReal.value (.atNumbers names xs) =
      e.outcome .real 1 (.atNumbers names xs) >>= Value.asReal := by
  have hpending : (Env.atNumbers names xs).pending.card = 0 := by
    rw [Finset.card_eq_zero, Finset.eq_empty_iff_forall_notMem]
    intro n hn
    obtain ⟨-, e, hget, he⟩ := Env.mem_pending.1 hn
    obtain ⟨x, -, rfl⟩ := List.mem_map.1 (List.of_mem_zip (Env.mem_of_get?_ofList hget)).2
    cases he
  have hdepth : e.outcome .real ((Env.atNumbers names xs).bindings.size + 1)
      (.atNumbers names xs) = e.outcome .real 1 (.atNumbers names xs) :=
    outcome_eq_of_pending (by omega) (by omega) e .real
  rw [value_evaluateReal, hdepth]

/-- What a function that mentions nothing else gives for variables, it gives for the numbers that
they stand for. -/
theorem Func.outcome_closed {f : Func K} (hf : f.SelfContained) (hnodup : names.Nodup)
    (hlength : xs.length = names.length) :
    (Expr.apply f (names.map .var)).outcome mode (depth + 1) (.atNumbers names xs) =
      (Expr.apply f (xs.map .num)).outcome mode (depth + 1) .empty := by
  have hagree : Env.AgreeOn (fun _ => False) (.atNumbers names xs) (Env.empty : Env K) :=
    ⟨fun _ _ h _ => h, fun _ h => h.elim, fun _ h => h.elim⟩
  exact Expr.outcome_apply_congr f hagree hf.closed (Expr.sameOutcomes_atNumbers hnodup hlength)

/-- A user function gives for numbers what its body gives where the parameters stand for them. -/
theorem Expr.outcome_apply_nums {name : String} {body : Expr K}
    (hlength : xs.length = names.length) :
    (apply (.custom name names body) (xs.map num)).outcome .real 1 .empty =
      body.outcome .real 1 (.atNumbers names xs) := by
  have hvalues : (xs.map num).mapM (fun a => a.outcome .real 1 .empty) =
      .ok (xs.map Value.real) := by
    rw [mapM_eq_ok, List.forall₂_map_left_iff, List.forall₂_map_right_iff, List.forall₂_same]
    exact fun x _ => outcome_num x
  have hcount : ¬(xs.map num).length ≠ names.length := by
    rw [List.length_map]
    exact not_not_intro hlength
  rw [outcome_custom, if_neg hcount, hvalues]
  show body.outcome .real 1 (Env.empty.enter (names.zip ((xs.map Value.real).map _))) = _
  rw [List.map_map]
  rfl

end

/-! ## Derivatives of applications to variables -/

namespace Expr

variable [Scalar K] {body d : Expr K} {name param : String} {params names : List String}
  {index : ℕ}

/-- Variables other than the one that is differentiated in have no term in the chain rule. -/
theorem chainTermsStep_vars_of_notMem {withBody : Expr K → Expr K} (h : name ∉ names) :
    chainTermsStep (fun name e => e.derivative name) name withBody body params (names.map var) =
      .ok [] := by
  induction params generalizing names with
  | nil => rw [chainTermsStep.eq_def]
  | cons param params ih =>
    cases names with
    | nil => rfl
    | cons other names =>
      rw [List.mem_cons, not_or] at h
      have hother : name ∉ (var other : Expr K).freeNames :=
        fun hmem => h.1 (List.mem_singleton.1 hmem)
      rw [List.map_cons, chainTermsStep, if_pos (not_dependsOn_iff.2 hother), ih h.2]

/-- Among variables there is a single term in the chain rule, that of the variable that is
differentiated in. -/
theorem chainTermsStep_vars {withBody : Expr K → Expr K} (hnodup : names.Nodup)
    (hparam : params[index]? = some param) (hname : names[index]? = some name)
    (hd : body.derivative param = .ok d) :
    chainTermsStep (fun name e => e.derivative name) name withBody body params (names.map var) =
      .ok [withBody d * .num 1] := by
  induction index generalizing params names with
  | zero =>
    cases params with
    | nil => cases hparam
    | cons _ params =>
      cases names with
      | nil => cases hname
      | cons _ names =>
        cases hparam
        cases hname
        obtain ⟨hnew, -⟩ := List.nodup_cons.1 hnodup
        have hmentioned : ¬(!(var name : Expr K).dependsOn name) = true :=
          not_not_dependsOn (List.mem_singleton_self name)
        have hvar : (var name : Expr K).derivative name = .ok (.num 1) := by
          rw [derivative.eq_def, if_neg hmentioned]
          dsimp only
          rw [if_pos rfl]
        rw [List.map_cons, chainTermsStep, if_neg hmentioned, hd, hvar,
          chainTermsStep_vars_of_notMem hnew]
        rfl
  | succ index ih =>
    cases params with
    | nil => cases hparam
    | cons _ params =>
      cases names with
      | nil => cases hname
      | cons other names =>
        obtain ⟨hnew, hnodup⟩ := List.nodup_cons.1 hnodup
        have hother : name ∉ (var other : Expr K).freeNames := by
          intro hmem
          cases List.mem_singleton.1 hmem
          exact hnew (List.mem_of_getElem? hname)
        rw [List.map_cons, chainTermsStep, if_pos (not_dependsOn_iff.2 hother)]
        exact ih hnodup hparam hname

omit [Scalar K] in
theorem mem_freeNames_apply_vars {f : Func K} (h : name ∈ names) :
    name ∈ (apply f (names.map var)).freeNames :=
  mem_freeNames_apply.2 (.inr ⟨var name, List.mem_map_of_mem h, List.mem_singleton_self name⟩)

/-- A user function applied to variables has the partial derivative of its body for a derivative,
applied to the same variables. -/
theorem derivative_apply_vars {f : String} (hf : (Func.custom f params body).SelfContained)
    (hnodup : names.Nodup) (hparam : params[index]? = some param)
    (hname : names[index]? = some name) (hd : body.derivative param = .ok d) :
    (apply (.custom f params body) (names.map var)).derivative name =
      .ok (apply (.custom f params d) (names.map var) * .num 1) := by
  rw [derivative_apply_of_selfContained hf
    (not_not_dependsOn (mem_freeNames_apply_vars (List.mem_of_getElem? hname))),
    chainTermsStep_vars hnodup hparam hname hd]
  rfl

end Expr

/-! ## Partial derivatives -/

namespace Func

variable [ExactScalar K] {F : Func K} {names : List String} {xs : List K} {index : ℕ}
  {name param : String} {body : Expr K} {v : K}

/-- A user function applied to variables evaluates to what its body does. -/
theorem evaluates_apply_vars {f : String} {params : List String}
    (hf : (custom f params body).SelfContained) (hnodup : names.Nodup)
    (hnames : xs.length = names.length) (hparams : xs.length = params.length)
    (hv : body.Evaluates 1 (.atNumbers params xs) v) :
    (Expr.apply (custom f params body) (names.map .var)).Evaluates 1 (.atNumbers names xs) v := by
  refine ⟨?_, .custom (List.forall_mem_map.2 fun _ _ => .var)⟩
  rw [Expr.Yields, outcome_closed hf hnodup hnames, Expr.outcome_apply_nums hparams]
  exact hv.yields

/-- The application of a user function to variables has the derivative that the function has in the
parameter in the place of the variable. -/
theorem evaluates_derivative_custom {f : String} {params : List String} {own : Expr K}
    (hF : (custom f params own).SelfContained) (hnodup : names.Nodup)
    (hnames : xs.length = names.length) (hparams : xs.length = params.length)
    (hparam : params[index]? = some param) (hname : names[index]? = some name)
    (hbody : own.derivative param = .ok body) (hv : body.Evaluates 1 (.atNumbers params xs) v) :
    ∃ d, (Expr.apply (custom f params own) (names.map .var)).derivative name = .ok d ∧
      d.Evaluates 1 (.atNumbers names xs) v := by
  have happlied := evaluates_apply_vars (hF.derivative hbody) hnodup hnames hparams hv
  have hproduct := happlied.mul (Expr.evaluates_num 1)
  rw [mul_one] at hproduct
  exact ⟨_, Expr.derivative_apply_vars hF hnodup hparam hname hbody, hproduct⟩

/-- The application of a composition to variables is differentiated as the expansion with the
parameters renamed. -/
theorem evaluates_derivative_comp {inner outer : Func K} (hF : (comp inner outer).SelfContained)
    (hnodup : names.Nodup) (hdistinct : inner.params.Nodup) (hnames : xs.length = names.length)
    (hparams : xs.length = inner.params.length) (hparam : inner.params[index]? = some param)
    (hname : names[index]? = some name) {own : Expr K}
    (hown : (comp inner outer).expand (inner.params.map .var) = .ok own)
    (hbody : own.derivative param = .ok body)
    (hv : body.Evaluates 1 (.atNumbers inner.params xs) v) :
    ∃ d, (Expr.apply (comp inner outer) (names.map .var)).derivative name = .ok d ∧
      d.Evaluates 1 (.atNumbers names xs) v := by
  obtain ⟨ρ, rfl⟩ := exists_renaming hdistinct (hparams.symm.trans hnames)
  have happlies : own.Applies SelfContained := SelfContained.inherited.expand hown hF
    (List.forall_mem_map.2 fun _ _ => .var)
  have hover : own.Over fun n => n ∈ inner.params := by
    refine (hereditary_freeNames _).expand hown (fun n hn => (hF.closed n hn).elim) ?_
    exact List.forall_mem_map.2 fun n hn => Expr.over_var.2 hn
  -- no two parameters are given the same name
  have hmem : param ∈ inner.params := List.mem_of_getElem? hparam
  have hinjective : own.Over fun n => ρ n = ρ param → n = param :=
    fun n hn heq => List.inj_on_of_nodup_map hnodup (hover n hn) hmem heq
  have hρ : ρ param = name := by
    rw [List.getElem?_map, hparam] at hname
    exact Option.some.inj hname
  subst hρ
  have hexpanded : (comp inner outer).expand ((inner.params.map ρ).map .var) =
      .ok (own.rename ρ) := by
    have hvars : (inner.params.map ρ).map Expr.var =
        (inner.params.map Expr.var).map (Expr.rename (K := K) ρ) := by
      rw [List.map_map, List.map_map]
      rfl
    rw [hvars, expand_rename, hown]
    rfl
  refine ⟨body.rename ρ, ?_, ?_⟩
  · rw [Expr.derivative_eq_derivativeStep, Expr.derivativeStep,
      if_neg (Expr.not_not_dependsOn (Expr.mem_freeNames_apply_vars (List.mem_map_of_mem hmem))),
      hexpanded]
    show (own.rename ρ).derivative (ρ param) = _
    rw [Expr.derivative_rename happlies hinjective, hbody]
    rfl
  · exact hv.rename (Expr.renames_atNumbers hdistinct hnodup rfl hparams)
      (happlies.derivative hbody) (Expr.over_derivative hover hbody)

/-- A function that can be applied to some arguments can be applied to equally many others. -/
theorem apply_of_apply {args args' : List (Expr K)} {e : Expr K} (h : F.apply args = .ok e)
    (hlength : args.length = args'.length) : F.apply args' = .ok (.apply F args') := by
  have halike : Alike (fun _ e => e = Expr.apply F args') (F.apply args) (F.apply args') :=
    alike_apply hlength rfl
  rw [h] at halike
  generalize F.apply args' = result at halike
  cases halike with
  | ok he => rw [he]

/-- What a call with numbers gives is what the application to them has for its outcome. -/
theorem callReal_of_apply (h : F.apply (xs.map .num) = .ok (.apply F (xs.map .num))) :
    F.callReal xs = (Expr.apply F (xs.map .num)).outcome .real 1 .empty >>= Value.asReal := by
  rw [callReal, value_call, h]
  rfl

/-- A call of a user function with numbers has a real value, and nothing undefined is computed in
the body on the way. -/
inductive CallEvaluates : Func K → List K → K → Prop
  /-- The body is evaluated where the parameters stand for the numbers. -/
  | custom {name : String} {params : List String} {body : Expr K} {xs : List K} {v : K}
    (h : (custom name params body).callReal xs = .ok v)
    (hdefined : body.Defined 1 (.atNumbers params xs)) :
    CallEvaluates (custom name params body) xs v

theorem callEvaluates_iff {f : String} {params : List String}
    (hlength : xs.length = params.length) :
    (Func.custom f params body).CallEvaluates xs v ↔
      body.Evaluates 1 (.atNumbers params xs) v := by
  have hcount : (xs.map Expr.num).length = (Func.custom f params body).arity := by
    rwa [List.length_map]
  have hcall : (Func.custom f params body).callReal xs =
      body.outcome .real 1 (.atNumbers params xs) >>= Value.asReal := by
    rw [callReal_of_apply (apply_of_body rfl hcount), Expr.outcome_apply_nums hlength]
  constructor
  · rintro (⟨h, hdefined⟩)
    obtain ⟨w, hw, h⟩ := bind_eq_ok.1 (hcall.symm.trans h)
    obtain ⟨x, rfl⟩ := Expr.real_of_outcome hw
    cases h
    exact ⟨hw, hdefined⟩
  · rintro ⟨hyields, hdefined⟩
    refine .custom ?_ hdefined
    rw [hcall, hyields]
    rfl

/-- The application of a function to variables has a derivative with the value of the partial
derivative, if that is computed without anything undefined. -/
theorem evaluates_derivative [Decimal K] (hF : F.Built) (hclosed : F.SelfContained)
    (hbuiltin : ∀ b, F ≠ .builtin b) (hnodup : names.Nodup) (hnames : xs.length = names.length)
    (hparams : xs.length = F.params.length) (hname : names[index]? = some name) {F' : Func K}
    (hF' : F.partialDerivative index = .ok F') (hv : F'.CallEvaluates xs v) :
    ∃ d, (Expr.apply F (names.map .var)).derivative name = .ok d ∧
      d.Evaluates 1 (.atNumbers names xs) v := by
  rw [partialDerivative] at hF'
  split at hF'
  · cases hF'
  · rename_i param hparam
    obtain ⟨body, hbody, hF'⟩ := bind_eq_ok.1 hF'
    cases hF'
    have hv := (callEvaluates_iff hparams).1 hv
    cases F with
    | custom f params own =>
      exact evaluates_derivative_custom hclosed hnodup hnames hparams hparam hname hbody hv
    | builtin b => exact (hbuiltin b rfl).elim
    | comp inner outer =>
      obtain ⟨own, hown, hbody⟩ := bind_eq_ok.1 hbody
      exact evaluates_derivative_comp hclosed hnodup hF.nodup_params hnames hparams hparam hname
        hown hbody hv

end Func

/-! ## Surfaces of functions -/

/-- The names of the axes are in the order of the axes. -/
theorem Axis.getElem?_names {index : ℕ} {axis : Axis} (h : Axis.ofNat? index = some axis) :
    Axis.names[index]? = some axis.name := by
  unfold Axis.ofNat? at h
  split at h <;> cases h <;> rfl

namespace Surface

/-- What it takes to build a surface of a function: three parameters, and the application to the
coordinates for a field. -/
theorem of_ofFunction [Scalar K] {F : Func K} {settings : Settings K} {ids ids' : IdSupply}
    {s : Surface K} (h : (ofFunction F settings).run.run ids = (.ok s, ids')) :
    F.apply (Axis.names.map .var) = .ok s.field ∧
      ∀ axis, slope s.field axis = .ok (s.gradient.get axis) := by
  rw [ofFunction] at h
  split at h
  · obtain ⟨field, hfield, h⟩ := Building.lift_bind_eq_ok.1 h
    obtain ⟨_, _, _, _, -, -, hx, hy, hz, rfl, -⟩ := build_eq_ok.1 h
    refine ⟨hfield, fun axis => ?_⟩
    cases axis with
    | x => exact hx
    | y => exact hy
    | z => exact hz
  · cases h

theorem atPoint_eq (p : Vec3 K) : atPoint p = .atNumbers Axis.names [p.x, p.y, p.z] := rfl

variable [InverseScalar K] [Decimal K]

/-- A function of three parameters that mentions nothing else has at every point the value that the
surface of the function has there, or fails as this does.  Where a partial derivative of the
function has a value, with nothing undefined computed on the way, the component of the gradient of
the surface along the axis in the place of the parameter has the same value. -/
theorem gradient_routes_agree {F : Func K} (hF : F.Built) (hclosed : F.freeNames = [])
    {settings : Settings K} {ids ids' : IdSupply} {s : Surface K}
    (h : (ofFunction F settings).run.run ids = (.ok s, ids')) (p : Vec3 K) :
    s.valueAt p = F.callReal [p.x, p.y, p.z] ∧
      ∀ index axis, Axis.ofNat? index = some axis →
        ∀ F' v, F.partialDerivative index = .ok F' → F'.CallEvaluates [p.x, p.y, p.z] v →
          (s.gradient.get axis).evaluateReal.value (atPoint p) = .ok v := by
  have hself : F.SelfContained := ⟨fun _ hn => List.not_mem_nil (hclosed ▸ hn), hF.isStrict⟩
  have hnodup : Axis.names.Nodup := by decide
  obtain ⟨hfield, hslope⟩ := of_ofFunction h
  have harity : F.params.length = 3 := by
    by_contra hne
    have hcount : (Axis.names.map (Expr.var (K := K))).length ≠ F.arity := fun heq => hne heq.symm
    rw [Func.apply_of_length_ne hcount] at hfield
    cases hfield
  have happly := Func.eq_apply_of_apply hfield
  refine ⟨?_, fun index axis hindex F' v hF' hv => ?_⟩
  · have hnums : F.apply ([p.x, p.y, p.z].map .num) = .ok (.apply F ([p.x, p.y, p.z].map .num)) :=
      Func.apply_of_apply hfield rfl
    rw [valueAt, atPoint_eq, Expr.value_evaluateReal_atNumbers, happly,
      Func.outcome_closed hself hnodup rfl, Func.callReal_of_apply hnums]
  · have hname := Axis.getElem?_names hindex
    have hbuiltin : ∀ b, F ≠ .builtin b := by
      rintro b rfl
      cases harity
    have hcount : [p.x, p.y, p.z].length = F.params.length := harity.symm
    obtain ⟨d, hd, hdv⟩ :=
      Func.evaluates_derivative hF hself hbuiltin hnodup rfl hcount hname hF' hv
    obtain ⟨d', hd', hsimplified⟩ := bind_eq_ok.1 (hslope axis)
    rw [happly, hd] at hd'
    cases hd'
    have happlies : d.Applies Func.SelfContained :=
      Expr.Applies.derivative (.apply hself (List.forall_mem_map.2 fun _ _ => .var)) hd
    obtain ⟨g, hg, hgv⟩ := hdv.exists_simplify happlies.appliesStrict
    cases hsimplified.symm.trans hg
    rw [atPoint_eq, Expr.value_evaluateReal_atNumbers, hgv.yields]
    rfl

end Surface

/-! ## A function with permuted coordinates for parameters -/

namespace Surface

/-- The third of three numbers, under a name of the first coordinate. -/
def third : Func ℝ := .custom "third" ["y", "z", "x"] (.var "x")

/-- The exponential of the third of three numbers. -/
def growth : Func ℝ := .comp third (.builtin .exp)

theorem selfContained_third : third.SelfContained := ⟨by decide, rfl⟩

theorem built_growth : growth.Built :=
  .comp (.custom (Func.define_eq_ok.2 ⟨by decide, by decide, rfl⟩)) (.builtin .exp)
    (Func.compose_eq_ok.2 ⟨rfl, rfl⟩)

/-- What becomes of the exponential when the number is differentiated. -/
theorem derivative_growth {index : ℕ} {param : String} {d : Expr ℝ}
    (hparam : third.params[index]? = some param) (hd : (Expr.var "x").derivative param = .ok d) :
    (Expr.exp (.apply third (third.params.map .var))).derivative param =
      .ok (.exp (.apply third (third.params.map .var)) *
        (.apply (.custom "third" third.params d) (third.params.map .var) * .num 1)) := by
  have hmem : param ∈ third.params := List.mem_of_getElem? hparam
  have hmentioned : param ∈ (Expr.exp (.apply third (third.params.map .var))).freeNames :=
    Expr.mem_freeNames_apply.2
      (.inr ⟨_, List.mem_singleton_self _, Expr.mem_freeNames_apply_vars hmem⟩)
  have hthird : (Expr.apply third (third.params.map .var)).derivative param =
      .ok (.apply (.custom "third" third.params d) (third.params.map .var) * .num 1) :=
    Expr.derivative_apply_vars selfContained_third (by decide) hparam hparam hd
  rw [Expr.derivative.eq_def, if_neg (Expr.not_not_dependsOn hmentioned)]
  show (Expr.derivative param _ >>= fun du => pure (Builtin.exp.derivativeAt _ * du)) = _
  rw [hthird]
  rfl

theorem expand_growth : growth.expand (growth.params.map .var) =
    .ok (.exp (.apply third (third.params.map .var))) := rfl

theorem evaluates_growth (a b c w : ℝ) {param : String}
    (hd : (Expr.var "x").derivative param = .ok (.num w)) :
    (Expr.exp (.apply third (third.params.map .var)) *
      (.apply (.custom "third" third.params (.num w)) (third.params.map .var) *
        .num 1)).Evaluates 1 (.atNumbers third.params [a, b, c]) (Real.exp c * (w * 1)) := by
  have hnodup : third.params.Nodup := by decide
  have hlength : [a, b, c].length = third.params.length := rfl
  have hx : (Expr.var "x").Evaluates 1 (.atNumbers third.params [a, b, c]) c := by
    refine ⟨?_, .var⟩
    have hmem : ("x", c) ∈ third.params.zip [a, b, c] := by simp [third, Func.params]
    have hvar : (Expr.var "x").outcome .real (0 + 1) (.atNumbers third.params [a, b, c]) =
        (Expr.num c).outcome .real (0 + 1) .empty :=
      Expr.outcome_var_atNumbers hnodup hlength hmem
    exact hvar.trans (Expr.outcome_num c)
  have hvalue : (Expr.apply third (third.params.map .var)).Evaluates 1
      (.atNumbers third.params [a, b, c]) c :=
    Func.evaluates_apply_vars selfContained_third hnodup hlength hlength hx
  have hderived : (Expr.apply (.custom "third" third.params (.num w))
      (third.params.map .var)).Evaluates 1 (.atNumbers third.params [a, b, c]) w :=
    Func.evaluates_apply_vars (selfContained_third.derivative hd) hnodup hlength hlength
      (Expr.evaluates_num w)
  exact (hvalue.builtin (f := .exp) rfl trivial).mul (hderived.mul (Expr.evaluates_num 1))

theorem exists_derivative_x (param : String) :
    ∃ w : ℝ, (Expr.var "x").derivative param = .ok (.num w) := by
  rw [Expr.derivative.eq_def]
  split
  · exact ⟨0, rfl⟩
  · exact ⟨_, rfl⟩

theorem exists_build_growth :
    ∃ s ids, (ofFunction growth ⟨10, 5, 1, 0⟩).run.run .fresh = (.ok s, ids) := by
  have hself : growth.SelfContained := ⟨by decide, rfl⟩
  have hslope : ∀ axis, ∃ g, slope (.apply growth (Axis.names.map .var)) axis = .ok g := by
    intro axis
    obtain ⟨index, param, hparam, hname⟩ : ∃ (index : ℕ) (param : String),
        third.params[index]? = some param ∧ Axis.names[index]? = some axis.name := by
      cases axis with
      | x => exact ⟨0, _, rfl, rfl⟩
      | y => exact ⟨1, _, rfl, rfl⟩
      | z => exact ⟨2, _, rfl, rfl⟩
    obtain ⟨w, hw⟩ := exists_derivative_x param
    have hnames : [(0 : ℝ), 0, 0].length = Axis.names.length := rfl
    have hparams : [(0 : ℝ), 0, 0].length = third.params.length := rfl
    obtain ⟨d, hd, hv⟩ := Func.evaluates_derivative_comp hself (by decide) (by decide) hnames
      hparams hparam hname expand_growth (derivative_growth hparam hw)
      (evaluates_growth 0 0 0 w hw)
    have happlies : d.Applies Func.SelfContained :=
      Expr.Applies.derivative (.apply hself (List.forall_mem_map.2 fun _ _ => .var)) hd
    obtain ⟨g, hg, -⟩ := hv.exists_simplify happlies.appliesStrict
    exact ⟨g, bind_eq_ok.2 ⟨d, hd, hg⟩⟩
  obtain ⟨gx, hx⟩ := hslope .x
  obtain ⟨gy, hy⟩ := hslope .y
  obtain ⟨gz, hz⟩ := hslope .z
  have hfinder : Bisection.ofSettings (⟨10, 5, 1, 0⟩ : Settings ℝ) = .ok ⟨10, 5, 1⟩ :=
    Bisection.ofSettings_eq_ok.2 ⟨by norm_num, rfl⟩
  have hstray : strayNames (.apply growth (Axis.names.map .var)) = [] := by
    rw [strayNames, Expr.distinctNames]
    rfl
  obtain ⟨s, ids, hbuild⟩ : ∃ s ids,
      (build (.apply growth (Axis.names.map .var)) ⟨10, 5, 1, 0⟩).run.run .fresh = (.ok s, ids) :=
    ⟨_, _, build_eq_ok.2 ⟨_, gx, gy, gz, hfinder, hstray, hx, hy, hz, rfl, rfl⟩⟩
  refine ⟨s, ids, ?_⟩
  have hdim : growth.dim = 1 := rfl
  rw [ofFunction, if_pos hdim]
  exact Building.lift_bind_eq_ok.2 ⟨_, rfl, hbuild⟩

/-- The slope along the third axis is the partial derivative in the third parameter, which has the
name of the first coordinate. -/
theorem gradient_routes_agree_permuted :
    ∃ (_ : Decimal ℝ) (s : Surface ℝ) (ids : IdSupply) (F' : Func ℝ),
      growth.Built ∧ growth.freeNames = [] ∧
        (ofFunction growth ⟨10, 5, 1, 0⟩).run.run .fresh = (.ok s, ids) ∧
        growth.partialDerivative 2 = .ok F' ∧ F'.CallEvaluates [2, 5, 0] 1 ∧
        s.valueAt ⟨2, 5, 0⟩ = growth.callReal [2, 5, 0] ∧
        (s.gradient.get .z).evaluateReal.value (atPoint ⟨2, 5, 0⟩) = .ok 1 := by
  let plain : Decimal ℝ := ⟨fun _ _ => .nan, fun _ _ => .nan, fun _ => 0⟩
  obtain ⟨s, ids, hs⟩ := exists_build_growth
  have hd : (Expr.var "x").derivative "x" = .ok (.num (1 : ℝ)) := by
    rw [Expr.derivative.eq_def]
    rfl
  have hlast : third.params[2]? = some "x" := rfl
  have hbody : growth.partialBody "x" = .ok (.exp (.apply third (third.params.map .var)) *
      (.apply (.custom "third" third.params (.num 1)) (third.params.map .var) * .num 1)) :=
    bind_eq_ok.2 ⟨_, expand_growth, derivative_growth hlast hd⟩
  have hpartial : growth.partialDerivative 2 = .ok (.custom _ third.params _) :=
    bind_eq_ok.2 ⟨_, hbody, rfl⟩
  have hone : Real.exp 0 * (1 * 1) = 1 := by norm_num
  have hcall := evaluates_growth 2 5 0 1 hd
  rw [hone] at hcall
  have hcount : [(2 : ℝ), 5, 0].length = third.params.length := rfl
  obtain ⟨hvalue, hgradient⟩ := gradient_routes_agree built_growth rfl hs ⟨2, 5, 0⟩
  have hevaluates := hgradient 2 .z rfl _ 1 hpartial ((Func.callEvaluates_iff hcount).2 hcall)
  exact ⟨plain, s, ids, _, built_growth, rfl, hs, hpartial,
    (Func.callEvaluates_iff hcount).2 hcall, hvalue, hevaluates⟩

end Surface

end ZeroSet
