import ZeroSet.Proofs.Nodewise
import ZeroSet.Proofs.Rewriting
import ZeroSet.Proofs.Termination
import ZeroSet.Func.Calculus
import ZeroSet.Scalar.Binary64

/-!
# The shape of functions that are made of a function

Partial derivatives, user functions made of compositions, simplified functions and components have
the parameters of the function they are made of.  The number of components is read off the root of a
body, and there what is made of a body may look different from the body: the derivative of a vector
that does not mention the variable is a single zero, the body of a composition is an application,
and simplifying may drop everything but a vector literal.

* `Expr.items?_of_derivative` — the derivative of anything but a vector literal is none.
* `Expr.vectorFree` — no vector literal occurs in an expression.
* `Func.dim_partialDerivative`, `Func.dim_toCustom`, `Func.dim_simplified` — where the number of
  components stays the same.
* `Func.shape_of_derived` — all of this together.
-/

namespace ZeroSet

variable {K : Type}

/-! ## Derivatives of bodies -/

namespace Expr

/-- An expansion is an application. -/
theorem items?_of_expand [Scalar K] : ∀ {f : Func K} {args : List (Expr K)} {e : Expr K},
    f.expand args = .ok e → e.items? = none
  | .custom _ _ _, _, _, h => by
    rw [Func.eq_apply_of_apply h]
    rfl
  | .builtin _, _, _, h => by
    rw [Func.eq_apply_of_apply h]
    rfl
  | .comp _ outer, _, _, h => by
    obtain ⟨_, -, h⟩ := bind_eq_ok.1 h
    exact items?_of_expand (f := outer) h

variable {a d e : Expr K} {name : String}

theorem items?_foldl {ts : List (Expr K)} (ha : a.items? = none) :
    (ts.foldl (· + ·) a).items? = none := by
  induction ts generalizing a with
  | nil => exact ha
  | cons t ts ih => exact ih rfl

/-- Every term of the chain rule is a product. -/
theorem items?_of_mem_chainTermsStep {recur : String → Expr K → Except (EvalError K) (Expr K)}
    {withBody : Expr K → Expr K} {body : Expr K} {params : List String} {args ts : List (Expr K)}
    (h : chainTermsStep recur name withBody body params args = .ok ts) :
    ∀ t ∈ ts, t.items? = none := by
  induction params generalizing args ts with
  | nil =>
    rw [chainTermsStep.eq_def] at h
    cases h
    simp
  | cons param params ih =>
    cases args with
    | nil =>
      rw [chainTermsStep.eq_def] at h
      cases h
      simp
    | cons arg args =>
      rw [chainTermsStep] at h
      split at h
      · exact ih h
      · obtain ⟨outer, -, h⟩ := bind_eq_ok.1 h
        obtain ⟨inner, -, h⟩ := bind_eq_ok.1 h
        obtain ⟨terms, hterms, h⟩ := bind_eq_ok.1 h
        cases h
        exact List.forall_mem_cons.2 ⟨rfl, ih hterms⟩

variable [Scalar K]

theorem items?_sum {ts : List (Expr K)} (hts : ∀ t ∈ ts, t.items? = none) :
    (Expr.sum ts).items? = none := by
  cases ts with
  | nil => rfl
  | cons t ts => exact items?_foldl (List.forall_mem_cons.1 hts).1

/-- One level of a differentiation makes a vector literal of a vector literal only. -/
theorem items?_of_derivativeStep {recur : String → Expr K → Except (EvalError K) (Expr K)}
    (he : e.items? = none) (h : derivativeStep recur name e = .ok d)
    (hexpanded : ∀ inner outer args expanded, e = .apply (.comp inner outer) args →
      (Func.comp inner outer).expand args = .ok expanded → recur name expanded = .ok d →
        d.items? = none) : d.items? = none := by
  rw [derivativeStep.eq_def] at h
  split at h
  · cases h
    rfl
  cases e with
  | num v =>
    cases h
    rfl
  | var other =>
    cases h
    rfl
  | vec items => cases he
  | interval lo hi =>
    obtain ⟨dlo, -, h⟩ := bind_eq_ok.1 h
    obtain ⟨dhi, -, h⟩ := bind_eq_ok.1 h
    cases h
    rfl
  | neg a =>
    obtain ⟨da, -, h⟩ := bind_eq_ok.1 h
    cases h
    rfl
  | binary op a b =>
    obtain ⟨da, -, h⟩ := bind_eq_ok.1 h
    obtain ⟨db, -, h⟩ := bind_eq_ok.1 h
    cases h
    cases op <;> rfl
  | power a b =>
    dsimp only at h
    split at h
    · obtain ⟨db, -, h⟩ := bind_eq_ok.1 h
      obtain ⟨da, -, h⟩ := bind_eq_ok.1 h
      cases h
      rfl
    · obtain ⟨da, -, h⟩ := bind_eq_ok.1 h
      cases h
      rfl
  | apply f args =>
    cases f with
    | builtin b =>
      obtain ⟨_, -, h⟩ := bind_eq_ok.1 h
      rcases args with _ | ⟨u, _ | ⟨_, _⟩⟩
      · cases h
      · obtain ⟨du, -, h⟩ := bind_eq_ok.1 h
        cases h
        rfl
      · cases h
    | custom f params body =>
      obtain ⟨chained, hchained, h⟩ := bind_eq_ok.1 h
      have hterms := items?_of_mem_chainTermsStep hchained
      split at h
      · obtain ⟨inner, -, h⟩ := bind_eq_ok.1 h
        cases h
        refine items?_sum fun t ht => ?_
        rcases List.mem_append.1 ht with ht | ht
        · exact hterms t ht
        · rw [List.mem_singleton.1 ht]
          rfl
      · cases h
        exact items?_sum hterms
    | comp inner outer =>
      obtain ⟨expanded, hexpand, h⟩ := bind_eq_ok.1 h
      exact hexpanded inner outer args expanded rfl hexpand h

/-- The derivative of anything but a vector literal is no vector literal. -/
theorem items?_of_derivative (he : e.items? = none) (h : e.derivative name = .ok d) :
    d.items? = none := by
  induction hn : e.weight using Nat.strongRecOn generalizing e with
  | ind n ih =>
    subst hn
    rw [derivative_eq_derivativeStep] at h
    refine items?_of_derivativeStep he h ?_
    rintro inner outer args expanded rfl hexpand hd
    exact ih _ (Func.weight_expand_lt hexpand) (items?_of_expand hexpand) hd rfl

/-- The derivative of a vector that mentions the variable has as many elements. -/
theorem length_items_of_derivative {items : List (Expr K)}
    (hname : (vec items).dependsOn name = true) (h : (vec items).derivative name = .ok d) :
    ∃ items', d = .vec items' ∧ items'.length = items.length := by
  rw [derivative_eq_derivativeStep, derivativeStep, hname, if_neg (by decide)] at h
  obtain ⟨items', hitems', h⟩ := bind_eq_ok.1 h
  cases h
  exact ⟨items', rfl, (mapM_eq_ok.1 hitems').length_eq.symm⟩

end Expr

/-! ## Vector literals in trees -/

mutual

/-- Whether no vector literal occurs in an expression, bodies of applied functions left out. -/
def Expr.vectorFree : Expr K → Bool
  | .num _ => true
  | .var _ => true
  | .vec _ => false
  | .interval lo hi => lo.vectorFree && hi.vectorFree
  | .neg a => a.vectorFree
  | .binary _ a b => a.vectorFree && b.vectorFree
  | .power a b => a.vectorFree && b.vectorFree
  | .apply _ args => Expr.vectorFreeList args

/-- Whether no vector literal occurs in a list of expressions. -/
def Expr.vectorFreeList : List (Expr K) → Bool
  | [] => true
  | e :: es => e.vectorFree && Expr.vectorFreeList es

end

theorem Expr.vectorFreeList_iff {es : List (Expr K)} :
    Expr.vectorFreeList es = true ↔ ∀ e ∈ es, e.vectorFree = true := by
  induction es with
  | nil => simp [vectorFreeList]
  | cons e es ih => simp [vectorFreeList, ih]

theorem Expr.items?_of_vectorFree {e : Expr K} (h : e.vectorFree = true) : e.items? = none := by
  cases e with
  | vec items => cases h
  | _ => rfl

theorem nodewise_vectorFree :
    Nodewise (fun e : Expr K => e.vectorFree = true) fun _ => True where
  num _ := rfl
  vec _ h := by cases h
  interval := Bool.and_eq_true_iff
  neg := Iff.rfl
  binary := Bool.and_eq_true_iff
  power := Bool.and_eq_true_iff
  apply := by
    intro f args
    rw [Expr.vectorFree, Expr.vectorFreeList_iff, true_and]

/-! ## Functions made of a function -/

namespace Func

variable {f g : Func K} {index : Nat}

/-- Whether the function is a user function. -/
def isCustom : Func K → Bool
  | .custom _ _ _ => true
  | _ => false

/-- Whether the function is a user function whose body mentions the parameter. -/
def variesIn : Func K → Nat → Bool
  | .custom _ params body, index => params[index]?.any body.dependsOn
  | _, _ => false

/-- Whether the function is a user function whose body holds no vector literal. -/
def isScalar : Func K → Bool
  | .custom _ _ body => body.vectorFree
  | _ => false

/-- What the components of a user function, or of the last one in a composition, return. -/
def elements : Func K → List (Expr K)
  | .custom _ _ body => body.items?.getD [body]
  | .comp _ outer => outer.elements
  | .builtin _ => []

theorem dim_custom {name : String} {params : List String} {body : Expr K}
    (h : body.items? = none) : (custom name params body).dim = 1 := by
  rw [dim, h]
  rfl

/-- A component that is no vector literal itself has a single component. -/
theorem dim_component (hf : ∀ e ∈ f.elements, e.items? = none) (h : f.component index = .ok g) :
    g.dim = 1 := by
  induction f using componentInduction generalizing g with
  | custom name params body =>
    rw [component] at h
    rw [elements] at hf
    cases hitems : body.items? with
    | some items =>
      rw [hitems] at h hf
      dsimp only at h
      split at h
      · rename_i item hitem
        cases h
        exact dim_custom (hf item (List.mem_of_getElem? hitem))
      · cases h
    | none =>
      rw [hitems] at h
      dsimp only at h
      split at h
      · cases h
        exact dim_custom hitems
      · cases h
  | builtin b =>
    rw [eq_of_component_builtin h]
    rfl
  | comp inner outer _ ih =>
    obtain ⟨g', hg', rfl⟩ := exists_of_component_comp h
    show g'.dim = 1
    exact ih hf hg'

variable [Scalar K]

/-- Only user functions have a vector literal for a body. -/
theorem items?_of_body {body : Expr K} (hf : f.isCustom = false) (h : f.body = .ok body) :
    body.items? = none := by
  cases f with
  | custom _ _ _ => cases hf
  | comp _ _ => exact Expr.items?_of_expand h
  | builtin _ => exact Expr.items?_of_expand h

theorem params_simplified (h : f.simplified = .ok g) : g.params = f.params := by
  cases f with
  | custom name params body =>
    obtain ⟨body', -, h⟩ := bind_eq_ok.1 h
    cases h
    rfl
  | _ =>
    cases h
    rfl

/-- A vector literal keeps its length, and what is no vector literal afterwards was none before. -/
theorem dim_simplified (h : f.simplified = .ok g) (hf : f.isVector = true ∨ g.isVector = false) :
    g.dim = f.dim := by
  cases f with
  | custom name params body =>
    obtain ⟨body', hbody', h⟩ := bind_eq_ok.1 h
    cases h
    cases body with
    | vec items =>
      rw [Expr.simplify, Expr.simplifyList_eq_mapM] at hbody'
      obtain ⟨items', hitems', hbody'⟩ := bind_eq_ok.1 hbody'
      cases hbody'
      exact (mapM_eq_ok.1 hitems').length_eq.symm
    | _ =>
      have hvector := hf.resolve_left Bool.false_ne_true
      exact (dim_of_isVector_eq_false hvector).trans (dim_of_isVector_eq_false rfl).symm
  | comp inner outer =>
    cases h
    rfl
  | builtin b =>
    cases h
    rfl

/-- Simplifying uncovers no vector literal in a body that holds none. -/
theorem isVector_simplified (h : f.simplified = .ok g) (hf : f.isScalar = true) :
    g.isVector = false := by
  cases f with
  | custom name params body =>
    obtain ⟨body', hbody', h⟩ := bind_eq_ok.1 h
    cases h
    have hitems := Expr.items?_of_vectorFree (nodewise_vectorFree.simplify hf hbody')
    rw [isVector, hitems]
    rfl
  | _ => cases hf

variable [Decimal K]

theorem params_partialDerivative (h : f.partialDerivative index = .ok g) :
    g.params = f.params := by
  rw [partialDerivative] at h
  split at h
  · cases h
  · obtain ⟨d, -, h⟩ := bind_eq_ok.1 h
    cases h
    rfl

theorem params_toCustom (h : f.toCustom = .ok g) : g.params = f.params := by
  obtain ⟨body, -, h⟩ := bind_eq_ok.1 h
  cases h
  rfl

/-- A partial derivative has as many components, if there is only one or if the vector literal
mentions the parameter. -/
theorem dim_partialDerivative (h : f.partialDerivative index = .ok g)
    (hf : f.dim = 1 ∨ f.variesIn index = true) : g.dim = f.dim := by
  rw [partialDerivative] at h
  split at h
  · cases h
  · rename_i param hparam
    obtain ⟨d, hd, h⟩ := bind_eq_ok.1 h
    cases h
    cases f with
    | builtin b =>
      cases hd
      refine dim_custom ?_
      cases b <;> rfl
    | comp inner outer =>
      obtain ⟨body, hbody, hd⟩ := bind_eq_ok.1 hd
      rw [hf.resolve_right Bool.false_ne_true]
      exact dim_custom (Expr.items?_of_derivative (items?_of_body rfl hbody) hd)
    | custom name params body =>
      have hd : body.derivative param = .ok d := hd
      cases body with
      | vec items =>
        cases hname : (Expr.vec items).dependsOn param with
        | true =>
          obtain ⟨items', rfl, hlength⟩ := Expr.length_items_of_derivative hname hd
          exact hlength
        | false =>
          -- the derivative is zero, so there has to be only one component
          have hfixed : (custom name params (.vec items)).variesIn index = false := by
            rw [variesIn, show params[index]? = some param from hparam]
            exact hname
          rw [hfixed] at hf
          rw [Expr.derivative.eq_def, hname, if_pos (by decide)] at hd
          cases hd
          exact (hf.resolve_right Bool.false_ne_true).symm
      | _ => exact dim_custom (Expr.items?_of_derivative rfl hd)

theorem dim_toCustom (h : f.toCustom = .ok g) (hf : f.dim = 1 ∨ f.isCustom = true) :
    g.dim = f.dim := by
  obtain ⟨body, hbody, h⟩ := bind_eq_ok.1 h
  cases h
  cases hcustom : f.isCustom with
  | true =>
    cases f with
    | custom name params body' =>
      cases hbody
      rfl
    | _ => cases hcustom
  | false =>
    rw [hcustom] at hf
    rw [dim_custom (items?_of_body hcustom hbody), hf.resolve_right Bool.false_ne_true]

/-- What is made of a function has its parameters.  It has as many components, if the function has
only one or is a user function of the kind that keeps its vector literal. -/
theorem shape_of_derived (f : Func K) :
    (∀ index g, f.partialDerivative index = .ok g → g.params = f.params ∧ g.arity = f.arity ∧
      (f.dim = 1 ∨ f.variesIn index = true → g.dim = f.dim)) ∧
    (∀ g, f.toCustom = .ok g → g.params = f.params ∧ g.arity = f.arity ∧
      (f.dim = 1 ∨ f.isCustom = true → g.dim = f.dim)) ∧
    (∀ g, f.simplified = .ok g → g.params = f.params ∧ g.arity = f.arity ∧
      (f.isVector = true ∨ f.isScalar = true ∨ g.isVector = false → g.dim = f.dim)) ∧
    ∀ index, index < f.dim → ∃ g, f.component index = .ok g ∧ g.params = f.params ∧
      g.arity = f.arity ∧ ((∀ e ∈ f.elements, e.items? = none) → g.dim = 1) := by
  refine ⟨fun index g h => ?_, fun g h => ?_, fun g h => ?_, fun index hindex => ?_⟩
  · have hparams := params_partialDerivative h
    exact ⟨hparams, congrArg List.length hparams, dim_partialDerivative h⟩
  · have hparams := params_toCustom h
    exact ⟨hparams, congrArg List.length hparams, dim_toCustom h⟩
  · have hparams := params_simplified h
    refine ⟨hparams, congrArg List.length hparams, fun hf => dim_simplified h ?_⟩
    exact hf.imp_right fun hf => hf.elim (isVector_simplified h) id
  · obtain ⟨g, hg⟩ := f.exists_component hindex
    have hparams := params_component hg
    exact ⟨g, hg, hparams, congrArg List.length hparams, fun hf => dim_component hf hg⟩

/-- A pair that mentions only one of two parameters. -/
def lopsided : Func Float :=
  .custom "f" ["x", "y"] (.vec [.var "y", .binary .add (.num 2) (.var "y")])

theorem partialDerivative_lopsided :
    lopsided.partialDerivative 1 =
      .ok (.custom "∂f/∂y" ["x", "y"] (.vec [.num 1, .num 0 + .num 1])) := by
  have hslopes : Expr.derivative "y" (.vec [.var "y", .binary .add (.num 2) (.var "y")]) =
      .ok (.vec [.num (1 : Float), .num 0 + .num 1]) := by
    simp [Expr.derivative, Expr.derivativeList, Expr.dependsOn, Expr.freeNames,
      Expr.freeNamesList, bind, Except.bind, pure, Except.pure]
  show (Expr.derivative "y" _ >>= fun body => pure (custom _ _ body)) = _
  rw [hslopes]
  rfl

theorem shape_of_derived_lopsided :
    ∃ slope own simple second : Func Float,
      (lopsided.partialDerivative 1 = .ok slope ∧ slope.params = ["x", "y"] ∧ slope.dim = 2) ∧
      (lopsided.toCustom = .ok own ∧ own.params = ["x", "y"] ∧ own.dim = 2) ∧
      (lopsided.simplified = .ok simple ∧ simple.params = ["x", "y"] ∧ simple.dim = 2) ∧
      lopsided.component 1 = .ok second ∧ second.params = ["x", "y"] ∧ second.dim = 1 := by
  obtain ⟨hpartial, hcustom, hsimplified, hcomponent⟩ := shape_of_derived lopsided
  obtain ⟨hslope, -, hslopeDim⟩ := hpartial 1 _ partialDerivative_lopsided
  obtain ⟨hown, -, hownDim⟩ := hcustom lopsided rfl
  obtain ⟨hsimple, -, hsimpleDim⟩ := hsimplified lopsided rfl
  obtain ⟨second, hsecond, hparams, -, hsecondDim⟩ := hcomponent 1 (by decide)
  refine ⟨_, _, _, second, ⟨partialDerivative_lopsided, hslope, hslopeDim (.inr (by decide))⟩,
    ⟨rfl, hown, hownDim (.inr rfl)⟩, ⟨rfl, hsimple, hsimpleDim (.inl rfl)⟩, hsecond, hparams,
    hsecondDim ?_⟩
  simp [lopsided, elements, Expr.items?]

/-- A number and its double, both fed from a composition. -/
def fedPair : Func Float :=
  .comp (.custom "f" ["x"] (.var "x")) (.custom "g" ["u"] (.vec [.var "u", .var "u"]))

/-- Differentiated in a parameter that it does not mention, a pair becomes a single zero.  The body
of a composition is an application, and dropping a zero may uncover a vector. -/
theorem dim_of_derived_differs :
    (lopsided.dim = 2 ∧
      lopsided.partialDerivative 0 = .ok (.custom "∂f/∂x" ["x", "y"] (.num 0)) ∧
      (custom "∂f/∂x" ["x", "y"] (.num (0 : Float))).dim = 1) ∧
    (fedPair.dim = 2 ∧ ∃ own, fedPair.toCustom = .ok own ∧ own.dim = 1) ∧
    ∃ simple : Func Float, (custom "h" ["x"] (.binary .add (.num 0)
      (.vec [.var "x", .var "x"]))).simplified = .ok simple ∧
      (custom "h" ["x"] (.binary .add (.num (0 : Float)) (.vec [.var "x", .var "x"]))).dim = 1 ∧
      simple.dim = 2 := by
  refine ⟨⟨rfl, ?_, rfl⟩, ⟨rfl, _, rfl, rfl⟩, ?_⟩
  · have hzero : Expr.derivative "x" (.vec [.var "y", .binary .add (.num 2) (.var "y")]) =
        .ok (.num (0 : Float)) := by
      rw [Expr.derivative.eq_def]
      rfl
    show (Expr.derivative "x" _ >>= fun body => pure (custom _ _ body)) = _
    rw [hzero]
    rfl
  · refine ⟨custom "h" ["x"] (.vec [.var "x", .var "x"]), ?_, rfl, rfl⟩
    rfl

end Func

end ZeroSet
