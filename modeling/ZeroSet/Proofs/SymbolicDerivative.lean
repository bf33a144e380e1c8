import ZeroSet.Proofs.ChainRule

/-!
# Symbolic derivatives are derivatives

Where an expression is smooth, its symbolic derivative in a name evaluates to the slope that
evaluating over dual numbers finds.

* `Expr.distinctParams` — no user function has two parameters of the same name.
* `Expr.Smooth` — logarithms, roots and powers are taken of positive numbers.
* `Expr.Smooth.exists_gradient` — a smooth expression with a value has a gradient.
* `Expr.derivative_eq_dual` — the symbolic derivative against dual numbers.
-/

namespace ZeroSet

open TrivSqZeroExt

/-! ## Distinct parameters -/

section

variable {K : Type}

mutual

/-- Whether the parameters of every user function in an expression are distinct. -/
def Expr.distinctParams : Expr K → Bool
  | .num _ => true
  | .var _ => true
  | .vec items => Expr.distinctParamsList items
  | .interval lo hi => lo.distinctParams && hi.distinctParams
  | .neg a => a.distinctParams
  | .binary _ a b => a.distinctParams && b.distinctParams
  | .power a b => a.distinctParams && b.distinctParams
  | .apply f args => f.distinctParams && Expr.distinctParamsList args

/-- Whether the parameters of every user function in a list of expressions are distinct. -/
def Expr.distinctParamsList : List (Expr K) → Bool
  | [] => true
  | e :: es => e.distinctParams && Expr.distinctParamsList es

/-- Whether the parameters of a function and of those it applies are distinct. -/
def Func.distinctParams : Func K → Bool
  | .custom _ params body => decide params.Nodup && body.distinctParams
  | .comp inner outer => inner.distinctParams && outer.distinctParams
  | .builtin _ => true

end

theorem Expr.distinctParamsList_iff {es : List (Expr K)} :
    Expr.distinctParamsList es = true ↔ ∀ e ∈ es, e.distinctParams = true := by
  induction es with
  | nil => simp [distinctParamsList]
  | cons e es ih => simp [distinctParamsList, ih]

theorem hereditary_distinctParams :
    Hereditary (fun e : Expr K => e.distinctParams = true) fun f => f.distinctParams = true where
  apply hf hargs := by
    simp only [Expr.distinctParams, Bool.and_eq_true, Expr.distinctParamsList_iff]
    exact ⟨hf, hargs⟩
  comp := by simp only [Func.distinctParams, Bool.and_eq_true, implies_true]
  item hitem h := by
    simp only [Func.distinctParams, Expr.distinctParams, Bool.and_eq_true,
      Expr.distinctParamsList_iff] at h ⊢
    exact ⟨h.1, h.2 _ hitem⟩

end

variable {K : Type} [ElementaryScalar K]

namespace Expr

/-! ## Smooth points -/

/-- In an environment every argument of a logarithm or a root is positive, and so is every base
of a power, unless the exponent is a natural number from one on that stands there as a literal.
Divisors need no condition, since a quotient by zero has no value. -/
inductive Smooth (depth : Nat) : Env K → Expr K → Prop
  /-- A literal. -/
  | num {env : Env K} {v : K} : Smooth depth env (.num v)
  /-- A variable. -/
  | var {env : Env K} {name : String} : Smooth depth env (.var name)
  /-- A negation. -/
  | neg {env : Env K} {a : Expr K} (ha : Smooth depth env a) : Smooth depth env (.neg a)
  /-- A sum, difference, product or quotient. -/
  | binary {env : Env K} {op : BinOp} {a b : Expr K} (ha : Smooth depth env a)
    (hb : Smooth depth env b) : Smooth depth env (.binary op a b)
  /-- A literal natural power of any number. -/
  | naturalPower {env : Env K} {a : Expr K} {n : ℕ} (hn : 1 ≤ n) (ha : Smooth depth env a) :
    Smooth depth env (.power a (.num n))
  /-- Any power of a positive number. -/
  | power {env : Env K} {a b : Expr K} {x : K} (hx : a.Yields depth env x) (hpos : 0 < x)
    (ha : Smooth depth env a) (hb : Smooth depth env b) : Smooth depth env (.power a b)
  /-- An exponential of any number. -/
  | exp {env : Env K} {a : Expr K} (ha : Smooth depth env a) :
    Smooth depth env (.apply (.builtin .exp) [a])
  /-- Any built-in of a positive number. -/
  | builtin {env : Env K} {f : Builtin K} {a : Expr K} {x : K} (hx : a.Yields depth env x)
    (hpos : 0 < x) (ha : Smooth depth env a) : Smooth depth env (.apply (.builtin f) [a])
  /-- A user function, whose body is smooth where the parameters stand for the arguments. -/
  | custom {env : Env K} {name : String} {params : List String} {body : Expr K}
    {args : List (Expr K)} {xs : List K} (hxs : List.Forall₂ (Yields depth env) args xs)
    (hargs : ∀ a ∈ args, Smooth depth env a)
    (hbody : Smooth depth (env.enter (params.zip (xs.map .num))) body) :
    Smooth depth env (.apply (.custom name params body) args)
  /-- A composition, whose expansion is smooth. -/
  | comp {env : Env K} {inner outer : Func K} {args : List (Expr K)} {expanded : Expr K}
    (hexpanded : (Func.comp inner outer).expand args = .ok expanded)
    (h : Smooth depth env expanded) : Smooth depth env (.apply (.comp inner outer) args)

variable {depth : Nat} {env : Env K}

/-- The values and gradients of a list of arguments. -/
theorem exists_jets {args : List (Expr K)} {xs : List K}
    (hxs : List.Forall₂ (Yields depth env) args xs)
    (hargs : ∀ a ∈ args, ∀ x, a.Yields depth env x → ∃ A, Gradient depth env a x A) :
    ∃ jets : List (K × ((String → K) →ₗ[K] K)),
      List.Forall₂ (fun a j => Gradient depth env a j.1 j.2) args jets ∧
        jets.map Prod.fst = xs := by
  induction hxs with
  | nil => exact ⟨[], .nil, rfl⟩
  | @cons a x _ _ ha _ ih =>
    obtain ⟨A, hA⟩ := hargs a (List.mem_cons_self ..) x ha
    obtain ⟨jets, hjets, rfl⟩ := ih fun b hb => hargs b (List.mem_cons_of_mem _ hb)
    exact ⟨(x, A) :: jets, .cons hA hjets, rfl⟩

/-- A smooth expression over numbers that has a value has a gradient. -/
theorem Smooth.exists_gradient {e : Expr K} (hsmooth : Smooth depth env e) {v : K}
    (hdistinct : e.distinctParams = true)
    (hnumbers : ∀ name ∈ e.freeNames, ∃ x, env.bindings.get? name = some (.num x))
    (h : e.Yields depth env v) : ∃ A, Gradient depth env e v A := by
  -- smoothness follows the evaluation, so each body comes with the environment it is read in
  induction hsmooth generalizing v with
  | num =>
    cases h.unique (yields_num _)
    exact ⟨0, .num _⟩
  | @var _ name => exact ⟨_, .var h (hnumbers name (List.mem_singleton_self name))⟩
  | neg _ ih =>
    obtain ⟨x, hx, rfl⟩ := h.exists_neg
    obtain ⟨A, hA⟩ := ih hdistinct hnumbers hx
    exact ⟨_, hA.neg⟩
  | binary _ _ iha ihb =>
    simp only [distinctParams, Bool.and_eq_true] at hdistinct
    obtain ⟨hna, hnb⟩ := List.forall_mem_append.1 hnumbers
    obtain ⟨x, y, hx, hy, hz⟩ := h.exists_binary
    obtain ⟨A, hA⟩ := iha hdistinct.1 hna hx
    obtain ⟨B, hB⟩ := ihb hdistinct.2 hnb hy
    exact ⟨_, hA.binary hB hz⟩
  | naturalPower _ _ ih =>
    simp only [distinctParams, Bool.and_true] at hdistinct
    simp only [freeNames, List.append_nil] at hnumbers
    obtain ⟨x, y, hx, hy, rfl⟩ := h.exists_power
    cases hy.unique (yields_num _)
    obtain ⟨A, hA⟩ := ih hdistinct hnumbers hx
    refine ⟨_, hA.power (.num _) fun name hname => ?_⟩
    cases hname
  | power hx hpos _ _ iha ihb =>
    simp only [distinctParams, Bool.and_eq_true] at hdistinct
    obtain ⟨hna, hnb⟩ := List.forall_mem_append.1 hnumbers
    obtain ⟨x', y, hx', hy, rfl⟩ := h.exists_power
    cases hx'.unique hx
    obtain ⟨A, hA⟩ := iha hdistinct.1 hna hx
    obtain ⟨B, hB⟩ := ihb hdistinct.2 hnb hy
    exact ⟨_, hA.power hB fun _ _ => hpos⟩
  | exp _ ih =>
    simp only [distinctParams, Func.distinctParams, distinctParamsList, Bool.true_and,
      Bool.and_true] at hdistinct
    simp only [mem_freeNames_apply] at hnumbers
    obtain ⟨hcheck, x, hx, rfl⟩ := h.exists_builtin
    obtain ⟨A, hA⟩ := ih hdistinct
      (fun n hn => hnumbers n (.inr ⟨_, List.mem_singleton_self _, hn⟩)) hx
    exact ⟨_, .builtin hcheck hA (.inl rfl)⟩
  | builtin hx hpos _ ih =>
    simp only [distinctParams, Func.distinctParams, distinctParamsList, Bool.true_and,
      Bool.and_true] at hdistinct
    simp only [mem_freeNames_apply] at hnumbers
    obtain ⟨hcheck, x', hx', rfl⟩ := h.exists_builtin
    cases hx'.unique hx
    obtain ⟨A, hA⟩ := ih hdistinct
      (fun n hn => hnumbers n (.inr ⟨_, List.mem_singleton_self _, hn⟩)) hx
    exact ⟨_, .builtin hcheck hA (.inr hpos)⟩
  | @custom env name params body args xs hxs _ _ ihargs ihbody =>
    simp only [distinctParams, Func.distinctParams, Bool.and_eq_true, decide_eq_true_eq,
      distinctParamsList_iff] at hdistinct
    simp only [mem_freeNames_apply, Func.mem_freeNames_custom] at hnumbers
    obtain ⟨hlength, xs', hxs', hbody⟩ := h.exists_custom
    have hunique : Relator.RightUnique (Yields depth env) := fun _ _ _ hx hy => hx.unique hy
    cases List.right_unique_forall₂' hunique hxs' hxs
    obtain ⟨jets, hjets, rfl⟩ := exists_jets hxs fun a ha x hx =>
      ihargs a ha (hdistinct.2 a ha) (fun n hn => hnumbers n (.inr ⟨a, ha, hn⟩)) hx
    have hinside : ∀ n ∈ body.freeNames, ∃ x,
        (env.enter (params.zip ((jets.map Prod.fst).map .num))).bindings.get? n =
          some (Expr.num x) := by
      intro n hn
      by_cases hparam : n ∈ params
      · obtain ⟨x, hx⟩ := Env.get?_enter_of_mem (hxs.length_eq.symm.trans hlength) hparam
        exact ⟨x, hx env⟩
      · rw [Env.get?_enter_of_notMem hparam]
        exact hnumbers n (.inl ⟨hn, hparam⟩)
    obtain ⟨B, hB⟩ := ihbody hdistinct.1.2 hinside hbody
    rw [List.map_map, List.zip_map_right] at hB
    exact ⟨_, .custom hjets hlength hdistinct.1.1 hB⟩
  | comp hexpanded _ ih =>
    simp only [distinctParams, Bool.and_eq_true, distinctParamsList_iff] at hdistinct
    simp only [mem_freeNames_apply] at hnumbers
    obtain ⟨A, hA⟩ := ih (hereditary_distinctParams.expand hexpanded hdistinct.1 hdistinct.2)
      ((hereditary_freeNames fun n => ∃ x, _ = some (Expr.num x)).expand hexpanded
        (fun n hn => hnumbers n (.inl hn)) fun a ha n hn => hnumbers n (.inr ⟨a, ha, hn⟩))
      (h.expanded hexpanded)
    exact ⟨A, .comp hexpanded hA⟩

end Expr

/-! ## Against dual numbers -/

section

variable {K L : Type}

/-- Bindings with each expression replaced by one that may depend on the name. -/
def Bindings.map (f : String → Expr K → Expr L) (b : Bindings K) : Bindings L where
  entries := b.entries.map fun p => (p.1, f p.1 p.2)
  distinct := by
    rw [List.map_map]
    exact b.distinct

theorem Bindings.get?_map (f : String → Expr K → Expr L) (b : Bindings K) (name : String) :
    (b.map f).get? name = (b.get? name).map (f name) := by
  show ((b.entries.map fun p => (p.1, f p.1 p.2)).find? (·.1 = name)).map Prod.snd =
    ((b.entries.find? (·.1 = name)).map Prod.snd).map (f name)
  induction b.entries with
  | nil => rfl
  | cons entry entries ih =>
    by_cases h : entry.1 = name
    · simp [h]
    · rw [List.map_cons, List.find?_cons_of_neg (by simpa using h),
        List.find?_cons_of_neg (by simpa using h)]
      exact ih

end

/-- What a binding is over dual numbers: the number that the given name is bound to has slope one,
and no other literal has a slope. -/
noncomputable def Expr.dual (name bound : String) : Expr K → Expr (DualNumber K)
  | .num v => .num (if bound = name then inl v + DualNumber.eps else inl v)
  | e => e.map inl

/-- The environment over dual numbers in which one name moves with slope one and no other does. -/
noncomputable def Env.dual (name : String) (env : Env K) : Env (DualNumber K) :=
  ⟨env.bindings.map (Expr.dual name), env.resolving⟩

theorem Env.moving_dual (name : String) (env : Env K) :
    env.Moving (Pi.single name 1) (env.dual name) where
  resolving := rfl
  bindings m v hget := by
    refine (Bindings.get?_map (Expr.dual name) env.bindings m).trans ?_
    rw [hget]
    by_cases hm : m = name
    · subst hm
      rw [Option.map_some, Expr.dual, if_pos rfl, Pi.single_eq_same]
      rfl
    · rw [Option.map_some, Expr.dual, if_neg hm, Pi.single_eq_of_ne hm, inl_eq_jet]

namespace Expr

/-- At a point where an expression is smooth and has a value, its derivative in a name exists and
evaluates to the dual part of the value that the expression has over dual numbers, when the name
stands for its number plus `ε` and all other names are constant. -/
theorem derivative_eq_dual {e : Expr K} {env : Env K} {v : K} (name : String)
    (hdistinct : e.distinctParams = true)
    (hnumbers : ∀ n ∈ e.freeNames, ∃ x, env.bindings.get? n = some (.num x))
    (hsmooth : Smooth (env.bindings.size + 1) env e) (h : e.evaluateReal.value env = .ok v) :
    ∃ de d, e.derivative name = .ok de ∧ de.evaluateReal.value env = .ok d ∧
      (e.map inl).evaluateReal.value (env.dual name) = .ok (inl v + d • DualNumber.eps) := by
  obtain ⟨A, hA⟩ := hsmooth.exists_gradient hdistinct hnumbers (evaluateReal_eq_ok.1 h)
  obtain ⟨de, hde, hyields⟩ := hA.exists_derivative name
  have hdual := hA.moving (env.moving_dual name) (env.dual name).bindings.size
  refine ⟨de, _, hde, evaluateReal_eq_ok.2 hyields, ?_⟩
  rw [← DualNumber.inr_eq_smul_eps]
  exact evaluateReal_eq_ok.2 hdual

/-- The derivative of `x * ln x`, written as a function of one factor that mentions the other. -/
theorem derivative_eq_dual_mul_ln :
    ∃ de d, ((apply (.custom "f" ["u"] (var "u" * ln (var "x"))) [var "x"]).derivative "x" :
          Except (EvalError ℝ) (Expr ℝ)) = .ok de ∧
      de.evaluateReal.value (.ofList [("x", num 3)]) = .ok d ∧
      ((apply (.custom "f" ["u"] (var "u" * ln (var "x"))) [var "x"] : Expr ℝ).map
          inl).evaluateReal.value (Env.dual "x" (.ofList [("x", num 3)])) =
        .ok (inl (3 * Scalar.ln 3) + d • DualNumber.eps) := by
  have hx : (var "x").Yields 2 (.ofList [("x", num (3 : ℝ))]) 3 :=
    yields_var List.not_mem_nil rfl
  have hxs : List.Forall₂ (Yields 2 (.ofList [("x", num (3 : ℝ))])) [var "x"] [3] := .cons hx .nil
  have hu : (var "u").Yields 2 ((Env.ofList [("x", num (3 : ℝ))]).enter [("u", num 3)]) 3 :=
    yields_var List.not_mem_nil rfl
  have hinner : (var "x").Yields 2 ((Env.ofList [("x", num (3 : ℝ))]).enter [("u", num 3)]) 3 :=
    yields_var List.not_mem_nil rfl
  refine derivative_eq_dual "x" rfl (fun n hn => ?_) ?_ ?_
  · have hmem : n ∈ ["x", "x"] := hn
    obtain rfl : n = "x" := by simpa using hmem
    exact ⟨3, rfl⟩
  · exact .custom hxs (fun a ha => List.mem_singleton.1 ha ▸ .var)
      (.binary .var (.builtin hinner (by norm_num) .var))
  · exact evaluateReal_eq_ok.2 (yields_custom hxs rfl (hu.mul hinner.ln))

end Expr

end ZeroSet
