import ZeroSet.Proofs.Dependencies
import ZeroSet.Proofs.NameErrors
import ZeroSet.Scalar.Binary64

/-!
# The guard against cycles is exact

While the binding of a name is evaluated, the name may not be reached again.  The names that are
being resolved always lie on a way through the graph of the bindings to the names that the
expression at hand mentions, parameters apart, which stand for literals.  So the guard does not
fire where the graph has no cycle, however often names are reused, and evaluating never gets
around a cycle.

* `Env.OnPath` — an environment inside functions, seen from the bindings outside.
* `Expr.avoids_isCyclic` — without a cycle the guard does not fire.
* `Expr.acc_of_outcome` — a name that an expression with a value mentions leads to no cycle.
* `Expr.cycleGuard_exact` — both directions.
-/

namespace ZeroSet

variable {K : Type}

/-- The error of a binding that leads back to its own name. -/
def EvalError.IsCyclic : EvalError K → Prop
  | .cyclicBinding _ => True
  | _ => False

theorem EvalError.IsCyclic.aboutMeaning {err : EvalError K} (h : err.IsCyclic) :
    err.AboutMeaning := by
  cases err with
  | cyclicBinding name => trivial
  | _ => exact h.elim

/-! ## Without a cycle -/

/-- An environment inside functions, whose parameters are `hidden`, seen from the bindings
outside. -/
structure Env.OnPath (origin : Bindings K) (hidden : List String) (env : Env K) : Prop where
  /-- A parameter stands for a literal. -/
  literal : ∀ n ∈ hidden, ∃ e, env.bindings.get? n = some e ∧ e.isLiteral = true
  /-- A parameter is not being resolved. -/
  fresh : ∀ n ∈ hidden, n ∉ env.resolving
  /-- Any other name is bound as outside. -/
  outside : ∀ n, n ∉ hidden → env.bindings.get? n = origin.get? n

/-- A name that is met inside functions is a parameter, or every name that is being resolved leads
to it. -/
def Env.Meets (origin : Bindings K) (hidden : List String) (env : Env K) (n : String) : Prop :=
  n ∈ hidden ∨ ∀ m ∈ env.resolving, Relation.TransGen origin.Refers m n

namespace Env

variable {origin : Bindings K} {hidden : List String} {env : Env K}

/-- A call hides its parameters. -/
theorem OnPath.enter (h : OnPath origin hidden env) {params : List String}
    {values : List (Value K)} (hlength : values.length = params.length) :
    OnPath origin (params ++ hidden) (env.enter (params.zip (values.map Value.toExpr))) := by
  have hnames : (params.zip (values.map Value.toExpr)).map Prod.fst = params :=
    Env.names_of_zip hlength
  refine ⟨fun n hn => ?_, fun n hn => ?_, fun n hn => ?_⟩
  · by_cases hparam : n ∈ params
    · obtain ⟨e, hmem, hget⟩ := Bindings.get?_putAll_of_mem (hnames.symm ▸ hparam)
      exact ⟨e, hget env.bindings, Env.isLiteral_of_mem_zip hmem⟩
    · rw [get?_enter_of_notMem hparam]
      exact h.literal n ((List.mem_append.1 hn).resolve_left hparam)
  · show n ∉ env.resolving.filter _
    rw [List.mem_filter, hnames, decide_eq_true_eq]
    rintro ⟨hresolving, hparam⟩
    exact h.fresh n ((List.mem_append.1 hn).resolve_left hparam) hresolving
  · rw [List.mem_append, not_or] at hn
    rw [get?_enter_of_notMem hn.1]
    exact h.outside n hn.2

/-- What is met outside a call and what is a parameter is met inside. -/
theorem Meets.enter {n : String} {params : List String} {pairs : List (String × Expr K)}
    (h : n ∈ params ∨ Meets origin hidden env n) :
    Meets origin (params ++ hidden) (env.enter pairs) n := by
  rcases h with hparam | hhidden | hpath
  · exact .inl (List.mem_append_left _ hparam)
  · exact .inl (List.mem_append_right _ hhidden)
  · exact .inr fun m hm => hpath m (List.mem_filter.1 hm).1

/-- Following a name that is bound outside. -/
theorem OnPath.resolve {name : String} (h : OnPath origin hidden env) (hname : name ∉ hidden) :
    OnPath origin hidden { env with resolving := name :: env.resolving } where
  literal := h.literal
  fresh n hn := by
    rw [List.mem_cons, not_or]
    exact ⟨fun hc => hname (hc ▸ hn), h.fresh n hn⟩
  outside := h.outside

/-- The binding of a name leads on from the names that lead to it. -/
theorem Meets.resolve {name n : String}
    (h : ∀ m ∈ env.resolving, Relation.TransGen origin.Refers m name)
    (hedge : origin.Refers name n) :
    Meets origin hidden { env with resolving := name :: env.resolving } n := by
  refine .inr fun m hm => ?_
  rcases List.mem_cons.1 hm with rfl | hm
  · exact .single hedge
  · exact (h m hm).tail hedge

end Env

namespace Expr

variable [Scalar K] {origin : Bindings K} {hidden : List String} {env : Env K} {depth : Nat}

/-- Evaluating a literal looks up nothing. -/
theorem avoids_isCyclic_of_isLiteral {e : Expr K} (h : e.isLiteral = true) (mode : Mode) :
    Avoids EvalError.IsCyclic (e.outcome mode depth env) := by
  have hbad : ∀ err : EvalError K, err.IsCyclic → err.AboutMeaning := fun _ h => h.aboutMeaning
  refine literalInduction
    (P := fun e => ∀ mode, Avoids EvalError.IsCyclic (e.outcome mode depth env)) ?_ ?_ ?_ h mode
  · intro v mode
    exact avoids_num hbad v
  · intro items ih mode
    exact avoids_vec hbad fun e he => ih e he .real
  · intro lo hi hlo hhi mode
    exact avoids_interval hbad (hlo .real) (hhi .real)

/-- Where the bindings outside have no cycle, the guard does not fire. -/
theorem avoids_isCyclic (hacyclic : origin.Acyclic) (e : Expr K) (mode : Mode)
    (hdepth : env.pending.card < depth) (henv : Env.OnPath origin hidden env)
    (he : ∀ n ∈ e.freeNames, Env.Meets origin hidden env n) :
    Avoids EvalError.IsCyclic (e.outcome mode depth env) := by
  induction depth generalizing e mode hidden env with
  | zero => cases hdepth
  | succ depth ih =>
    refine avoids_of_variables (fun _ h => h.aboutMeaning)
      (P := fun S env => env.pending.card ≤ depth ∧
        ∃ hidden, Env.OnPath origin hidden env ∧ ∀ n, S n → Env.Meets origin hidden env n)
      (fun {S env params values} hlength hfit => ?_) (fun {name S env} mode hfit hname => ?_)
      e mode ⟨Nat.le_of_lt_succ hdepth, hidden, henv, he⟩ fun _ hn => hn
    · obtain ⟨hpending, hidden, henv, hmeets⟩ := hfit
      exact ⟨(env.card_pending_enter_le params values).trans hpending, _, henv.enter hlength,
        fun n hn => .enter (hn.imp_right (hmeets n))⟩
    · obtain ⟨hpending, hidden, henv, hmeets⟩ := hfit
      rw [outcome_var]
      by_cases hhidden : name ∈ hidden
      · rw [if_neg (henv.fresh name hhidden)]
        obtain ⟨literal, hget, hliteral⟩ := henv.literal name hhidden
        rw [hget]
        exact avoids_isCyclic_of_isLiteral hliteral mode
      · have hpath := (hmeets name hname).resolve_left hhidden
        have hfree : name ∉ env.resolving := fun hc => hacyclic name (hpath name hc)
        rw [if_neg hfree]
        cases hget : env.bindings.get? name with
        | none => exact .error id
        | some bound =>
          cases hliteral : bound.isLiteral with
          | true => exact avoids_isCyclic_of_isLiteral hliteral mode
          | false =>
            have hlt := Env.card_pending_resolve hfree hget hliteral
            refine ih bound mode (hlt.trans_le hpending) (henv.resolve hhidden) fun n hn => ?_
            have hedge : origin.Refers name n := ⟨bound, henv.outside name hhidden ▸ hget, hn⟩
            exact .resolve hpath hedge

end Expr

/-! ## Through a cycle -/

section

mutual

/-- Whether no function is applied in an expression. -/
def Expr.applicationFree : Expr K → Bool
  | .num _ => true
  | .var _ => true
  | .vec items => Expr.applicationFreeList items
  | .interval lo hi => lo.applicationFree && hi.applicationFree
  | .neg a => a.applicationFree
  | .binary _ a b => a.applicationFree && b.applicationFree
  | .power a b => a.applicationFree && b.applicationFree
  | .apply _ _ => false

/-- Whether no function is applied in the expressions of a list. -/
def Expr.applicationFreeList : List (Expr K) → Bool
  | [] => true
  | e :: es => e.applicationFree && Expr.applicationFreeList es

end

theorem Expr.applicationFreeList_iff {es : List (Expr K)} :
    Expr.applicationFreeList es = true ↔ ∀ e ∈ es, e.applicationFree = true := by
  induction es with
  | nil => simp [applicationFreeList]
  | cons e es ih => simp [applicationFreeList, ih]

end

/-- A name leads to a cycle if it leads to a name that leads back to itself. -/
def Bindings.LeadsToCycle (b : Bindings K) (n : String) : Prop :=
  ∃ m, Relation.ReflTransGen b.Refers n m ∧ Relation.TransGen b.Refers m m

/-- A name from which every way through the bindings comes to an end leads to no cycle. -/
theorem Bindings.not_leadsToCycle_of_acc {b : Bindings K} {n : String}
    (h : Acc (fun n m => b.Refers m n) n) : ¬b.LeadsToCycle n := by
  induction h with
  | intro n _ ih =>
    rintro ⟨m, hpath, hcycle⟩
    rcases Relation.ReflTransGen.cases_head hpath with rfl | ⟨k, hedge, hrest⟩
    · obtain ⟨k, hedge, hback⟩ := Relation.TransGen.head'_iff.1 hcycle
      exact ih k hedge ⟨n, hback, hcycle⟩
    · exact ih k hedge ⟨m, hrest, hcycle⟩

namespace Expr

variable [Scalar K] {env : Env K} {depth : Nat}

/-- If every way from a variable with a value comes to an end, so does every way from the names of
an expression with a value. -/
theorem acc_of_outcome_of_variables
    (hvar : ∀ {name : String} {mode : Mode} {v : Value K},
      (var name).outcome mode depth env = .ok v → Acc (fun n m => env.bindings.Refers m n) name)
    {e : Expr K} {mode : Mode} {v : Value K} (he : e.applicationFree = true)
    (h : e.outcome mode depth env = .ok v) :
    ∀ n ∈ e.freeNames, Acc (fun n m => env.bindings.Refers m n) n := by
  induction e using expansionInduction generalizing mode v with
  | num x => exact fun n hn => absurd hn List.not_mem_nil
  | var name =>
    intro n hn
    cases List.mem_singleton.1 hn
    exact hvar h
  | vec items ih =>
    rw [applicationFree, applicationFreeList_iff] at he
    rw [outcome_vec] at h
    split at h
    · obtain ⟨xs, hxs, -⟩ := bind_eq_ok.1 h
      intro n hn
      obtain ⟨item, hitem, hn⟩ := mem_freeNamesList.1 hn
      obtain ⟨x, -, hx⟩ := exists_of_mem_of_mapM hxs hitem
      obtain ⟨w, hw, -⟩ := bind_eq_ok.1 hx
      exact ih item hitem (he item hitem) hw n hn
    · cases h
  | interval lo hi ihlo ihhi =>
    rw [applicationFree, Bool.and_eq_true] at he
    rw [outcome_interval] at h
    split at h
    · obtain ⟨x, hx, h⟩ := bind_eq_ok.1 h
      obtain ⟨y, hy, -⟩ := bind_eq_ok.1 h
      obtain ⟨u, hu, -⟩ := bind_eq_ok.1 hx
      obtain ⟨w, hw, -⟩ := bind_eq_ok.1 hy
      exact List.forall_mem_append.2 ⟨ihlo he.1 hu, ihhi he.2 hw⟩
    · cases h
  | neg a ih =>
    rw [outcome_neg] at h
    obtain ⟨u, hu, -⟩ := map_eq_ok.1 h
    exact ih he hu
  | binary op a b iha ihb =>
    rw [applicationFree, Bool.and_eq_true] at he
    rw [outcome_binary] at h
    obtain ⟨u, hu, h⟩ := bind_eq_ok.1 h
    obtain ⟨w, hw, -⟩ := bind_eq_ok.1 h
    exact List.forall_mem_append.2 ⟨iha he.1 hu, ihb he.2 hw⟩
  | power a b iha ihb =>
    rw [applicationFree, Bool.and_eq_true] at he
    rw [outcome_power] at h
    split at h
    · obtain ⟨x, hx, h⟩ := bind_eq_ok.1 h
      obtain ⟨y, hy, -⟩ := bind_eq_ok.1 h
      obtain ⟨u, hu, -⟩ := bind_eq_ok.1 hx
      obtain ⟨w, hw, -⟩ := bind_eq_ok.1 hy
      exact List.forall_mem_append.2 ⟨iha he.1 hu, ihb he.2 hw⟩
    · cases h
  | builtin f args _ => cases he
  | custom f params body args _ _ => cases he
  | comp inner outer args _ => cases he

/-- Where no function is applied, every way from a name that an expression with a value mentions
comes to an end. -/
theorem acc_of_outcome {e : Expr K} {mode : Mode} {v : Value K} (he : e.applicationFree = true)
    (hbindings : ∀ n bound, env.bindings.get? n = some bound → bound.applicationFree = true)
    (h : e.outcome mode depth env = .ok v) :
    ∀ n ∈ e.freeNames, Acc (fun n m => env.bindings.Refers m n) n := by
  induction depth generalizing e mode env v with
  | zero =>
    refine acc_of_outcome_of_variables (fun {name mode v} hname => ?_) he h
    obtain ⟨err, herr⟩ := outcome_var_zero name mode env
    cases herr.symm.trans hname
  | succ depth ih =>
    refine acc_of_outcome_of_variables (fun {name mode v} hname => ?_) he h
    rw [outcome_var] at hname
    split at hname
    · cases hname
    · cases hget : env.bindings.get? name with
      | none =>
        rw [hget] at hname
        cases hname
      | some bound =>
        rw [hget] at hname
        have hbelow := @ih { env with resolving := name :: env.resolving } _ _ _
          (hbindings name bound hget) hbindings hname
        refine Acc.intro name fun n hedge => ?_
        obtain ⟨e', hget', hn⟩ := hedge
        cases hget.symm.trans hget'
        exact hbelow n hn

/-! ## Both directions -/

/-- With nothing being resolved at the start, bindings without a cycle never make the guard fire,
whatever functions are called and whatever names their parameters have.  Where no function is
applied, an expression that leads to a cycle has no value. -/
theorem cycleGuard_exact (env : Env K) (hstart : env.resolving = []) (e : Expr K) (mode : Mode) :
    (env.bindings.Acyclic → ∀ name, (e.evaluate mode).value env ≠ .error (.cyclicBinding name)) ∧
      (e.applicationFree = true →
        (∀ n bound, env.bindings.get? n = some bound → bound.applicationFree = true) →
        (∃ n ∈ e.freeNames, env.bindings.LeadsToCycle n) →
        ∀ v, (e.evaluate mode).value env ≠ .ok v) := by
  constructor
  · intro hacyclic name hname
    have henv : Env.OnPath env.bindings [] env :=
      ⟨fun n hn => absurd hn List.not_mem_nil, fun n hn => absurd hn List.not_mem_nil,
        fun n _ => rfl⟩
    have hdepth : env.pending.card < env.bindings.size + 1 := Nat.lt_succ_of_le env.card_pending_le
    have hmeets : ∀ n ∈ e.freeNames, Env.Meets env.bindings [] env n := by
      refine fun n _ => .inr fun m hm => ?_
      rw [hstart] at hm
      cases hm
    exact avoids_isCyclic hacyclic e mode hdepth henv hmeets _ hname trivial
  · rintro he hbindings ⟨n, hn, hcycle⟩ v hv
    exact Bindings.not_leadsToCycle_of_acc (acc_of_outcome he hbindings hv n hn) hcycle

/-- A function may use the name that is being resolved for its parameter.  Two names that stand
for each other have no value. -/
theorem cycleGuard_exact_shadowed :
    (∀ name, ((var "x" : Expr Float).evaluate .real).value
        (.ofList [("x", apply (.custom "f" ["x"] (binary .add (var "x") (var "z"))) [var "z"]),
          ("z", num 3)]) ≠ .error (.cyclicBinding name)) ∧
      ∀ v, ((var "x" : Expr Float).evaluate .interval).value
        (.ofList [("x", neg (var "y")), ("y", binary .mul (num 2) (var "x"))]) ≠ .ok v := by
  constructor
  · refine (cycleGuard_exact _ rfl (var "x") .real).1 ?_
    refine Bindings.acyclic_of_rank (fun n => if n = "x" then 1 else 0) ?_
    rintro m n ⟨e, hget, hn⟩
    simp only [Env.ofList, Bindings.putAll, List.foldl, Bindings.get?_put] at hget
    split_ifs at hget with hz hx
    · cases hget
      cases hn
    · cases hget
      have hfree : n = "z" := by
        simpa [freeNames, freeNamesList, Func.freeNames] using hn
      subst hfree
      rw [hx]
      decide
    · cases hget
  · refine (cycleGuard_exact _ rfl (var "x") .interval).2 rfl ?_
      ⟨"x", List.mem_singleton_self _, ?_⟩
    · intro n bound hget
      simp only [Env.ofList, Bindings.putAll, List.foldl, Bindings.get?_put] at hget
      split_ifs at hget
      · cases hget
        rfl
      · cases hget
        rfl
      · cases hget
    · have hx : Bindings.Refers (Env.ofList [("x", neg (var "y")),
          ("y", binary .mul (num (2 : Float)) (var "x"))]).bindings "x" "y" :=
        ⟨_, rfl, List.mem_singleton_self _⟩
      have hy : Bindings.Refers (Env.ofList [("x", neg (var "y")),
          ("y", binary .mul (num (2 : Float)) (var "x"))]).bindings "y" "x" :=
        ⟨_, rfl, List.mem_singleton_self _⟩
      exact ⟨"x", .refl, .tail (.single hx) hy⟩

end Expr

end ZeroSet
