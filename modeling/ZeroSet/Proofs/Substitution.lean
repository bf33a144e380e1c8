import ZeroSet.Proofs.Rewriting
import ZeroSet.Scalar.Binary64

/-!
# Calling by substitution

A call binds the parameters of a user function to literals for the values of the arguments and
evaluates the body where they are bound.  Writing these literals into the body and evaluating it
outside is the same, whatever the names in the arguments are, which names are being resolved, and
how often inner functions use the names of parameters again.

There is one thing that the literals change.  A composition is fed with the components of its inner
function.  If a parameter is all that the inner function returns, it has one component before, and
as many as the literal has elements afterwards.

* `Expr.substitute` — free occurrences of names replaced by expressions.
* `Expr.feedsNone` — no composition is fed with one of the names as it stands.
* `Env.Substitutes` — inside the call names stand for what is substituted outside of it.
* `Expr.outcome_substitute` — an expression has the same outcome inside and, substituted, outside.
* `Expr.evaluate_eq_substitute` — calls are substitutions.
-/

namespace ZeroSet

variable {K : Type}

/-! ## Substituting -/

/-- What is to be substituted for which names. -/
abbrev Assignment (K : Type) := String → Option (Expr K)

namespace Assignment

/-- Nothing is substituted for names that have another meaning. -/
def hide (σ : Assignment K) (names : List String) : Assignment K := fun n =>
  if n ∈ names then none else σ n

/-- Every parameter is replaced by the literal for the value of its argument. -/
def ofCall (params : List String) (values : List (Value K)) : Assignment K := fun n =>
  (params.zip (values.map Value.toExpr)).lookup n

variable {σ : Assignment K} {names params : List String} {values : List (Value K)} {n : String}
  {e : Expr K}

theorem hide_eq_some : σ.hide names n = some e ↔ n ∉ names ∧ σ n = some e := by
  rw [hide]
  split <;> simp [*]

theorem hide_eq_none : σ.hide names n = none ↔ n ∈ names ∨ σ n = none := by
  rw [hide]
  split <;> simp [*]

theorem mem_of_ofCall (h : ofCall params values n = some e) :
    (n, e) ∈ params.zip (values.map Value.toExpr) := by
  obtain ⟨before, after, heq, -⟩ := List.lookup_eq_some_iff.1 h
  rw [heq]
  exact List.mem_append_right _ (List.mem_cons_self ..)

theorem ofCall_eq_none (hlength : values.length = params.length) :
    ofCall params values n = none ↔ n ∉ params := by
  have hnames := Env.names_of_zip hlength
  rw [ofCall, List.lookup_eq_none_iff]
  constructor
  · intro h hn
    obtain ⟨p, hp, rfl⟩ := List.mem_map.1 (hnames.symm ▸ hn)
    simpa using h p hp
  · intro hn p hp
    have hmem : p.1 ∈ params := hnames ▸ List.mem_map_of_mem hp
    exact bne_iff_ne.2 fun heq => hn (heq ▸ hmem)

end Assignment

mutual

/-- The expression with the free occurrences of names replaced. -/
def Expr.substitute (σ : Assignment K) : Expr K → Expr K
  | .num v => .num v
  | .var name => (σ name).getD (.var name)
  | .vec items => .vec (Expr.substituteList σ items)
  | .interval lo hi => .interval (lo.substitute σ) (hi.substitute σ)
  | .neg a => .neg (a.substitute σ)
  | .binary op a b => .binary op (a.substitute σ) (b.substitute σ)
  | .power a b => .power (a.substitute σ) (b.substitute σ)
  | .apply f args => .apply (f.substitute σ) (Expr.substituteList σ args)

/-- The expressions of a list with the free occurrences of names replaced. -/
def Expr.substituteList (σ : Assignment K) : List (Expr K) → List (Expr K)
  | [] => []
  | e :: es => e.substitute σ :: Expr.substituteList σ es

/-- The function with the names that it takes from outside replaced. -/
def Func.substitute (σ : Assignment K) : Func K → Func K
  | .custom name params body => .custom name params (body.substitute (σ.hide params))
  | .comp inner outer => .comp (inner.substitute σ) (outer.substitute σ)
  | .builtin b => .builtin b

end

theorem Expr.substituteList_eq_map (σ : Assignment K) :
    ∀ es : List (Expr K), Expr.substituteList σ es = es.map (Expr.substitute σ)
  | [] => rfl
  | e :: es => by rw [substituteList, substituteList_eq_map σ es, List.map_cons]

/-- Substituting rewrites expressions along with the functions they apply. -/
def substituting (σ : Assignment K) : Rewriting K where
  onExpr := Expr.substitute σ
  onFunc := Func.substitute σ
  inBody params body := body.substitute (σ.hide params)
  apply f args := by rw [Expr.substitute, Expr.substituteList_eq_map]
  custom _ _ _ := rfl
  comp _ _ := rfl
  builtin _ := rfl
  vec params items := by rw [Expr.substitute, Expr.substituteList_eq_map]

/-! ## Names that are fed on as they stand -/

/-- The name that the function returns as it stands, unless it is one of its parameters. -/
def Func.returned? : Func K → Option String
  | .custom _ params (.var name) => if name ∈ params then none else some name
  | .comp _ outer => outer.returned?
  | _ => none

/-- Inside functions with the parameters `bound`, a composition is not fed with any of the names as
it stands. -/
def Func.feedsNone (names bound : List String) (inner _outer : Func K) : Bool :=
  inner.returned?.all fun name => name ∉ names || name ∈ bound

/-- Whether no composition in an expression is fed with one of the names as it stands. -/
def Expr.feedsNone (names : List String) (e : Expr K) : Bool :=
  e.allCompositions (Func.feedsNone names) []

variable {σ : Assignment K} {names bound : List String}

/-- No vector literal is substituted for a name unless it is one of `names` and none of the
parameters `bound`. -/
def Assignment.VectorsIn (σ : Assignment K) (names bound : List String) : Prop :=
  ∀ n e, σ n = some e → e.items?.isSome = true → n ∈ names ∧ n ∉ bound

theorem Assignment.VectorsIn.hide (h : σ.VectorsIn names bound) (params : List String) :
    (σ.hide params).VectorsIn names (params ++ bound) := by
  intro n e he hvector
  obtain ⟨hparam, he⟩ := hide_eq_some.1 he
  obtain ⟨hname, hbound⟩ := h n e he hvector
  exact ⟨hname, fun hn => (List.mem_append.1 hn).elim hparam hbound⟩

/-- Values other than tuples are not written as vector literals. -/
theorem Value.items?_toExpr_of_mode {v : Value K} (h : v.mode ≠ .vector) :
    v.toExpr.items? = none := by
  cases v with
  | vector t => exact absurd rfl h
  | _ => rfl

/-- Only in vector mode vector literals are substituted for parameters. -/
theorem Assignment.vectorsIn_ofCall {params : List String} {values : List (Value K)} {mode : Mode}
    (hmode : ∀ v ∈ values, v.mode = mode) :
    (ofCall params values).VectorsIn (if mode = .vector then params else []) [] := by
  intro n e he hvector
  obtain ⟨hn, he⟩ := List.of_mem_zip (mem_of_ofCall he)
  obtain ⟨v, hv, rfl⟩ := List.mem_map.1 he
  by_cases hm : mode = .vector
  · rw [if_pos hm]
    exact ⟨hn, List.not_mem_nil⟩
  · rw [Value.items?_toExpr_of_mode (hmode v hv ▸ hm)] at hvector
    cases hvector

/-- A function that returns none of the names as it stands keeps its vector literal. -/
theorem Func.keepsVector_substituting (hσ : σ.VectorsIn names bound) (outer : Func K) :
    ∀ {f : Func K}, f.feedsNone names bound outer = true → (substituting σ).KeepsVector f
  | .custom _ params body, h => by
    show (body.substitute (σ.hide params)).items?.isSome = body.items?.isSome
    cases body with
    | var name =>
      rw [Expr.substitute]
      cases he : σ.hide params name with
      | none => rfl
      | some e =>
        obtain ⟨hparam, he⟩ := Assignment.hide_eq_some.1 he
        refine Bool.eq_false_iff.2 fun hvector => ?_
        obtain ⟨hname, hbound⟩ := hσ name e he hvector
        simp [feedsNone, returned?, hparam, hname, hbound] at h
    | _ => rfl
  | .builtin _, _ => rfl
  | .comp _ f, h => keepsVector_substituting (f := f) hσ outer h

theorem Func.keepsInner_substituting (hσ : σ.VectorsIn names bound) : ∀ {f : Func K},
    f.allCompositions (Func.feedsNone names) bound = true →
      (substituting σ).KeepsInner f
  | .custom _ _ _, _ => trivial
  | .builtin _, _ => trivial
  | .comp inner outer, h => by
    obtain ⟨hhere, -, houter⟩ := Func.allCompositions_comp.1 h
    exact ⟨keepsVector_substituting hσ outer hhere, keepsInner_substituting hσ houter⟩

/-! ## Inside a call and outside of it -/

/-- Inside, names stand for the literals that are substituted outside, and all other names mean the
same as outside. -/
structure Env.Substitutes (σ : Assignment K) (inside outside : Env K) : Prop where
  /-- Only literals are substituted. -/
  literal : ∀ n e, σ n = some e → e.isLiteral = true
  /-- A replaced name stands for what it is replaced by. -/
  bindings : ∀ n e, σ n = some e → inside.bindings.get? n = some e
  /-- A replaced name is not being resolved. -/
  resolving : ∀ n e, σ n = some e → n ∉ inside.resolving
  /-- Names that are not replaced lead to no name that is. -/
  agree : outside.AgreeOn (fun n => σ n = none) inside

namespace Env.Substitutes

variable {inside outside env : Env K} {params : List String} {values : List (Value K)}

/-- Parameters of inner functions are bound in the same way inside and outside. -/
theorem enter (h : Substitutes σ inside outside) (hlength : values.length = params.length) :
    Substitutes (σ.hide params) (inside.enter (params.zip (values.map Value.toExpr)))
      (outside.enter (params.zip (values.map Value.toExpr))) where
  literal n e he := h.literal n e (Assignment.hide_eq_some.1 he).2
  bindings n e he := by
    obtain ⟨hparam, he⟩ := Assignment.hide_eq_some.1 he
    rw [get?_enter_of_notMem hparam]
    exact h.bindings n e he
  resolving n e he hn := by
    obtain ⟨-, he⟩ := Assignment.hide_eq_some.1 he
    exact h.resolving n e he (List.mem_filter.1 hn).1
  agree := by
    simp only [Assignment.hide_eq_none]
    exact h.agree.call hlength

/-- A call binds its parameters to the literals that are substituted for them. -/
theorem ofCall (hnodup : params.Nodup) (hlength : values.length = params.length)
    (hbindings : ∀ m n, env.bindings.Refers m n → n ∉ params) :
    Substitutes (.ofCall params values) (env.enter (params.zip (values.map Value.toExpr))) env where
  literal n e he := isLiteral_of_mem_zip (Assignment.mem_of_ofCall he)
  bindings n e he := by
    have hnames := names_of_zip hlength
    exact Bindings.get?_putAll_of_nodup (hnames.symm ▸ hnodup) (Assignment.mem_of_ofCall he) _
  resolving n e he hn := by
    have hmem := List.mem_map_of_mem (f := Prod.fst) (Assignment.mem_of_ofCall he)
    exact of_decide_eq_true (List.mem_filter.1 hn).2 hmem
  agree := by
    simp only [Assignment.ofCall_eq_none hlength]
    refine .of_enter (fun m n _ hmn => hbindings m n hmn) fun n hn => ?_
    rwa [names_of_zip hlength]

end Env.Substitutes

variable [Scalar K]

namespace Expr

/-- A literal has the same outcome wherever it is evaluated. -/
theorem outcome_of_isLiteral {e : Expr K} (h : e.isLiteral = true) (mode : Mode)
    (depth depth' : Nat) (env env' : Env K) :
    e.outcome mode depth env = e.outcome mode depth' env' := by
  refine literalInduction
    (P := fun e => ∀ mode, e.outcome mode depth env = e.outcome mode depth' env')
    (fun v mode => ?_) (fun items ih mode => ?_) (fun lo hi ihlo ihhi mode => ?_) h mode
  · rw [outcome_num, outcome_num]
  · have hitems : items.mapM (fun e => e.outcome .real depth env >>= Value.asReal) =
        items.mapM fun e => e.outcome .real depth' env' >>= Value.asReal :=
      mapM_congr fun e he => by rw [ih e he .real]
    rw [outcome_vec, outcome_vec, hitems]
  · rw [outcome_interval, outcome_interval, ihlo .real, ihhi .real]

/-- An expression has the same outcome where names stand for literals as it has outside once the
literals are substituted for the names. -/
theorem outcome_substitute {inside outside : Env K} {depth : Nat} {mode : Mode} (e : Expr K)
    (henv : Env.Substitutes σ inside outside) (hσ : σ.VectorsIn names bound)
    (he : e.allCompositions (Func.feedsNone names) bound = true) :
    e.outcome mode (depth + 1) inside = (e.substitute σ).outcome mode (depth + 1) outside := by
  induction e using expansionInduction generalizing mode σ bound inside outside with
  | num v =>
    rw [substitute, outcome_num, outcome_num]
  | var name =>
    rw [substitute]
    cases hname : σ name with
    | none =>
      refine (outcome_congr henv.agree fun n hn => ?_).symm
      cases List.mem_singleton.1 hn
      exact hname
    | some e =>
      -- the name leads to the literal, which is the same where it is substituted
      rw [outcome_var, if_neg (henv.resolving name e hname), henv.bindings name e hname]
      exact outcome_of_isLiteral (henv.literal name e hname) mode _ _ _ _
  | vec items ih =>
    rw [allCompositions, allCompositionsList_iff] at he
    rw [substitute, substituteList_eq_map, outcome_vec, outcome_vec, List.mapM_map]
    have hitems : items.mapM (fun e => e.outcome .real (depth + 1) inside >>= Value.asReal) =
        items.mapM fun e => (e.substitute σ).outcome .real (depth + 1) outside >>= Value.asReal :=
      mapM_congr fun e hmem => by rw [ih e hmem henv hσ (he e hmem)]
    rw [hitems]
    rfl
  | interval lo hi ihlo ihhi =>
    obtain ⟨hlo, hhi⟩ := Bool.and_eq_true_iff.1 he
    rw [substitute, outcome_interval, outcome_interval, ihlo henv hσ hlo, ihhi henv hσ hhi]
  | neg a ih =>
    rw [substitute, outcome_neg, outcome_neg, ih henv hσ he]
  | binary op a b iha ihb =>
    obtain ⟨ha, hb⟩ := Bool.and_eq_true_iff.1 he
    rw [substitute, outcome_binary, outcome_binary, iha henv hσ ha, ihb henv hσ hb]
  | power a b iha ihb =>
    obtain ⟨ha, hb⟩ := Bool.and_eq_true_iff.1 he
    rw [substitute, outcome_power, outcome_power, iha henv hσ ha, ihb henv hσ hb]
  | builtin f args ih =>
    rw [allCompositions, Bool.and_eq_true, allCompositionsList_iff] at he
    rw [substitute, substituteList_eq_map]
    refine outcome_builtin_congr f
      (List.forall₂_map_right_iff.2 (List.forall₂_same.2 fun a ha => ?_))
    exact ih a ha henv hσ (he.2 a ha)
  | custom f params body args ihargs ihbody =>
    rw [allCompositions, Bool.and_eq_true, allCompositionsList_iff] at he
    rw [substitute, substituteList_eq_map]
    refine outcome_custom_congr (List.forall₂_map_right_iff.2 (List.forall₂_same.2 fun a ha => ?_))
      fun values hcount => ?_
    · exact ihargs a ha henv hσ (he.2 a ha)
    · exact ihbody (henv.enter hcount) (hσ.hide params) he.1
  | comp inner outer args ih =>
    rw [allCompositions, Bool.and_eq_true, allCompositionsList_iff] at he
    have hcomm : (Func.comp (inner.substitute σ) (outer.substitute σ)).expand
        (args.map (Expr.substitute σ)) =
          ((Func.comp inner outer).expand args).map (Expr.substitute σ) :=
      Rewriting.expand_onFunc (Func.keepsInner_substituting hσ he.1) args
    rw [substitute, substituteList_eq_map, Func.substitute, outcome_comp, outcome_comp, hcomm]
    cases hexpanded : (Func.comp inner outer).expand args with
    | error err => rfl
    | ok expanded =>
      refine ih expanded hexpanded henv hσ ?_
      exact (inherited_allCompositions (P := Func.feedsNone names) (fun _ h => h) bound).expand
        hexpanded he.1 he.2

/-! ## Calls -/

theorem mode_of_mem_outcomes {args : List (Expr K)} {values : List (Value K)} {mode : Mode}
    {depth : Nat} {env : Env K} (h : args.mapM (fun a => a.outcome mode depth env) = .ok values) :
    ∀ v ∈ values, v.mode = mode := by
  intro v hv
  obtain ⟨a, -, ha⟩ := exists_of_mem_mapM h hv
  exact mode_of_outcome ha

/-- The arguments evaluated from the left to the right, and then, in the same environment, the body
with the literals for their values substituted for the parameters. -/
def evaluateSubstituted (params : List String) (body : Expr K) (args : List (Expr K))
    (mode : Mode) : Evaluation K (Value K) := do
  let values ← args.mapM fun a => a.evaluate mode
  (body.substitute (.ofCall params values)).evaluate mode

/-- Calling a user function is substituting, for values and for errors.  In vector mode the body
must not feed a composition with a bare parameter. -/
theorem evaluate_eq_substitute {name : String} {params : List String} {body : Expr K}
    {args : List (Expr K)} {mode : Mode} {env : Env K} (hnodup : params.Nodup)
    (hlength : args.length = params.length)
    (hbindings : ∀ m n, env.bindings.Refers m n → n ∉ params)
    (hfeeds : mode = .vector → body.feedsNone params = true) :
    ((apply (.custom name params body) args).evaluate mode).value env =
      (evaluateSubstituted params body args mode).value env := by
  rw [evaluateSubstituted, Evaluation.value_bind (.mapM fun a _ => tidy_evaluate a mode),
    Evaluation.value_mapM fun a _ => tidy_evaluate a mode, value_evaluate, outcome_custom,
    if_neg (not_not_intro hlength)]
  simp only [value_evaluate]
  cases hvalues : args.mapM fun a => a.outcome mode (env.bindings.size + 1) env with
  | error err => rfl
  | ok values =>
    have hcount : values.length = params.length := by
      rw [← (mapM_eq_ok.1 hvalues).length_eq, hlength]
    refine outcome_substitute body (.ofCall hnodup hcount hbindings)
      (Assignment.vectorsIn_ofCall (mode_of_mem_outcomes hvalues)) ?_
    split
    · exact hfeeds ‹_›
    · exact allCompositions_of_forall (fun _ _ _ => by simp [Func.feedsNone]) body []

/-- The sum of two parameters, the first of them fed through a function whose parameter has the same
name. -/
def fedSum : Expr Float :=
  .apply (.comp (.custom "h" ["u"] (.var "u"))
    (.custom "g" ["x"] (.binary .add (.var "x") (.var "y")))) [.var "x"]

/-- Both names are bound, and one of them is being resolved. -/
def resolvingX : Env Float :=
  ⟨Bindings.empty.putAll [("x", .num 1), ("y", .vec [.num 3, .num 4])], ["x"]⟩

/-- A tuple of two numbers. -/
def pair (x y : Float) : Value Float := .vector ⟨[x, y], by simp, by simp⟩

theorem outcome_pair (x y : Float) (depth : Nat) (env : Env Float) :
    (Expr.vec [.num x, .num y]).outcome .vector depth env = .ok (pair x y) := by
  simp [outcome_vec, outcome_num, bind, Except.bind, pure, Except.pure, Value.asReal,
    Tuple.ofList, pair]

theorem evaluate_fedSum :
    ((apply (.custom "f" ["x", "y"] fedSum) [.var "y", .vec [.num 5, .num 6]]).evaluate
      .vector).value resolvingX = .ok (pair (3 + 5) (4 + 6)) := by
  have hy : (Expr.var "y").outcome .vector 3 resolvingX = .ok (pair 3 4) :=
    (outcome_var "y").trans (outcome_pair 3 4 _ _)
  rw [value_evaluate, outcome_custom, if_neg (by decide),
    show resolvingX.bindings.size + 1 = 3 from rfl]
  simp only [List.mapM_cons, List.mapM_nil, hy, outcome_pair]
  show fedSum.outcome .vector 3 _ = _
  rw [fedSum, outcome_comp]
  show (Expr.apply (.custom "g" ["x"] _) [.apply (.custom "h" ["u"] _) [.var "x"]]).outcome
    .vector 3 _ = _
  simp [outcome_custom, outcome_binary, outcome_var, outcome_pair, Env.enter, Bindings.putAll,
    Value.toExpr, bind, Except.bind, pure, Except.pure, BinOp.onValues, BinOp.onTuples,
    Tuple.zipWith, Except.map, resolvingX, pair]

/-- The arguments mention a parameter, a parameter is being resolved, and an inner function has a
parameter of the same name. -/
theorem evaluate_eq_substitute_fedSum :
    ["x", "y"].Nodup ∧ (∀ m n, resolvingX.bindings.Refers m n → n ∉ ["x", "y"]) ∧
      fedSum.feedsNone ["x", "y"] = true ∧
      (evaluateSubstituted ["x", "y"] fedSum [.var "y", .vec [.num 5, .num 6]] .vector).value
        resolvingX = .ok (pair (3 + 5) (4 + 6)) := by
  have hnodup : ["x", "y"].Nodup := by decide
  have hbindings : ∀ m n, resolvingX.bindings.Refers m n → n ∉ ["x", "y"] := by
    rintro m n ⟨e, hget, hn⟩
    have hliteral : e.isLiteral = true := by
      simp only [resolvingX, Bindings.putAll, List.foldl_cons, List.foldl_nil,
        Bindings.get?_put] at hget
      split at hget
      · cases hget
        rfl
      · split at hget
        · cases hget
          rfl
        · cases hget
    rw [freeNames_of_isLiteral hliteral] at hn
    cases hn
  have hfeeds : fedSum.feedsNone ["x", "y"] = true := by decide
  refine ⟨hnodup, hbindings, hfeeds, ?_⟩
  exact (evaluate_eq_substitute hnodup rfl hbindings fun _ => hfeeds).symm.trans evaluate_fedSum

/-- The parameter is all that the inner function of a composition returns. -/
def fedBare : Expr Float :=
  .apply (.comp (.custom "h" ["u"] (.var "p")) (.custom "g" ["v"] (.var "v"))) [.var "p"]

/-- Where a composition is fed with a bare parameter, the literal has components of its own. -/
theorem substitute_fedBare :
    ((apply (.custom "f" ["p"] fedBare) [.vec [.num 1, .num 2]]).evaluate .vector).value .empty =
        .ok (pair 1 2) ∧
      (evaluateSubstituted ["p"] fedBare [.vec [.num 1, .num 2]] .vector).value .empty =
        .error (.dimensionMismatch 2 1) := by
  constructor
  · rw [value_evaluate, outcome_custom, if_neg (by decide)]
    simp only [List.mapM_cons, List.mapM_nil, outcome_pair]
    show fedBare.outcome .vector 1 _ = _
    rw [fedBare, outcome_comp]
    show (Expr.apply (.custom "g" ["v"] _) [.apply (.custom "h" ["u"] _) [.var "p"]]).outcome
      .vector 1 _ = _
    simp [outcome_custom, outcome_var, outcome_pair, Env.enter, Bindings.putAll, Value.toExpr,
      bind, Except.bind, pure, Except.pure, Env.empty, pair]
  · rw [evaluateSubstituted, Evaluation.value_bind (.mapM fun a _ => tidy_evaluate a .vector),
      Evaluation.value_mapM fun a _ => tidy_evaluate a .vector]
    simp only [List.mapM_cons, List.mapM_nil, value_evaluate, outcome_pair]
    show (Expr.apply (.comp (.custom "h" ["u"] (.vec [.num 1, .num 2]))
      (.custom "g" ["v"] (.var "v"))) [.vec [.num 1, .num 2]]).outcome .vector 1 .empty = _
    rw [outcome_comp]
    rfl

end Expr

end ZeroSet
