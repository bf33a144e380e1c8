import ZeroSet.Proofs.IntervalArithmetic
import ZeroSet.Proofs.Expansion
import ZeroSet.Proofs.RelatedScopes

/-!
# Interval evaluation encloses real evaluation

Over exact scalars, reading an expression over intervals tells where its real values are.  Two
environments are compared: a box, where some names stand for intervals, and a sample of it,
where each of these names stands for a number in the interval.

* `Expr.intervalFree` — expressions without interval literals, the only ones whose interval
  reading has real readings to compare with.
* `Env.Samples` — an environment that picks a number from every interval of another one.
* `Expr.encloses_outcome` — what holds of each way to evaluate: a real value, if there is one,
  lies in the enclosure.
* `Expr.evaluate_mem_enclosure` — an enclosure is a promise that there is one.
-/

namespace ZeroSet

/-! ## Expressions without interval literals -/

section

variable {K : Type}

mutual

/-- Whether no interval literal occurs in an expression or in the functions it applies. -/
def Expr.intervalFree : Expr K → Bool
  | .num _ => true
  | .var _ => true
  | .vec items => Expr.intervalFreeList items
  | .interval _ _ => false
  | .neg a => a.intervalFree
  | .binary _ a b => a.intervalFree && b.intervalFree
  | .power a b => a.intervalFree && b.intervalFree
  | .apply f args => f.intervalFree && Expr.intervalFreeList args

/-- Whether no interval literal occurs in a list of expressions. -/
def Expr.intervalFreeList : List (Expr K) → Bool
  | [] => true
  | e :: es => e.intervalFree && Expr.intervalFreeList es

/-- Whether no interval literal occurs in the bodies of a function. -/
def Func.intervalFree : Func K → Bool
  | .custom _ _ body => body.intervalFree
  | .comp inner outer => inner.intervalFree && outer.intervalFree
  | .builtin _ => true

end

theorem Expr.intervalFreeList_iff {es : List (Expr K)} :
    Expr.intervalFreeList es = true ↔ ∀ e ∈ es, e.intervalFree = true := by
  induction es with
  | nil => simp [intervalFreeList]
  | cons e es ih => simp [intervalFreeList, ih]

theorem hereditary_intervalFree :
    Hereditary (fun e : Expr K => e.intervalFree = true) fun f => f.intervalFree = true where
  apply hf hargs := by
    simp only [Expr.intervalFree, Bool.and_eq_true, Expr.intervalFreeList_iff]
    exact ⟨hf, hargs⟩
  comp := by simp only [Func.intervalFree, Bool.and_eq_true, implies_true]
  item hitem h := by
    simp only [Func.intervalFree, Expr.intervalFree, Expr.intervalFreeList_iff] at h ⊢
    exact h _ hitem

end

variable {K : Type} [ExactScalar K]

/-! ## Boxes and samples -/

/-- What a name stands for in a sample and in the box: the same expression of some class, or a
number and an interval around it. -/
inductive Expr.Samples (same : Expr K → Prop) : Expr K → Expr K → Prop
  /-- The name is not sampled. -/
  | same {e : Expr K} (h : same e) : Samples same e e
  /-- A number is picked from an interval. -/
  | inside {lo x hi : K} (hlo : lo ≤ x) (hhi : x ≤ hi) :
    Samples same (.num x) (.intervalOf lo hi)

/-- The first environment picks a number from every interval of the second one, and agrees with
it otherwise. -/
structure Env.Samples (same : Expr K → Prop) (sample box : Env K) : Prop where
  /-- The same names are being resolved. -/
  resolving : sample.resolving = box.resolving
  /-- The same names are bound, each to a sample of what it is bound to in the box. -/
  bindings : ∀ name,
    Option.Rel (Expr.Samples same) (sample.bindings.get? name) (box.bindings.get? name)

namespace Env.Samples

variable {same : Expr K → Prop} {sample box : Env K}

/-- Samples correspond to their boxes binding by binding. -/
theorem iff_related : Samples same sample box ↔ Related (Expr.Samples same) sample box :=
  ⟨fun h => ⟨h.resolving, h.bindings⟩, fun h => ⟨h.resolving, h.bindings⟩⟩

theorem size_eq (h : Samples same sample box) : sample.bindings.size = box.bindings.size :=
  (iff_related.1 h).size_eq

theorem refl {env : Env K}
    (h : ∀ name e, env.bindings.get? name = some e → same e) : Samples same env env :=
  iff_related.2 (.refl fun name e he => .same (h name e he))

theorem mono {same' : Expr K → Prop} (h : Samples same sample box)
    (hsame : ∀ e, same e → same' e) : Samples same' sample box := by
  refine iff_related.2 ((iff_related.1 h).mono fun e e' he => ?_)
  cases he with
  | same he => exact .same (hsame _ he)
  | inside hlo hhi => exact .inside hlo hhi

theorem resolve (h : Samples same sample box) (name : String) :
    Samples same { sample with resolving := name :: sample.resolving }
      { box with resolving := name :: box.resolving } :=
  iff_related.2 ((iff_related.1 h).resolve name)

theorem enter (h : Samples same sample box) {pairs boxPairs : List (String × Expr K)}
    (hpairs : List.Forall₂ (fun p q => p.1 = q.1 ∧ Expr.Samples same p.2 q.2) pairs boxPairs) :
    Samples same (sample.enter pairs) (box.enter boxPairs) :=
  iff_related.2 ((iff_related.1 h).enter hpairs)

theorem ofList {pairs boxPairs : List (String × Expr K)}
    (hpairs : List.Forall₂ (fun p q => p.1 = q.1 ∧ Expr.Samples same p.2 q.2) pairs boxPairs) :
    Samples same (.ofList pairs) (.ofList boxPairs) :=
  iff_related.2 (.ofList hpairs)

end Env.Samples

/-! ## Enclosed outcomes -/

/-- The outcome of a real evaluation is a number in the interval.  It may also be an error,
unless the evaluation is known to be `total`. -/
def Encloses (total : Prop) (a : Interval K) : Except (EvalError K) (Value K) → Prop
  | .ok (.real x) => x ∈ a
  | .ok _ => False
  | .error _ => ¬total

namespace Encloses

variable {total : Prop} {a b c : Interval K} {x y : Except (EvalError K) (Value K)}

theorem negate (h : Encloses total a x) : Encloses total (-a) (x.map Value.negate) := by
  rcases x with err | ⟨r⟩ | _ | _
  · exact h
  · exact Interval.mem_neg h
  · exact h
  · exact h

theorem binary {op : BinOp} (h : op.onIntervals a b = .ok c) (hx : Encloses total a x)
    (hy : Encloses total b y) :
    Encloses total c (x >>= fun v => y >>= fun w => op.onValues v w) := by
  rcases x with err | ⟨r⟩ | _ | _
  · exact hx
  · rcases y with err | ⟨s⟩ | _ | _
    · exact hy
    · obtain ⟨z, hz, hmem⟩ := BinOp.onReals_mem h hx hy
      show Encloses total c ((op.onReals r s).map Value.real)
      rw [hz]
      exact hmem
    · exact hy.elim
    · exact hy.elim
  · exact hx.elim
  · exact hx.elim

end Encloses

namespace Expr

variable {total : Prop} {depth : Nat} {sample box : Env K}

/-- Arguments are evaluated to samples of their enclosures, or one of them has no value. -/
theorem samples_of_args {same : Expr K → Prop} {args : List (Expr K)} {boxes : List (Value K)}
    (henclosed : ∀ a ∈ args, ∀ i, a.outcome .interval depth box = .ok (.interval i) →
      Encloses total i (a.outcome .real depth sample))
    (hboxes : args.mapM (fun a => a.outcome .interval depth box) = .ok boxes) :
    (∃ values, args.mapM (fun a => a.outcome .real depth sample) = .ok values ∧
        List.Forall₂ (Samples same) (values.map Value.toExpr) (boxes.map Value.toExpr)) ∨
      (∃ err, args.mapM (fun a => a.outcome .real depth sample) = .error err) ∧ ¬total := by
  have hall := mapM_eq_ok.1 hboxes
  clear hboxes
  induction hall with
  | nil => exact .inl ⟨[], rfl, .nil⟩
  | @cons a v args vs hv _ ih =>
    obtain ⟨i, rfl⟩ := interval_of_outcome hv
    have hhead := henclosed a (List.mem_cons_self ..) i hv
    have htail := ih fun a ha => henclosed a (List.mem_cons_of_mem _ ha)
    rw [List.mapM_cons]
    rcases hout : a.outcome .real depth sample with err | ⟨x⟩ | _ | _
    · rw [hout] at hhead
      exact .inr ⟨⟨err, rfl⟩, hhead⟩
    · rw [hout] at hhead
      rcases htail with ⟨values, hvalues, hsamples⟩ | ⟨⟨err, herr⟩, hnot⟩
      · rw [hvalues]
        exact .inl ⟨.real x :: values, rfl, .cons (.inside hhead.1 hhead.2) hsamples⟩
      · rw [herr]
        exact .inr ⟨⟨err, rfl⟩, hnot⟩
    · rw [hout] at hhead
      exact hhead.elim
    · rw [hout] at hhead
      exact hhead.elim

/-- If variables are enclosed, so is every expression. -/
theorem encloses_of_variables
    (hvar : ∀ {name sample box a}, Env.Samples (fun e => total → e.intervalFree = true) sample box →
      (var name : Expr K).outcome .interval depth box = .ok (.interval a) →
      Encloses total a ((var name).outcome .real depth sample))
    {e : Expr K} {a : Interval K} (he : total → e.intervalFree = true)
    (henv : Env.Samples (fun e => total → e.intervalFree = true) sample box)
    (h : e.outcome .interval depth box = .ok (.interval a)) :
    Encloses total a (e.outcome .real depth sample) := by
  induction e using expansionInduction generalizing sample box a with
  | num v =>
    rw [outcome_num] at h ⊢
    cases h
    exact Interval.mem_point v
  | var name => exact hvar henv h
  | vec items _ =>
    rw [outcome_vec, if_neg (by decide)] at h
    cases h
  | interval lo hi _ _ =>
    -- real evaluation refuses the literal, which a total evaluation never meets
    rw [outcome_interval, if_neg (by decide)]
    exact fun ht => by simpa [intervalFree] using he ht
  | neg b ih =>
    rw [outcome_neg] at h ⊢
    obtain ⟨v, hv, hneg⟩ := map_eq_ok.1 h
    obtain ⟨i, rfl⟩ := interval_of_outcome hv
    cases hneg
    exact (ih (by simpa [intervalFree] using he) henv hv).negate
  | binary op b c ihb ihc =>
    have hparts : total → b.intervalFree = true ∧ c.intervalFree = true := by
      simpa [intervalFree] using he
    rw [outcome_binary] at h ⊢
    obtain ⟨v, hv, h⟩ := bind_eq_ok.1 h
    obtain ⟨w, hw, h⟩ := bind_eq_ok.1 h
    obtain ⟨i, rfl⟩ := interval_of_outcome hv
    obtain ⟨j, rfl⟩ := interval_of_outcome hw
    obtain ⟨k, hk, h⟩ := map_eq_ok.1 h
    cases h
    exact .binary hk (ihb (fun ht => (hparts ht).1) henv hv) (ihc (fun ht => (hparts ht).2) henv hw)
  | power base exponent _ _ =>
    rw [outcome_power, if_neg (by decide)] at h
    cases h
  | builtin b args _ =>
    rw [outcome_builtin] at h
    obtain ⟨_, -, h⟩ := bind_eq_ok.1 h
    cases h
  | custom name params body args ihargs ihbody =>
    have hparts : total → body.intervalFree = true ∧ ∀ a ∈ args, a.intervalFree = true := by
      simpa [intervalFree, Func.intervalFree, intervalFreeList_iff] using he
    rw [outcome_custom] at h ⊢
    split at h
    · cases h
    · rename_i hlength
      rw [if_neg hlength]
      obtain ⟨boxes, hboxes, h⟩ := bind_eq_ok.1 h
      have henclosed : ∀ a ∈ args, ∀ i, a.outcome .interval depth box = .ok (.interval i) →
          Encloses total i (a.outcome .real depth sample) :=
        fun a ha i hi => ihargs a ha (fun ht => (hparts ht).2 a ha) henv hi
      rcases samples_of_args henclosed hboxes with ⟨values, hvalues, hsamples⟩ | ⟨⟨err, herr⟩, hnot⟩
      · rw [hvalues]
        exact ihbody (fun ht => (hparts ht).1) (henv.enter (forall₂_zip_related params hsamples)) h
      · rw [herr]
        exact hnot
  | comp inner outer args ih =>
    rw [outcome_comp] at h ⊢
    obtain ⟨expanded, hexpanded, h⟩ := bind_eq_ok.1 h
    rw [hexpanded]
    refine ih expanded hexpanded (fun ht => ?_) henv h
    have hparts := he ht
    simp only [intervalFree, Bool.and_eq_true, intervalFreeList_iff] at hparts
    exact hereditary_intervalFree.expand hexpanded hparts.1 hparts.2

/-- The enclosure of an expression over a box holds its value at every sample of the box.
Without interval literals there is such a value. -/
theorem encloses_outcome {e : Expr K} {a : Interval K} (he : total → e.intervalFree = true)
    (henv : Env.Samples (fun e => total → e.intervalFree = true) sample box)
    (h : e.outcome .interval depth box = .ok (.interval a)) :
    Encloses total a (e.outcome .real depth sample) := by
  induction depth generalizing e sample box a with
  | zero =>
    refine encloses_of_variables (fun {name _ box _} _ hname => ?_) he henv h
    obtain ⟨err, herr⟩ := outcome_var_zero name .interval box
    rw [herr] at hname
    cases hname
  | succ depth ih =>
    refine encloses_of_variables (fun {name sample box a} henv hname => ?_) he henv h
    have hbinding := henv.bindings name
    rw [outcome_var] at hname ⊢
    rw [henv.resolving]
    split at hname
    · cases hname
    · rename_i hfree
      rw [if_neg hfree]
      cases hbox : box.bindings.get? name with
      | none =>
        rw [hbox] at hname
        cases hname
      | some bound =>
        rw [hbox] at hname hbinding
        generalize sample.bindings.get? name = sampled at hbinding
        cases hbinding with
        | some hsample =>
          cases hsample with
          | same hsame => exact henv.resolving ▸ ih hsame (henv.resolve name) hname
          | @inside lo x hi hlo hhi =>
            replace hname : (intervalOf lo hi).outcome .interval depth
                { box with resolving := name :: box.resolving } = .ok (.interval a) := hname
            rw [outcome_intervalOf, Interval.ofBounds, if_pos (hlo.trans hhi)] at hname
            cases hname
            show Encloses total _ ((num _).outcome .real depth _)
            rw [outcome_num]
            exact ⟨hlo, hhi⟩

/-! ## Evaluating over a box and at a sample -/

/-- If an expression without interval literals has an enclosure over a box, it has a value at
every sample of the box, and the enclosure is a proper interval around it. -/
theorem evaluate_mem_enclosure {e : Expr K} {v : Value K} (he : e.intervalFree = true)
    (henv : Env.Samples (fun e => e.intervalFree = true) sample box)
    (h : (e.evaluate .interval).value box = .ok v) :
    ∃ (a : Interval K) (x : K), v = .interval a ∧ a.lo ≤ a.hi ∧
      (e.evaluate .real).value sample = .ok (.real x) ∧ x ∈ a := by
  rw [value_evaluate] at h ⊢
  rw [henv.size_eq]
  obtain ⟨a, rfl⟩ := interval_of_outcome h
  have hencloses : Encloses True a (e.outcome .real (box.bindings.size + 1) sample) :=
    encloses_outcome (fun _ => he) (henv.mono fun _ h _ => h) h
  rcases hout : e.outcome .real (box.bindings.size + 1) sample with err | ⟨x⟩ | _ | _
  · rw [hout] at hencloses
    exact (hencloses trivial).elim
  · rw [hout] at hencloses
    exact ⟨a, x, rfl, Interval.lo_le_hi_of_mem hencloses, rfl, hencloses⟩
  · rw [hout] at hencloses
    exact hencloses.elim
  · rw [hout] at hencloses
    exact hencloses.elim

/-- The product of a sampled argument and a name bound to a further expression. -/
theorem evaluate_mem_enclosure_product :
    ∃ (a : Interval ℝ) (x : ℝ),
      ((apply (.custom "f" ["u"] (binary .mul (var "u") (var "y"))) [var "x"]).evaluate
          .interval).value
            (.ofList [("x", .intervalOf 1 3), ("y", binary .add (var "x") (num 1))]) =
        .ok (.interval a) ∧
      ((apply (.custom "f" ["u"] (binary .mul (var "u") (var "y"))) [var "x"]).evaluate
          .real).value (.ofList [("x", .num 2), ("y", binary .add (var "x") (num 1))]) =
        .ok (.real x) ∧ x ∈ a := by
  have henv : Env.Samples (fun e : Expr ℝ => e.intervalFree = true)
      (.ofList [("x", .num 2), ("y", binary .add (var "x") (num 1))])
      (.ofList [("x", .intervalOf 1 3), ("y", binary .add (var "x") (num 1))]) :=
    .ofList (.cons ⟨rfl, .inside (by norm_num) (by norm_num)⟩ (.cons ⟨rfl, .same rfl⟩ .nil))
  have h : ((apply (.custom "f" ["u"] (binary .mul (var "u") (var "y"))) [var "x"]).evaluate
      .interval).value (.ofList [("x", .intervalOf 1 3), ("y", binary .add (var "x") (num 1))]) =
        .ok (.interval (⟨1, 3⟩ * (⟨1, 3⟩ + .point 1) : Interval ℝ)) := by
    rw [value_evaluate]
    show Expr.outcome _ _ 3 _ = _
    simp [outcome_custom, outcome_binary, outcome_var, outcome_num, outcome_intervalOf, Env.enter,
      Env.ofList, Bindings.putAll, Interval.ofBounds, Value.toExpr, bind, Except.bind, pure,
      Except.pure, Except.map]
    rfl
  obtain ⟨a, x, hv, -, hx, hmem⟩ := evaluate_mem_enclosure rfl henv h
  cases hv
  exact ⟨_, x, h, hx, hmem⟩

end Expr

end ZeroSet
