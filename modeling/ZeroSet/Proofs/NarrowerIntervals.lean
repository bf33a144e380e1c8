import ZeroSet.Proofs.SurvivingLeaves
import ZeroSet.Proofs.Applications
import ZeroSet.Proofs.RelatedScopes

/-!
# Narrower intervals have narrower enclosures

Over exact scalars an evaluation that succeeds over some intervals succeeds over narrower ones, and
what it yields there is narrower.  A search only ever looks at cells inside its window, so it fails
at its first evaluation or not at all.

* `Interval.Narrows` — a proper interval inside another one.
* `BinOp.onIntervals_narrows` — operators keep the inclusion, and narrower divisors are no less
  defined.
* `Tightens` — an outcome that is a value where another one is, and a narrower one.
* `Expr.outcome_tightens` — narrower bindings tighten the outcome of every expression.
* `Bisection.exists_value_search` — a search whose first cell has an enclosure does not fail.
* `Bisection.narrower_enclosure_and_first_error` — both for the enclosures that a search asks for.
-/

namespace ZeroSet

variable {K : Type} [ExactScalar K]

/-! ## Narrower intervals -/

namespace Interval

/-- The first interval is a proper one, and it lies inside the second one. -/
structure Narrows (a b : Interval K) : Prop where
  /-- The bounds are in order. -/
  proper : a.lo ≤ a.hi
  /-- The lower bound lies inside. -/
  lo_mem : a.lo ∈ b
  /-- The upper bound lies inside. -/
  hi_mem : a.hi ∈ b

variable {a b c d : Interval K} {x y : K}

theorem narrows_iff : a.Narrows b ↔ b.lo ≤ a.lo ∧ a.lo ≤ a.hi ∧ a.hi ≤ b.hi := by
  constructor
  · intro h
    exact ⟨h.lo_mem.1, h.proper, h.hi_mem.2⟩
  · rintro ⟨hlo, hproper, hhi⟩
    exact ⟨hproper, ⟨hlo, hproper.trans hhi⟩, ⟨hlo.trans hproper, hhi⟩⟩

theorem narrows_iff_includes : a.Narrows b ↔ a.lo ≤ a.hi ∧ b.includes a = true := by
  simp only [narrows_iff, includes, Bool.and_eq_true, decide_eq_true_eq]
  tauto

theorem narrows_point (x : K) : (point x).Narrows (point x) := ⟨le_refl x, mem_point x, mem_point x⟩

theorem narrows_ofBounds (h : ofBounds x y = .ok a) : a.Narrows a := by
  rw [ofBounds] at h
  split at h
  · rename_i hle
    cases h
    exact narrows_iff.2 ⟨le_refl _, hle, le_refl _⟩
  · cases h

theorem Narrows.mem (h : a.Narrows b) (hx : x ∈ a) : x ∈ b :=
  ⟨h.lo_mem.1.trans hx.1, hx.2.trans h.hi_mem.2⟩

theorem min_mem (hx : x ∈ a) (hy : y ∈ a) : min x y ∈ a := by
  rcases min_choice x y with h | h
  · rwa [h]
  · rwa [h]

theorem max_mem (hx : x ∈ a) (hy : y ∈ a) : max x y ∈ a := by
  rcases max_choice x y with h | h
  · rwa [h]
  · rwa [h]

namespace Narrows

theorem neg (h : a.Narrows b) : (-a).Narrows (-b) :=
  ⟨neg_le_neg h.proper, mem_neg h.hi_mem, mem_neg h.lo_mem⟩

theorem add (h : a.Narrows b) (h' : c.Narrows d) : (a + c).Narrows (b + d) :=
  ⟨add_le_add h.proper h'.proper, mem_add h.lo_mem h'.lo_mem, mem_add h.hi_mem h'.hi_mem⟩

theorem sub (h : a.Narrows b) (h' : c.Narrows d) : (a - c).Narrows (b - d) :=
  ⟨sub_le_sub h.proper h'.proper, mem_sub h.lo_mem h'.hi_mem, mem_sub h.hi_mem h'.lo_mem⟩

/-- The bounds of a product are products of bounds, and those of the narrower factors are members
of the wider ones. -/
theorem mul (h : a.Narrows b) (h' : c.Narrows d) : (a * c).Narrows (b * d) := by
  have hp := mem_mul h.lo_mem h'.lo_mem
  have hq := mem_mul h.lo_mem h'.hi_mem
  have hr := mem_mul h.hi_mem h'.lo_mem
  have hs := mem_mul h.hi_mem h'.hi_mem
  have hcorner : a.lo * c.lo ∈ a * c := mem_mul ⟨le_refl _, h.proper⟩ ⟨le_refl _, h'.proper⟩
  refine ⟨lo_le_hi_of_mem hcorner, ?_, ?_⟩
  · rw [lo_mul]
    exact min_mem (min_mem (min_mem hp hq) hr) hs
  · rw [hi_mul]
    exact max_mem (max_mem (max_mem hp hq) hr) hs

/-- An interval without zero has narrower ones without zero only. -/
theorem inverse (h : a.Narrows b) (hd : b.inverse = .ok d) :
    ∃ c, a.inverse = .ok c ∧ c.Narrows d := by
  have hlo := mem_inverse hd h.lo_mem
  have hhi := mem_inverse hd h.hi_mem
  have hzero : a.containsZero = false := by
    rw [Bool.eq_false_iff, ne_eq, containsZero_iff]
    intro hmem
    exact (mem_inverse hd (h.mem hmem)).1 rfl
  have ha : a.inverse = .ok ⟨1 / a.hi, 1 / a.lo⟩ := by simp [Interval.inverse, hzero]
  have hmem := mem_inverse ha ⟨le_refl _, h.proper⟩
  exact ⟨_, ha, lo_le_hi_of_mem hmem.2, hhi.2, hlo.2⟩

theorem divide (h : a.Narrows b) (h' : c.Narrows d) {q : Interval K} (hq : b.divide d = .ok q) :
    ∃ p, a.divide c = .ok p ∧ p.Narrows q := by
  obtain ⟨i, hi, hq⟩ := bind_eq_ok.1 hq
  obtain ⟨j, hj, hnarrows⟩ := h'.inverse hi
  cases hq
  refine ⟨a * j, ?_, h.mul hnarrows⟩
  rw [Interval.divide, hj]
  rfl

end Narrows

end Interval

/-- Operators that are defined on intervals are defined on narrower ones and yield narrower ones. -/
theorem BinOp.onIntervals_narrows {op : BinOp} {a b c d q : Interval K} (h : a.Narrows b)
    (h' : c.Narrows d) (hq : op.onIntervals b d = .ok q) :
    ∃ p, op.onIntervals a c = .ok p ∧ p.Narrows q := by
  cases op with
  | add =>
    cases hq
    exact ⟨_, rfl, h.add h'⟩
  | sub =>
    cases hq
    exact ⟨_, rfl, h.sub h'⟩
  | mul =>
    cases hq
    exact ⟨_, rfl, h.mul h'⟩
  | div => exact h.divide h' hq

/-! ## Narrower values -/

/-- The same number or tuple, or a narrower interval. -/
inductive Value.Narrows : Value K → Value K → Prop
  /-- Numbers are kept. -/
  | real (x : K) : Narrows (.real x) (.real x)
  /-- Tuples are kept. -/
  | vector (t : Tuple K) : Narrows (.vector t) (.vector t)
  /-- Intervals may be narrower. -/
  | interval {a b : Interval K} (h : a.Narrows b) : Narrows (.interval a) (.interval b)

/-- The same expression, or the literal for a narrower interval. -/
inductive Expr.Narrows : Expr K → Expr K → Prop
  /-- Any expression is kept. -/
  | same (e : Expr K) : Narrows e e
  /-- Literals may be narrower. -/
  | inside {a b : Interval K} (h : a.Narrows b) :
    Narrows (.intervalOf a.lo a.hi) (.intervalOf b.lo b.hi)

theorem Value.Narrows.toExpr {v w : Value K} (h : v.Narrows w) :
    Expr.Narrows v.toExpr w.toExpr := by
  cases h with
  | real x => exact .same _
  | vector t => exact .same _
  | interval h => exact .inside h

/-- The first outcome is a value where the second one is, and a narrower one. -/
def Tightens (x y : Except (EvalError K) (Value K)) : Prop :=
  ∀ w, y = .ok w → ∃ v, x = .ok v ∧ v.Narrows w

namespace Tightens

variable {x y x' y' : Except (EvalError K) (Value K)}

theorem ok {v w : Value K} (h : v.Narrows w) : Tightens (.ok v) (.ok w) := by
  intro _ hw
  cases hw
  exact ⟨v, rfl, h⟩

theorem error {err : EvalError K} : Tightens x (.error err) := by
  intro _ hw
  cases hw

/-- The numbers that an expression uses are the same. -/
theorem asReal (h : Tightens x y) {r : K} (hr : y >>= Value.asReal = .ok r) :
    x >>= Value.asReal = .ok r := by
  obtain ⟨w, hw, hr⟩ := bind_eq_ok.1 hr
  obtain ⟨v, rfl, hnarrows⟩ := h w hw
  cases hnarrows with
  | real => exact hr
  | vector => cases hr
  | interval => cases hr

theorem negate (h : Tightens x y) : Tightens (x.map Value.negate) (y.map Value.negate) := by
  intro u hu
  obtain ⟨w, hw, rfl⟩ := map_eq_ok.1 hu
  obtain ⟨v, rfl, hnarrows⟩ := h w hw
  refine ⟨v.negate, rfl, ?_⟩
  cases hnarrows with
  | real => exact .real _
  | vector => exact .vector _
  | interval hab => exact .interval hab.neg

theorem binary {op : BinOp} (h : Tightens x y) (h' : Tightens x' y') :
    Tightens (x >>= fun v => x' >>= fun w => op.onValues v w)
      (y >>= fun v => y' >>= fun w => op.onValues v w) := by
  intro u hu
  obtain ⟨w, hw, hu⟩ := bind_eq_ok.1 hu
  obtain ⟨w', hw', hu⟩ := bind_eq_ok.1 hu
  obtain ⟨v, rfl, hv⟩ := h w hw
  obtain ⟨v', rfl, hv'⟩ := h' w' hw'
  show ∃ t, op.onValues v v' = .ok t ∧ t.Narrows u
  cases hv with
  | real r =>
    cases hv' with
    | real s =>
      obtain ⟨z, -, rfl⟩ := map_eq_ok.1 hu
      exact ⟨_, hu, .real z⟩
    | vector => cases hu
    | interval => cases hu
  | vector t =>
    cases hv' with
    | real => cases hu
    | vector t' =>
      obtain ⟨z, -, rfl⟩ := map_eq_ok.1 hu
      exact ⟨_, hu, .vector z⟩
    | interval => cases hu
  | interval ha =>
    cases hv' with
    | real => cases hu
    | vector => cases hu
    | interval hb =>
      obtain ⟨q, hq, rfl⟩ := map_eq_ok.1 hu
      obtain ⟨p, hp, hnarrows⟩ := BinOp.onIntervals_narrows ha hb hq
      exact ⟨_, map_eq_ok.2 ⟨p, hp, rfl⟩, .interval hnarrows⟩

end Tightens

/-! ## Narrower outcomes -/

namespace Expr

variable {mode : Mode} {depth : Nat} {narrow wide env : Env K}

/-- Arguments that have values over some intervals have narrower ones over narrower intervals. -/
theorem exists_narrower_args {args : List (Expr K)} {ws : List (Value K)}
    (h : ∀ a ∈ args, Tightens (a.outcome mode depth narrow) (a.outcome mode depth wide))
    (hws : args.mapM (fun a => a.outcome mode depth wide) = .ok ws) :
    ∃ vs, args.mapM (fun a => a.outcome mode depth narrow) = .ok vs ∧
      List.Forall₂ Narrows (vs.map Value.toExpr) (ws.map Value.toExpr) := by
  have hall := mapM_eq_ok.1 hws
  clear hws
  induction hall with
  | nil => exact ⟨[], rfl, .nil⟩
  | @cons a w args ws hw _ ih =>
    obtain ⟨v, hv, hnarrows⟩ := h a (List.mem_cons_self ..) w hw
    obtain ⟨vs, hvs, hrest⟩ := ih fun a' ha' => h a' (List.mem_cons_of_mem _ ha')
    exact ⟨v :: vs, mapM_eq_ok.2 (.cons hv (mapM_eq_ok.1 hvs)), .cons hnarrows.toExpr hrest⟩

/-- A literal evaluates to its interval in one mode only. -/
theorem tightens_intervalOf {a b : Interval K} (h : a.Narrows b) (narrow wide : Env K) :
    Tightens ((intervalOf a.lo a.hi).outcome mode depth narrow)
      ((intervalOf b.lo b.hi).outcome mode depth wide) := by
  by_cases hmode : mode = .interval
  · subst hmode
    have hb : b.lo ≤ b.hi := Interval.lo_le_hi_of_mem h.lo_mem
    rw [outcome_intervalOf, outcome_intervalOf, Interval.ofBounds, Interval.ofBounds,
      if_pos h.proper, if_pos hb]
    exact .ok (.interval h)
  · intro w hw
    rw [intervalOf, outcome_interval, if_neg hmode] at hw
    cases hw

/-- If narrower bindings tighten the outcomes of variables, they tighten all outcomes. -/
theorem tightens_of_variables
    (hvar : ∀ {name mode narrow wide}, Env.Related Narrows narrow wide →
      Tightens ((var name : Expr K).outcome mode depth narrow)
        ((var name).outcome mode depth wide))
    {e : Expr K} {mode : Mode} (henv : Env.Related Narrows narrow wide) :
    Tightens (e.outcome mode depth narrow) (e.outcome mode depth wide) := by
  induction e using expansionInduction generalizing mode narrow wide with
  | num v =>
    rw [outcome_num, outcome_num]
    cases mode with
    | real => exact .ok (.real v)
    | vector => exact .error
    | interval => exact .ok (.interval (Interval.narrows_point v))
  | var name => exact hvar henv
  | vec items ih =>
    rw [outcome_vec, outcome_vec]
    split
    · intro w hw
      obtain ⟨xs, hxs, hw⟩ := bind_eq_ok.1 hw
      obtain ⟨t, ht, hw⟩ := bind_eq_ok.1 hw
      cases hw
      have hitem : ∀ e ∈ items,
          Tightens (e.outcome .real depth narrow) (e.outcome .real depth wide) :=
        fun e he => ih e he henv
      rw [mapM_eq_ok_of_forall_mem (fun e he x hx => (hitem e he).asReal hx) hxs]
      exact ⟨.vector t, bind_eq_ok.2 ⟨xs, rfl, bind_eq_ok.2 ⟨t, ht, rfl⟩⟩, .vector t⟩
    · exact .error
  | interval lo hi ihlo ihhi =>
    rw [outcome_interval, outcome_interval]
    split
    · intro w hw
      obtain ⟨x, hx, hw⟩ := bind_eq_ok.1 hw
      obtain ⟨y, hy, hw⟩ := bind_eq_ok.1 hw
      obtain ⟨a, ha, hw⟩ := bind_eq_ok.1 hw
      cases hw
      rw [(ihlo henv).asReal hx, (ihhi henv).asReal hy]
      refine ⟨.interval a, ?_, .interval (Interval.narrows_ofBounds ha)⟩
      exact bind_eq_ok.2 ⟨x, rfl, bind_eq_ok.2 ⟨y, rfl, bind_eq_ok.2 ⟨a, ha, rfl⟩⟩⟩
    · exact .error
  | neg a ih =>
    rw [outcome_neg, outcome_neg]
    exact (ih henv).negate
  | binary op a b iha ihb =>
    rw [outcome_binary, outcome_binary]
    exact (iha henv).binary (ihb henv)
  | power base exponent ihbase ihexponent =>
    rw [outcome_power, outcome_power]
    split
    · intro w hw
      obtain ⟨x, hx, hw⟩ := bind_eq_ok.1 hw
      obtain ⟨y, hy, hw⟩ := bind_eq_ok.1 hw
      cases hw
      rw [(ihbase henv).asReal hx, (ihexponent henv).asReal hy]
      exact ⟨_, rfl, .real _⟩
    · exact .error
  | builtin b args ih =>
    intro w hw
    rw [outcome_builtin] at hw ⊢
    obtain ⟨u, hu, hw⟩ := bind_eq_ok.1 hw
    rw [hu]
    split at hw
    · rename_i arg _
      obtain ⟨x, hx, hw⟩ := bind_eq_ok.1 hw
      cases hw
      have harg : Tightens (arg.outcome .real depth narrow) (arg.outcome .real depth wide) :=
        ih arg (List.mem_cons_self ..) henv
      have hx := harg.asReal hx
      exact ⟨.real (b.value x), bind_eq_ok.2 ⟨u, rfl, bind_eq_ok.2 ⟨x, hx, rfl⟩⟩, .real _⟩
    · cases hw
    · cases hw
  | custom name params body args ihargs ihbody =>
    rw [outcome_custom, outcome_custom]
    split
    · exact .error
    · intro w hw
      obtain ⟨ws, hws, hw⟩ := bind_eq_ok.1 hw
      obtain ⟨vs, hvs, hnarrows⟩ := exists_narrower_args (fun a ha => ihargs a ha henv) hws
      rw [hvs]
      exact ihbody (henv.enter (forall₂_zip_related params hnarrows)) w hw
  | comp inner outer args ih =>
    intro w hw
    rw [outcome_comp] at hw ⊢
    obtain ⟨expanded, hexpanded, hw⟩ := bind_eq_ok.1 hw
    rw [hexpanded]
    exact ih expanded hexpanded henv w hw

/-- Narrower bindings tighten the outcome of every expression in every mode. -/
theorem outcome_tightens {e : Expr K} (henv : Env.Related Narrows narrow wide) :
    Tightens (e.outcome mode depth narrow) (e.outcome mode depth wide) := by
  induction depth generalizing e mode narrow wide with
  | zero =>
    refine tightens_of_variables (fun {name mode _ wide} _ => ?_) henv
    obtain ⟨err, herr⟩ := outcome_var_zero name mode wide
    rw [herr]
    exact .error
  | succ depth ih =>
    refine tightens_of_variables (fun {name mode narrow wide} henv => ?_) henv
    have hbinding := henv.bindings name
    have hresolve := henv.resolve name
    rw [henv.resolving] at hresolve
    rw [outcome_var, outcome_var, henv.resolving]
    split
    · exact .error
    · generalize narrow.bindings.get? name = bound at hbinding ⊢
      generalize wide.bindings.get? name = bound' at hbinding ⊢
      cases hbinding with
      | none => exact .error
      | some hbound =>
        cases hbound with
        | same e => exact ih hresolve
        | inside hab => exact tightens_intervalOf hab _ _

/-- An environment corresponds to itself, so the intervals that evaluation yields are proper. -/
theorem narrows_self_of_outcome {e : Expr K} {v : Value K} (h : e.outcome mode depth env = .ok v) :
    v.Narrows v := by
  obtain ⟨u, hu, hnarrows⟩ := outcome_tightens (.refl fun _ e _ => .same e) v h
  rw [h] at hu
  cases hu
  exact hnarrows

end Expr

/-! ## Searches -/

namespace Bisection

variable {b : Bisection K} {g : Expr K} {name : String} {env : Env K} {I J a : Interval K}

/-- An enclosure over an interval leaves one inside it over every narrower interval. -/
theorem enclose_narrows (h : I.Narrows J) (ha : (enclose g name J).value env = .ok a) :
    ∃ c, (enclose g name I).value env = .ok c ∧ c.Narrows a := by
  have henv : Env.Related Expr.Narrows (env.enter [(name, .intervalOf I.lo I.hi)])
      (env.enter [(name, .intervalOf J.lo J.hi)]) :=
    Env.Related.enter (.refl fun _ e _ => .same e) (.cons ⟨rfl, .inside h⟩ .nil)
  rw [enclose, Evaluation.value_within, Expr.value_evaluateInterval] at ha ⊢
  obtain ⟨w, hw, ha⟩ := bind_eq_ok.1 ha
  rw [henv.size_eq]
  obtain ⟨v, hv, hnarrows⟩ := Expr.outcome_tightens henv w hw
  rw [hv]
  cases hnarrows with
  | real => cases ha
  | vector => cases ha
  | interval hab =>
    cases ha
    exact ⟨_, rfl, hab⟩

/-- What halving makes of a window lies inside it. -/
theorem narrows_of_isCellOf {window cell : Interval K} (h : window.IsCellOf cell)
    (hwindow : window.lo ≤ window.hi) : cell.Narrows window :=
  Interval.narrows_iff.2 (h.bounds hwindow)

/-- A search whose first cell has an enclosure does not fail at any later one. -/
theorem exists_value_search {budget depth : Nat} {cell : Interval K} {effort : Effort}
    (hcell : cell.lo ≤ cell.hi) (ha : (enclose g name cell).value env = .ok a) :
    ∃ r, Evaluation.value ((b.search g name budget depth cell).run effort) env = .ok r := by
  induction budget generalizing depth cell effort a with
  | zero =>
    rw [value_search, ha]
    show ∃ r, (if a.containsZero = true then _ else _) = Except.ok r
    split
    · exact ⟨_, rfl⟩
    · exact ⟨_, rfl⟩
  | succ budget ih =>
    by_cases hzero : a.containsZero = true
    · by_cases hshort : cell.length < b.rootTolerance
      · exact ⟨_, value_search_short ha hzero hshort⟩
      · have hlower := narrows_of_isCellOf (.lower .whole) hcell
        have hupper := narrows_of_isCellOf (.upper .whole) hcell
        obtain ⟨c, hc, -⟩ := enclose_narrows hlower ha
        obtain ⟨d, hd, -⟩ := enclose_narrows hupper ha
        have hfirst : ∃ r, Evaluation.value
            ((b.search g name budget (depth + 1) cell.lowerHalf).run (effort.examine depth)) env =
              .ok r := ih hlower.proper hc
        obtain ⟨⟨leaf?, effort'⟩, hsearch⟩ := hfirst
        rw [value_search_halved ha hzero hshort, hsearch]
        cases leaf? with
        | none => exact ih hupper.proper hd
        | some leaf => exact ⟨_, rfl⟩
    · exact ⟨_, value_search_pruned ha (Bool.eq_false_iff.2 hzero)⟩

/-- A search whose first cell has no enclosure fails with the error of that evaluation. -/
theorem value_search_error {budget depth : Nat} {cell : Interval K} {effort : Effort}
    {err : EvalError K} (herr : (enclose g name cell).value env = .error err) :
    Evaluation.value ((b.search g name budget depth cell).run effort) env = .error err := by
  rw [value_search, herr]
  rfl

/-- A window fails if there is something to search and the first evaluation fails. -/
theorem value_findLeafWithin_eq_error {far : K} {err : EvalError K} (hepsilon : 0 ≤ b.epsilon) :
    (b.findLeafWithin g name far).value env = .error err ↔
      b.epsilon < min far b.maxDistance ∧
        (enclose g name ⟨0, min far b.maxDistance⟩).value env = .error err := by
  rw [value_findLeafWithin]
  split
  · rename_i hopen
    have hwindow : 0 ≤ min far b.maxDistance := hepsilon.trans hopen.le
    cases hfirst : (enclose g name ⟨0, min far b.maxDistance⟩).value env with
    | ok a =>
      have hsearch : ∃ r, Evaluation.value ((b.search g name
          (Scalar.halvings (min far b.maxDistance) b.rootTolerance) 0
            ⟨0, min far b.maxDistance⟩).run .zero) env = .ok r := exists_value_search hwindow hfirst
      obtain ⟨r, hr⟩ := hsearch
      rw [hr]
      simp
    | error first =>
      rw [value_search_error hfirst]
      simp [hopen]
  · rename_i hclosed
    simp [hclosed]

/-- Over a narrower interval an enclosure exists and is narrower.  So a search fails exactly if its
first evaluation fails, the one over the whole window. -/
theorem narrower_enclosure_and_first_error (g : Expr K) (name : String) (env : Env K) :
    (∀ I J a : Interval K, J.includes I = true → I.lo ≤ I.hi →
      (enclose g name J).value env = .ok a →
      ∃ c, (enclose g name I).value env = .ok c ∧ c.lo ≤ c.hi ∧ a.includes c = true) ∧
    ∀ (settings : Settings K) (b : Bisection K), ofSettings settings = .ok b →
      ∀ (far : K) (err : EvalError K),
        (b.findLeafWithin g name far).value env = .error err ↔
          b.epsilon < min far b.maxDistance ∧
            (enclose g name ⟨0, min far b.maxDistance⟩).value env = .error err := by
  constructor
  · intro I J a hinside hproper ha
    have hIJ := Interval.narrows_iff_includes.2 ⟨hproper, hinside⟩
    obtain ⟨c, hc, hnarrows⟩ := enclose_narrows hIJ ha
    exact ⟨c, hc, Interval.narrows_iff_includes.1 hnarrows⟩
  · intro settings b hb far err
    obtain ⟨⟨-, -, hepsilon, -⟩, rfl⟩ := ofSettings_eq_ok.1 hb
    exact value_findLeafWithin_eq_error hepsilon.le

/-- The reciprocal of `t`, which a function takes of its argument. -/
noncomputable def reciprocal : Expr ℝ :=
  .apply (.custom "f" ["u"] (.binary .div (.num 1) (.var "u"))) [.var "t"]

theorem enclose_reciprocal {cell : Interval ℝ} (h : cell.lo ≤ cell.hi) :
    (enclose reciprocal "t" cell).value .empty = (Interval.point 1).divide cell := by
  rw [enclose, Evaluation.value_within, Expr.value_evaluateInterval]
  simp [reciprocal, Expr.outcome_custom, Expr.outcome_binary, Expr.outcome_var, Expr.outcome_num,
    Expr.outcome_intervalOf, Env.enter, Env.empty, Bindings.empty, Bindings.putAll,
    Interval.ofBounds, h, Value.toExpr, bind, Except.bind, pure, Except.pure, Except.map]
  show Except.bind ((((Interval.point 1).divide cell).map Value.interval)) _ = _
  cases (Interval.point 1).divide cell <;> rfl

/-- The reciprocal has an enclosure over one to four and a narrower one over two to four.  A search
for its root fails at once, since its window holds zero. -/
theorem narrower_enclosure_and_first_error_reciprocal :
    ∃ (a c : Interval ℝ) (b : Bisection ℝ),
      (enclose reciprocal "t" ⟨1, 4⟩).value .empty = .ok a ∧
        (enclose reciprocal "t" ⟨2, 4⟩).value .empty = .ok c ∧ a.includes c = true ∧
        ofSettings ⟨10, 5, 1, 0⟩ = .ok b ∧
        (b.findLeafWithin reciprocal "t" 8).value .empty = .error .divisionByZero := by
  have hresult := narrower_enclosure_and_first_error reciprocal "t" (.empty : Env ℝ)
  have hb : ofSettings (⟨10, 5, 1, 0⟩ : Settings ℝ) = .ok ⟨10, 5, 1⟩ :=
    ofSettings_eq_ok.2 ⟨by norm_num, rfl⟩
  have hwide : (enclose reciprocal "t" ⟨1, 4⟩).value .empty = .ok (.point 1 * ⟨1 / 4, 1 / 1⟩) := by
    rw [enclose_reciprocal (by norm_num), Interval.divide, Interval.inverse, if_neg]
    · rfl
    · rw [Interval.containsZero_iff, Interval.mem_iff]
      norm_num
  obtain ⟨c, hc, -, hinside⟩ := hresult.1 ⟨2, 4⟩ ⟨1, 4⟩ _ (by simp [Interval.includes])
    (by norm_num) hwide
  have hwindow : min 8 10 = (8 : ℝ) := by norm_num
  have hfirst : (enclose reciprocal "t" ⟨0, min 8 10⟩).value .empty = .error .divisionByZero := by
    rw [hwindow, enclose_reciprocal (by norm_num), Interval.divide, Interval.inverse, if_pos]
    · rfl
    · rw [Interval.containsZero_iff, Interval.mem_iff]
      norm_num
  have hsearch := (hresult.2 ⟨10, 5, 1, 0⟩ _ hb 8 .divisionByZero).2 ⟨by norm_num, hfirst⟩
  exact ⟨_, c, _, hwide, hc, hinside, hb, hsearch⟩

end Bisection

end ZeroSet
