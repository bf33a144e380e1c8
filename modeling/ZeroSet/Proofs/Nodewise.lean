import ZeroSet.Proofs.SimplificationSteps
import ZeroSet.Proofs.Termination

/-!
# What simplifying and differentiating keep of a tree

The rules of simplification fold literals, drop operands and put operands under other operators, but
they put nothing but literals into a tree that was not there.  They keep every property that a node
has exactly if its operands have it, as long as the new literals have it.  The rules of
differentiation put built-ins and differentiated bodies in addition.

* `Treewise` — such a property; `Nodewise` — one that all literals have.
* `Expr.FoldsInto` — what two literals are folded into wherever a pass folds them.
* `Treewise.step` — every rule of simplification keeps such a property.
* `Treewise.simplify`, `Nodewise.simplify` — and so does the whole pass.
* `Derivable` — such properties that built-ins have and that survive differentiating a body.
* `Derivable.derivative` — the derivative of an expression has them.
-/

namespace ZeroSet

variable {K : Type}

/-- A property that any node but a literal has exactly if its operands have it, as far as the pass
rearranges them.  In an application it may depend on the function. -/
structure Treewise (onExpr : Expr K → Prop) (onFunc : Func K → Prop) : Prop where
  /-- Vectors keep it if their elements do. -/
  vec : ∀ {items items'}, (∀ d ∈ items', ∃ e ∈ items, onExpr e → onExpr d) → onExpr (.vec items) →
    onExpr (.vec items')
  /-- Intervals take it from their bounds. -/
  interval : ∀ {lo hi}, onExpr (.interval lo hi) ↔ onExpr lo ∧ onExpr hi
  /-- Negations take it from their operands. -/
  neg : ∀ {a}, onExpr (.neg a) ↔ onExpr a
  /-- Sums, differences, products and quotients take it from their operands. -/
  binary : ∀ {op a b}, onExpr (.binary op a b) ↔ onExpr a ∧ onExpr b
  /-- Powers take it from base and exponent. -/
  power : ∀ {a b}, onExpr (.power a b) ↔ onExpr a ∧ onExpr b
  /-- Applications take it from the function and the arguments. -/
  apply : ∀ {f args}, onExpr (.apply f args) ↔ onFunc f ∧ ∀ a ∈ args, onExpr a

/-- Such a property that literals have. -/
structure Nodewise (onExpr : Expr K → Prop) (onFunc : Func K → Prop) : Prop extends
    Treewise onExpr onFunc where
  /-- Literals have the property. -/
  num : ∀ v, onExpr (.num v)

section

variable [Scalar K] {P : Expr K → Prop} {F : Func K → Prop} {good : K → Prop} {a d e : Expr K}

/-! ## Literals that a pass folds -/

/-- Wherever a pass comes upon two literals under an operator, their value is good. -/
inductive Expr.FoldsInto (good : K → Prop) : Expr K → Prop
  /-- A literal is not folded. -/
  | num (v : K) : FoldsInto good (.num v)
  /-- Nor is a variable. -/
  | var (name : String) : FoldsInto good (.var name)
  /-- Elements are folded one by one. -/
  | vec {items : List (Expr K)} (h : ∀ e ∈ items, FoldsInto good e) : FoldsInto good (.vec items)
  /-- Bounds are folded one by one. -/
  | interval {lo hi : Expr K} (hlo : FoldsInto good lo) (hhi : FoldsInto good hi) :
    FoldsInto good (.interval lo hi)
  /-- A sign is folded with nothing. -/
  | neg {a : Expr K} (ha : FoldsInto good a) : FoldsInto good (.neg a)
  /-- An operator whose operands become literals has a good value. -/
  | binary {op : BinOp} {a b : Expr K} (ha : FoldsInto good a) (hb : FoldsInto good b)
    (h : ∀ x y v, a.simplify = .ok (.num x) → b.simplify = .ok (.num y) → op.onReals x y = .ok v →
      good v) : FoldsInto good (.binary op a b)
  /-- The value of a power may be anything: it is folded only if it is finite. -/
  | power {a b : Expr K} (ha : FoldsInto good a) (hb : FoldsInto good b) :
    FoldsInto good (.power a b)
  /-- So is that of a built-in. -/
  | apply {f : Func K} {args : List (Expr K)} (h : ∀ a ∈ args, FoldsInto good a) :
    FoldsInto good (.apply f args)

theorem Expr.foldsInto_of_forall (h : ∀ v, good v) (e : Expr K) : e.FoldsInto good := by
  induction e using treeInduction with
  | num v => exact .num v
  | var name => exact .var name
  | vec items ih => exact .vec ih
  | interval lo hi ihlo ihhi => exact .interval ihlo ihhi
  | neg a ih => exact .neg ih
  | binary op a b iha ihb => exact .binary iha ihb fun _ _ v _ _ _ => h v
  | power a b iha ihb => exact .power iha ihb
  | apply f args ih => exact .apply ih

/-! ## Simplification -/

namespace Treewise

omit [Scalar K] in
theorem argument (H : Treewise P F) {f : Func K} (h : P (.apply f [a])) : P a :=
  (H.apply.1 h).2 a (List.mem_singleton_self a)

/-- A rule keeps the property, if the literals that it makes have it. -/
theorem step (H : Treewise P F)
    (hnum : ∀ v, v = 0 ∨ v = 1 ∨ Scalar.isFinite v = true → P (.num v))
    (hfolded : ∀ op x y v, e = .binary op (.num x) (.num y) → op.onReals x y = .ok v →
      P (.num v)) (h : Rule.Step e d) (he : P e) : P d := by
  induction h with
  | unchanged => exact he
  | neg_neg => exact H.neg.1 (H.neg.1 he)
  | folded hv => exact hfolded _ _ _ _ rfl hv
  | zero_add => exact (H.binary.1 he).2
  | add_zero => exact (H.binary.1 he).1
  | add_neg =>
    obtain ⟨ha, hc⟩ := H.binary.1 he
    exact H.binary.2 ⟨ha, H.neg.1 hc⟩
  | sub_zero => exact (H.binary.1 he).1
  | zero_sub _ _ ih =>
    refine ih ?_ (H.neg.2 (H.binary.1 he).2)
    rintro _ _ _ _ ⟨⟩
  | sub_neg =>
    obtain ⟨ha, hc⟩ := H.binary.1 he
    exact H.binary.2 ⟨ha, H.neg.1 hc⟩
  | one_mul => exact (H.binary.1 he).2
  | mul_one => exact (H.binary.1 he).1
  | neg_mul_neg =>
    obtain ⟨hc, hd⟩ := H.binary.1 he
    exact H.binary.2 ⟨H.neg.1 hc, H.neg.1 hd⟩
  | div_one => exact (H.binary.1 he).1
  | foldedPower hfinite => exact hnum _ (.inr (.inr hfinite))
  | power_one => exact (H.power.1 he).1
  | power_zero => exact hnum 1 (.inr (.inl rfl))
  | one_power => exact hnum 1 (.inr (.inl rfl))
  | foldedBuiltin _ hfinite => exact hnum _ (.inr (.inr hfinite))
  | exp_ln => exact H.argument (H.argument he)
  | exp_mul_ln =>
    obtain ⟨hb, hln⟩ := H.binary.1 (H.argument he)
    exact H.power.2 ⟨H.argument hln, hb⟩
  | exp_ln_mul =>
    obtain ⟨hln, hb⟩ := H.binary.1 (H.argument he)
    exact H.power.2 ⟨H.argument hln, hb⟩
  | ln_exp => exact H.argument (H.argument he)
  | _ => exact hnum 0 (.inl rfl)

/-- Simplifying keeps the property, if the literals that it makes have it. -/
theorem simplify (H : Treewise P F)
    (hnum : ∀ v, v = 0 ∨ v = 1 ∨ Scalar.isFinite v = true → P (.num v))
    (hgood : ∀ v, good v → P (.num v)) (hfolds : e.FoldsInto good) (he : P e)
    (h : e.simplify = .ok d) : P d := by
  refine Expr.simplifyInduction (R := fun e d => e.FoldsInto good → P e → P d) (fun _ _ => id)
    (fun _ _ => id) (fun hitems hfolds he => ?_) (fun hlo hhi hfolds he => ?_)
    (fun _ ha hstep hfolds he => ?_) (fun haeq hbeq ha hb hstep hfolds he => ?_)
    (fun _ _ ha hb hstep hfolds he => ?_) (fun hargs hstep hfolds he => ?_) h hfolds he
  · cases hfolds with
    | vec hall =>
      refine H.vec (fun d hd => ?_) he
      obtain ⟨item, hitem, hkept⟩ := exists_of_mem_forall₂ hitems.flip hd
      exact ⟨item, hitem, hkept (hall item hitem)⟩
  · cases hfolds with
    | interval hfoldslo hfoldshi =>
      obtain ⟨hle, hge⟩ := H.interval.1 he
      exact H.interval.2 ⟨hlo hfoldslo hle, hhi hfoldshi hge⟩
  · cases hfolds with
    | neg hfoldsa =>
      refine H.step hnum ?_ hstep (H.neg.2 (ha hfoldsa (H.neg.1 he)))
      rintro _ _ _ _ ⟨⟩
  · cases hfolds with
    | binary hfoldsa hfoldsb hfolded =>
      obtain ⟨hleft, hright⟩ := H.binary.1 he
      refine H.step hnum ?_ hstep (H.binary.2 ⟨ha hfoldsa hleft, hb hfoldsb hright⟩)
      rintro _ x y v ⟨⟩ hv
      exact hgood v (hfolded x y v haeq hbeq hv)
  · cases hfolds with
    | power hfoldsa hfoldsb =>
      obtain ⟨hbase, hexponent⟩ := H.power.1 he
      refine H.step hnum ?_ hstep (H.power.2 ⟨ha hfoldsa hbase, hb hfoldsb hexponent⟩)
      rintro _ _ _ _ ⟨⟩
  · cases hfolds with
    | apply hall =>
      obtain ⟨hf, harguments⟩ := H.apply.1 he
      refine H.step hnum ?_ hstep (H.apply.2 ⟨hf, fun a' ha' => ?_⟩)
      · rintro _ _ _ _ ⟨⟩
      · obtain ⟨a, ha, hkept⟩ := exists_of_mem_forall₂ hargs.flip ha'
        exact hkept (hall a ha) (harguments a ha)

end Treewise

/-- Simplifying keeps a property that literals have. -/
theorem Nodewise.simplify (H : Nodewise P F) (he : P e) (h : e.simplify = .ok d) : P d :=
  H.toTreewise.simplify (fun v _ => H.num v) (fun v _ => H.num v)
    (Expr.foldsInto_of_forall (fun _ => trivial) e) he h

end

/-! ## Derivatives -/

/-- Properties, one for each index, that derivatives keep: they are nodewise, compositions pass them
on to what they expand to, built-ins have them, and a function keeps them if its body is
differentiated.  A property of the body may have another index than that of the function. -/
structure Derivable [Scalar K] {ι : Type} (onExpr : ι → Expr K → Prop)
    (onFunc : ι → Func K → Prop) : Prop where
  /-- Each of them is nodewise. -/
  nodewise : ∀ i, Nodewise (onExpr i) (onFunc i)
  /-- Expansions inherit them. -/
  inherited : ∀ i, Inherited (onExpr i) (onFunc i)
  /-- Built-ins have them. -/
  builtin : ∀ i b, onFunc i (.builtin b)
  /-- A function keeps them if its body is replaced by a derivative that keeps them. -/
  custom : ∀ {i name params body param d}, onFunc i (.custom name params body) →
    Expr.derivative param body = .ok d → (∀ j, onExpr j body → onExpr j d) →
      onFunc i (.custom name params d)

namespace Derivable

open ZeroSet.Expr

variable [Scalar K] {ι : Type} {P : ι → Expr K → Prop} {F : ι → Func K → Prop} {i : ι}
  {a d e : Expr K} {name : String}

theorem applied (H : Derivable P F) (ha : P i a) (b : Builtin K) :
    P i (.apply (.builtin b) [a]) :=
  (H.nodewise i).apply.2 ⟨H.builtin i b, List.forall_mem_singleton.2 ha⟩

theorem derivativeAt (H : Derivable P F) (ha : P i a) (b : Builtin K) :
    P i (b.derivativeAt a) := by
  have hi := H.nodewise i
  cases b with
  | exp => exact H.applied ha .exp
  | ln => exact hi.binary.2 ⟨hi.num _, ha⟩
  | log base =>
    exact hi.binary.2 ⟨hi.num _, hi.binary.2 ⟨ha, H.applied (hi.num base) .ln⟩⟩
  | sqrt => exact hi.binary.2 ⟨hi.num _, hi.binary.2 ⟨hi.num _, H.applied ha .sqrt⟩⟩
  | root degree =>
    have hinverse : P i (.num 1 / .num degree) := hi.binary.2 ⟨hi.num _, hi.num _⟩
    exact hi.binary.2 ⟨hinverse, hi.power.2 ⟨ha, hi.binary.2 ⟨hinverse, hi.num _⟩⟩⟩

theorem sum (H : Derivable P F) {ts : List (Expr K)} (hts : ∀ t ∈ ts, P i t) :
    P i (Expr.sum ts) := by
  have hfoldl : ∀ {ts : List (Expr K)} {a : Expr K}, P i a → (∀ t ∈ ts, P i t) →
      P i (ts.foldl (· + ·) a) := by
    intro ts a ha hts
    induction ts generalizing a with
    | nil => exact ha
    | cons t ts ih =>
      obtain ⟨ht, hts⟩ := List.forall_mem_cons.1 hts
      exact ih ((H.nodewise i).binary.2 ⟨ha, ht⟩) hts
  cases ts with
  | nil => exact (H.nodewise i).num 0
  | cons t ts =>
    obtain ⟨ht, hts⟩ := List.forall_mem_cons.1 hts
    exact hfoldl ht hts

/-- The terms of the chain rule have a property if the applications of the differentiated body and
the derivatives of the arguments have it. -/
theorem chainTermsStep (H : Derivable P F)
    {recur : String → Expr K → Except (EvalError K) (Expr K)} {withBody : Expr K → Expr K}
    {body : Expr K} {params : List String} {args ts : List (Expr K)}
    (hbody : ∀ param d, recur param body = .ok d → P i (withBody d))
    (hargs : ∀ a ∈ args, ∀ d, recur name a = .ok d → P i d)
    (h : Expr.chainTermsStep recur name withBody body params args = .ok ts) :
    ∀ t ∈ ts, P i t := by
  induction params generalizing args ts with
  | nil =>
    rw [chainTermsStep.eq_def] at h
    cases h
    simp
  | cons param params ih =>
    cases args with
    | nil =>
      rw [chainTermsStep.eq_def] at h
      cases h
      simp
    | cons arg args =>
      obtain ⟨harg, hrest⟩ := List.forall_mem_cons.1 hargs
      rw [Expr.chainTermsStep] at h
      split at h
      · exact ih hrest h
      · obtain ⟨outer, houter, h⟩ := bind_eq_ok.1 h
        obtain ⟨inner, hinner, h⟩ := bind_eq_ok.1 h
        obtain ⟨terms, hterms, h⟩ := bind_eq_ok.1 h
        cases h
        refine List.forall_mem_cons.2 ⟨?_, ih hrest hterms⟩
        exact (H.nodewise i).binary.2 ⟨hbody param outer houter, harg inner hinner⟩

/-- The derivative in a name that the expression does not mention is zero. -/
theorem of_mentioned (H : Derivable P F) (h : e.derivative name = .ok d)
    (hmentioned : ¬(!e.dependsOn name) = true → P i d) : P i d := by
  by_cases hname : name ∈ e.freeNames
  · exact hmentioned (Expr.not_not_dependsOn hname)
  · cases (Expr.derivative_of_notMem hname).symm.trans h
    exact (H.nodewise i).num 0

/-- The derivative of an expression has the properties of the expression. -/
theorem derivative (H : Derivable P F) (he : P i e) (h : e.derivative name = .ok d) : P i d := by
  induction e using expansionInduction generalizing name i d with
  | num v =>
    refine H.of_mentioned h fun hname => ?_
    rw [Expr.derivative.eq_def, if_neg hname] at h
    cases h
    exact (H.nodewise i).num 0
  | var other =>
    refine H.of_mentioned h fun hname => ?_
    rw [Expr.derivative.eq_def, if_neg hname] at h
    cases h
    exact (H.nodewise i).num _
  | vec items ih =>
    refine H.of_mentioned h fun hname => ?_
    rw [derivative_eq_derivativeStep, derivativeStep, if_neg hname] at h
    obtain ⟨ds, hds, h⟩ := bind_eq_ok.1 h
    cases h
    refine (H.nodewise i).vec (fun d hd => ?_) he
    obtain ⟨item, hitem, hd⟩ := exists_of_mem_mapM hds hd
    exact ⟨item, hitem, fun hitem' => ih item hitem hitem' hd⟩
  | interval lo hi ihlo ihhi =>
    obtain ⟨hlo, hhi⟩ := (H.nodewise i).interval.1 he
    refine H.of_mentioned h fun hname => ?_
    rw [Expr.derivative.eq_def, if_neg hname] at h
    obtain ⟨dlo, hdlo, h⟩ := bind_eq_ok.1 h
    obtain ⟨dhi, hdhi, h⟩ := bind_eq_ok.1 h
    cases h
    exact (H.nodewise i).interval.2 ⟨ihlo hlo hdlo, ihhi hhi hdhi⟩
  | neg a ih =>
    refine H.of_mentioned h fun hname => ?_
    rw [Expr.derivative.eq_def, if_neg hname] at h
    obtain ⟨da, hda, h⟩ := bind_eq_ok.1 h
    cases h
    exact (H.nodewise i).neg.2 (ih ((H.nodewise i).neg.1 he) hda)
  | binary op a b iha ihb =>
    have hi := H.nodewise i
    obtain ⟨ha, hb⟩ := hi.binary.1 he
    refine H.of_mentioned h fun hname => ?_
    rw [Expr.derivative.eq_def, if_neg hname] at h
    obtain ⟨da, hda, h⟩ := bind_eq_ok.1 h
    obtain ⟨db, hdb, h⟩ := bind_eq_ok.1 h
    have hda := iha ha hda
    have hdb := ihb hb hdb
    cases h
    cases op with
    | add => exact hi.binary.2 ⟨hda, hdb⟩
    | sub => exact hi.binary.2 ⟨hda, hdb⟩
    | mul => exact hi.binary.2 ⟨hi.binary.2 ⟨hda, hb⟩, hi.binary.2 ⟨ha, hdb⟩⟩
    | div =>
      exact hi.binary.2 ⟨hi.binary.2 ⟨hi.binary.2 ⟨hda, hb⟩, hi.binary.2 ⟨ha, hdb⟩⟩,
        hi.power.2 ⟨hb, hi.num _⟩⟩
  | power a b iha ihb =>
    have hi := H.nodewise i
    obtain ⟨ha, hb⟩ := hi.power.1 he
    refine H.of_mentioned h fun hname => ?_
    rw [Expr.derivative.eq_def, if_neg hname] at h
    dsimp only at h
    split at h
    · obtain ⟨db, hdb, h⟩ := bind_eq_ok.1 h
      obtain ⟨da, hda, h⟩ := bind_eq_ok.1 h
      have hda := iha ha hda
      have hdb := ihb hb hdb
      have hln := H.applied ha .ln
      cases h
      exact hi.binary.2 ⟨H.applied (hi.binary.2 ⟨hb, hln⟩) .exp,
        hi.binary.2 ⟨hi.binary.2 ⟨hdb, hln⟩, hi.binary.2 ⟨hb, hi.binary.2 ⟨hda, ha⟩⟩⟩⟩
    · obtain ⟨da, hda, h⟩ := bind_eq_ok.1 h
      have hda := iha ha hda
      cases h
      exact hi.binary.2 ⟨hi.binary.2 ⟨hb, hi.power.2 ⟨ha, hi.binary.2 ⟨hb, hi.num _⟩⟩⟩, hda⟩
  | builtin f args ih =>
    obtain ⟨-, hargs⟩ := (H.nodewise i).apply.1 he
    refine H.of_mentioned h fun hname => ?_
    rw [Expr.derivative.eq_def, if_neg hname] at h
    obtain ⟨_, -, h⟩ := bind_eq_ok.1 h
    rcases args with _ | ⟨u, _ | ⟨_, _⟩⟩
    · cases h
    · obtain ⟨du, hdu, h⟩ := bind_eq_ok.1 h
      cases h
      have hu := List.mem_singleton_self u
      exact (H.nodewise i).binary.2
        ⟨H.derivativeAt (hargs u hu) f, ih u hu (hargs u hu) hdu⟩
    · cases h
  | custom f params body args ihargs ihbody =>
    obtain ⟨hf, hargs⟩ := (H.nodewise i).apply.1 he
    -- with a derivative of its body for the body, the function keeps its properties
    have hwithBody : ∀ param db, body.derivative param = .ok db →
        P i (.apply (.custom f params db) args) := by
      intro param db hdb
      exact (H.nodewise i).apply.2 ⟨H.custom hf hdb fun _ hbody => ihbody hbody hdb, hargs⟩
    refine H.of_mentioned h fun hname => ?_
    rw [derivative_eq_derivativeStep, derivativeStep, if_neg hname] at h
    obtain ⟨chained, hchained, h⟩ := bind_eq_ok.1 h
    have hterms := H.chainTermsStep hwithBody (fun a ha d hd => ihargs a ha (hargs a ha) hd)
      hchained
    split at h
    · obtain ⟨inner, hinner, h⟩ := bind_eq_ok.1 h
      cases h
      refine H.sum ?_
      intro t ht
      rcases List.mem_append.1 ht with ht | ht
      · exact hterms t ht
      · rw [List.mem_singleton.1 ht]
        exact hwithBody name inner hinner
    · cases h
      exact H.sum hterms
  | comp inner outer args ih =>
    obtain ⟨hf, hargs⟩ := (H.nodewise i).apply.1 he
    refine H.of_mentioned h fun hname => ?_
    rw [derivative_eq_derivativeStep, derivativeStep, if_neg hname] at h
    obtain ⟨expanded, hexpanded, h⟩ := bind_eq_ok.1 h
    exact ih expanded hexpanded ((H.inherited i).expand hexpanded hf hargs) h

end Derivable

end ZeroSet
