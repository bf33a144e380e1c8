import ZeroSet.Proofs.FreeNames
import ZeroSet.Proofs.Rewriting

/-!
# Renaming variables

Where every function that an expression applies mentions nothing but its parameters, the variables
of the expression can be renamed outside of these functions.  Renaming them and what they stand for
does not change what is computed, and as long as two variables do not become one it makes no
difference whether variables are renamed before an expression is differentiated or after.

* `Func.SelfContained` — a function that mentions nothing but its parameters.
* `Expr.Applies` — a property of all functions that an expression applies.
* `Expr.rename` — an expression with its variables renamed.
* `Expr.outcome_rename`, `Expr.Evaluates.rename` — what the renamed expression evaluates to.
* `Expr.derivative_rename` — its derivatives.
-/

namespace ZeroSet

variable {K : Type}

/-! ## Functions that stand on their own -/

/-- The function mentions nothing but its parameters, and evaluates all that it is applied to. -/
structure Func.SelfContained (f : Func K) : Prop where
  /-- Nothing is taken from outside. -/
  closed : ∀ n, n ∉ f.freeNames
  /-- All arguments are evaluated. -/
  strict : f.isStrict = true

/-- Every function that an expression applies has a property.  The bodies of these functions are
left out. -/
inductive Expr.Applies (F : Func K → Prop) : Expr K → Prop
  /-- A literal. -/
  | num {v : K} : Applies F (.num v)
  /-- A variable. -/
  | var {name : String} : Applies F (.var name)
  /-- A vector of such expressions. -/
  | vec {items : List (Expr K)} (h : ∀ e ∈ items, Applies F e) : Applies F (.vec items)
  /-- An interval between such expressions. -/
  | interval {lo hi : Expr K} (hlo : Applies F lo) (hhi : Applies F hi) :
    Applies F (.interval lo hi)
  /-- A negation. -/
  | neg {a : Expr K} (ha : Applies F a) : Applies F (.neg a)
  /-- A sum, difference, product or quotient. -/
  | binary {op : BinOp} {a b : Expr K} (ha : Applies F a) (hb : Applies F b) :
    Applies F (.binary op a b)
  /-- A power. -/
  | power {a b : Expr K} (ha : Applies F a) (hb : Applies F b) : Applies F (.power a b)
  /-- An application of a function that has the property. -/
  | apply {f : Func K} {args : List (Expr K)} (hf : F f) (hargs : ∀ a ∈ args, Applies F a) :
    Applies F (.apply f args)

theorem nodewise_applies (F : Func K → Prop) : Nodewise (Expr.Applies F) F where
  num _ := .num
  vec hitems h := by
    cases h with
    | vec h =>
      refine .vec fun d hd => ?_
      obtain ⟨e, he, hkeep⟩ := hitems d hd
      exact hkeep (h e he)
  interval := ⟨fun | .interval hlo hhi => ⟨hlo, hhi⟩, fun h => .interval h.1 h.2⟩
  neg := ⟨fun | .neg ha => ha, .neg⟩
  binary := ⟨fun | .binary ha hb => ⟨ha, hb⟩, fun h => .binary h.1 h.2⟩
  power := ⟨fun | .power ha hb => ⟨ha, hb⟩, fun h => .power h.1 h.2⟩
  apply := ⟨fun | .apply hf hargs => ⟨hf, hargs⟩, fun h => .apply h.1 h.2⟩

namespace Func.SelfContained

theorem comp {inner outer : Func K} (h : (Func.comp inner outer).SelfContained) :
    inner.SelfContained ∧ outer.SelfContained := by
  obtain ⟨-, hinner, houter⟩ := isStrict_comp.1 h.strict
  exact ⟨⟨fun n hn => h.closed n (List.mem_append_left _ hn), hinner⟩,
    ⟨fun n hn => h.closed n (List.mem_append_right _ hn), houter⟩⟩

theorem component {f g : Func K} {index : ℕ} (hg : f.component index = .ok g)
    (h : f.SelfContained) : g.SelfContained :=
  ⟨(hereditary_freeNames fun _ => False).component hg h.closed, isStrict_component hg h.strict⟩

theorem inherited : Inherited (K := K) (Expr.Applies SelfContained) SelfContained where
  apply := .apply
  parts := comp
  component := component

variable [Scalar K]

/-- A function still stands on its own when its body is differentiated. -/
theorem derivative {name param : String} {params : List String} {body d : Expr K}
    (h : (custom name params body).SelfContained) (hd : body.derivative param = .ok d) :
    (custom name params d).SelfContained := by
  have hover : (custom name params body).Over fun _ => False := h.closed
  exact ⟨over_custom.2 (Expr.over_derivative (over_custom.1 hover) hd), rfl⟩

theorem derivable :
    Derivable (K := K) (fun _ : Unit => Expr.Applies SelfContained) fun _ => SelfContained where
  nodewise _ := nodewise_applies _
  inherited _ := inherited
  builtin _ _ := ⟨fun _ => List.not_mem_nil, rfl⟩
  custom h hd _ := h.derivative hd

end Func.SelfContained

/-- A derivative applies nothing but functions that stand on their own if the expression does. -/
theorem Expr.Applies.derivative [Scalar K] {e d : Expr K} {name : String}
    (he : e.Applies Func.SelfContained) (h : e.derivative name = .ok d) :
    d.Applies Func.SelfContained :=
  Func.SelfContained.derivable.derivative (i := ()) he h

theorem Expr.Applies.appliesStrict {e : Expr K} (h : e.Applies Func.SelfContained) :
    e.appliesStrict = true := by
  induction h with
  | num => rfl
  | var => rfl
  | vec _ ih => exact appliesStrictList_iff.2 ih
  | interval _ _ ihlo ihhi => exact Bool.and_eq_true_iff.2 ⟨ihlo, ihhi⟩
  | neg _ ih => exact ih
  | binary _ _ iha ihb => exact Bool.and_eq_true_iff.2 ⟨iha, ihb⟩
  | power _ _ iha ihb => exact Bool.and_eq_true_iff.2 ⟨iha, ihb⟩
  | apply hf _ ih => exact Bool.and_eq_true_iff.2 ⟨hf.strict, appliesStrictList_iff.2 ih⟩

/-! ## Renaming -/

mutual

/-- The expression with its variables renamed.  Applied functions stay as they are. -/
def Expr.rename (ρ : String → String) : Expr K → Expr K
  | .num v => .num v
  | .var name => .var (ρ name)
  | .vec items => .vec (Expr.renameList ρ items)
  | .interval lo hi => .interval (lo.rename ρ) (hi.rename ρ)
  | .neg a => .neg (a.rename ρ)
  | .binary op a b => .binary op (a.rename ρ) (b.rename ρ)
  | .power a b => .power (a.rename ρ) (b.rename ρ)
  | .apply f args => .apply f (Expr.renameList ρ args)

/-- The expressions of a list with their variables renamed. -/
def Expr.renameList (ρ : String → String) : List (Expr K) → List (Expr K)
  | [] => []
  | e :: es => e.rename ρ :: Expr.renameList ρ es

end

variable {ρ : String → String}

theorem Expr.renameList_eq_map (ρ : String → String) :
    ∀ es : List (Expr K), Expr.renameList ρ es = es.map (Expr.rename ρ)
  | [] => rfl
  | e :: es => by rw [renameList, renameList_eq_map ρ es, List.map_cons]

/-- Renaming rewrites an expression and leaves the functions alone. -/
def variableRenaming (ρ : String → String) : Rewriting K where
  onExpr := Expr.rename ρ
  onFunc f := f
  inBody _ body := body
  apply f args := by rw [Expr.rename, Expr.renameList_eq_map]
  custom _ _ _ := rfl
  comp _ _ := rfl
  builtin _ := rfl
  vec _ items := by rw [List.map_id']

theorem keepsInner_variableRenaming : ∀ f : Func K, (variableRenaming ρ).KeepsInner f
  | .comp _ outer => ⟨rfl, keepsInner_variableRenaming outer⟩
  | .custom _ _ _ => trivial
  | .builtin _ => trivial

/-- Variables can be renamed before an application is expanded or after. -/
theorem Func.expand_rename [Scalar K] (f : Func K) (args : List (Expr K)) :
    f.expand (args.map (Expr.rename ρ)) = (f.expand args).map (Expr.rename ρ) :=
  (variableRenaming ρ).expand_onFunc (keepsInner_variableRenaming f) args

namespace Expr

/-- The free names of the renamed expression are the renamed free names. -/
theorem mem_freeNames_rename {e : Expr K} (he : e.Applies Func.SelfContained) {n : String} :
    n ∈ (e.rename ρ).freeNames ↔ ∃ m ∈ e.freeNames, ρ m = n := by
  have hlist : ∀ {es : List (Expr K)},
      (∀ e ∈ es, (n ∈ (e.rename ρ).freeNames ↔ ∃ m ∈ e.freeNames, ρ m = n)) →
        (n ∈ freeNamesList (renameList ρ es) ↔ ∃ m ∈ freeNamesList es, ρ m = n) := by
    intro es h
    induction es with
    | nil => simp [renameList, freeNamesList]
    | cons e es ih =>
      obtain ⟨he, hes⟩ := List.forall_mem_cons.1 h
      rw [renameList, freeNamesList, freeNamesList, List.mem_append, he, ih hes]
      simp only [List.mem_append, or_and_right, exists_or]
  induction he with
  | num => simp [rename, freeNames]
  | var => simp [rename, freeNames, eq_comm]
  | vec _ ih => exact hlist ih
  | interval _ _ ihlo ihhi =>
    simp only [rename, freeNames, List.mem_append, ihlo, ihhi, or_and_right, exists_or]
  | neg _ ih => exact ih
  | binary _ _ iha ihb =>
    simp only [rename, freeNames, List.mem_append, iha, ihb, or_and_right, exists_or]
  | power _ _ iha ihb =>
    simp only [rename, freeNames, List.mem_append, iha, ihb, or_and_right, exists_or]
  | apply hf _ ih =>
    rw [rename, freeNames, freeNames, List.eq_nil_iff_forall_not_mem.2 hf.closed]
    exact hlist ih

/-! ## What the renamed expression evaluates to -/

variable {e : Expr K} {S : String → Prop} {depth : ℕ} {left right : Env K}

/-- The new names have in one environment the outcomes that the old ones of a set have in the
other one. -/
def Renames [Scalar K] (ρ : String → String) (S : String → Prop) (depth : ℕ)
    (left right : Env K) : Prop :=
  ∀ n, S n → ∀ mode, (var n).outcome mode depth left = (var (ρ n)).outcome mode depth right

/-- If the new names stand for what the old ones stood for, the renamed expression has the outcome
of the expression. -/
theorem outcome_rename [Scalar K] (hρ : Renames ρ S depth left right)
    (he : e.Applies Func.SelfContained) (hS : e.Over S) (mode : Mode) :
    e.outcome mode depth left = (e.rename ρ).outcome mode depth right := by
  induction he generalizing mode with
  | num => rw [rename, outcome_num, outcome_num]
  | var => exact hρ _ (over_var.1 hS) mode
  | @vec items _ ih =>
    have hitems : items.mapM (fun e => e.outcome .real depth left >>= Value.asReal) =
        items.mapM fun e => (e.rename ρ).outcome .real depth right >>= Value.asReal :=
      mapM_congr fun e hmem => by rw [ih e hmem (over_vec.1 hS e hmem)]
    rw [rename, renameList_eq_map, outcome_vec, outcome_vec, List.mapM_map, hitems]
    rfl
  | interval _ _ ihlo ihhi =>
    obtain ⟨hlo, hhi⟩ := over_interval.1 hS
    rw [rename, outcome_interval, outcome_interval, ihlo hlo, ihhi hhi]
  | neg _ ih => rw [rename, outcome_neg, outcome_neg, ih (over_neg.1 hS)]
  | binary _ _ iha ihb =>
    obtain ⟨ha, hb⟩ := over_binary.1 hS
    rw [rename, outcome_binary, outcome_binary, iha ha, ihb hb]
  | power _ _ iha ihb =>
    obtain ⟨ha, hb⟩ := over_power.1 hS
    rw [rename, outcome_power, outcome_power, iha ha, ihb hb]
  | @apply f args hf _ ih =>
    obtain ⟨-, hargs⟩ := over_apply.1 hS
    have hagree : Env.AgreeOn (fun _ => False) left right :=
      ⟨fun _ _ h _ => h, fun _ h => h.elim, fun _ h => h.elim⟩
    rw [rename, renameList_eq_map]
    refine outcome_apply_congr f hagree hf.closed ?_
    rw [SameOutcomes, List.forall₂_map_right_iff, List.forall₂_same]
    exact fun a ha => ih a ha (hargs a ha) mode

section

variable [ExactScalar K] {x : K}

/-- It is defined where the expression is. -/
theorem Defined.rename (hρ : Renames ρ S depth left right) (he : e.Applies Func.SelfContained)
    (hS : e.Over S) (h : e.Defined depth left) : (e.rename ρ).Defined depth right := by
  have hyields : ∀ {a : Expr K} {x : K}, a.Applies Func.SelfContained → a.Over S →
      a.Yields depth left x → (a.rename ρ).Yields depth right x :=
    fun ha hS hx => (outcome_rename hρ ha hS .real).symm.trans hx
  induction h with
  | num => exact .num
  | var => exact .var
  | neg _ ih => exact .neg (ih ((nodewise_applies _).neg.1 he) (over_neg.1 hS))
  | binary _ _ iha ihb =>
    obtain ⟨hea, heb⟩ := (nodewise_applies _).binary.1 he
    obtain ⟨hSa, hSb⟩ := over_binary.1 hS
    exact .binary (iha hea hSa) (ihb heb hSb)
  | power hx hy hxy _ _ iha ihb =>
    obtain ⟨hea, heb⟩ := (nodewise_applies _).power.1 he
    obtain ⟨hSa, hSb⟩ := over_power.1 hS
    exact .power (hyields hea hSa hx) (hyields heb hSb hy) hxy (iha hea hSa) (ihb heb hSb)
  | builtin hx hfx _ ih =>
    have hea := (nodewise_applies _).argument he
    have hSa := nodewise_over.argument hS
    exact .builtin (hyields hea hSa hx) hfx (ih hea hSa)
  | custom _ ih =>
    obtain ⟨-, hea⟩ := (nodewise_applies _).apply.1 he
    obtain ⟨-, hSa⟩ := over_apply.1 hS
    rw [Expr.rename, renameList_eq_map]
    refine .custom (List.forall_mem_map.2 fun a ha => ih a ha (hea a ha) (hSa a ha))
  | comp _ ih =>
    obtain ⟨-, hea⟩ := (nodewise_applies _).apply.1 he
    obtain ⟨-, hSa⟩ := over_apply.1 hS
    rw [Expr.rename, renameList_eq_map]
    refine .comp (List.forall_mem_map.2 fun a ha => ih a ha (hea a ha) (hSa a ha))

/-- The renamed expression has the value of the expression, with nothing undefined on the way. -/
theorem Evaluates.rename (hρ : Renames ρ S depth left right) (he : e.Applies Func.SelfContained)
    (hS : e.Over S) (h : e.Evaluates depth left x) : (e.rename ρ).Evaluates depth right x :=
  ⟨(outcome_rename hρ he hS .real).symm.trans h.yields, h.defined.rename hρ he hS⟩

end

/-! ## Derivatives of the renamed expression -/

variable {name : String}

/-- The renamed expression mentions the new name if the expression mentions the old one. -/
theorem dependsOn_rename (he : e.Applies Func.SelfContained)
    (hρ : e.Over fun n => ρ n = ρ name → n = name) :
    (e.rename ρ).dependsOn (ρ name) = e.dependsOn name := by
  rw [Bool.eq_iff_iff, dependsOn_iff, dependsOn_iff, mem_freeNames_rename he]
  constructor
  · rintro ⟨m, hm, heq⟩
    rwa [← hρ m hm heq]
  · exact fun h => ⟨name, h, rfl⟩

variable [Scalar K]

theorem rename_derivativeAt (a : Expr K) (b : Builtin K) :
    (b.derivativeAt a).rename ρ = b.derivativeAt (a.rename ρ) := by
  cases b <;> rfl

theorem rename_sum (ts : List (Expr K)) :
    (Expr.sum ts).rename ρ = Expr.sum (ts.map (Expr.rename ρ)) := by
  cases ts with
  | nil => rfl
  | cons t ts =>
    rw [List.map_cons, sum, sum, List.foldl_map]
    exact (List.foldl_hom (rename ρ) fun _ _ => rfl).symm

/-- Of an application of a function that stands on its own only the arguments are differentiated,
not what else the body mentions. -/
theorem derivative_apply_of_selfContained {f : String} {params : List String} {body : Expr K}
    {args : List (Expr K)} (hf : (Func.custom f params body).SelfContained)
    (hname : ¬(!(apply (.custom f params body) args).dependsOn name) = true) :
    (apply (.custom f params body) args).derivative name =
      (chainTermsStep (fun name e => e.derivative name) name
        (fun body => apply (.custom f params body) args) body params args).map Expr.sum := by
  have hbody : ¬(decide (name ∉ params) && body.dependsOn name) = true := by
    intro hn
    rw [Bool.and_eq_true, decide_eq_true_eq, dependsOn_iff] at hn
    exact hf.closed name (Func.mem_freeNames_custom.2 ⟨hn.2, hn.1⟩)
  rw [derivative_eq_derivativeStep, derivativeStep, if_neg hname]
  dsimp only
  cases chainTermsStep (fun name e => e.derivative name) name
    (fun body => apply (.custom f params body) args) body params args with
  | error err => rfl
  | ok ts => exact if_neg hbody

/-- The terms of the chain rule can be renamed before or after. -/
theorem chainTerms_rename {withBody withBody' : Expr K → Expr K} (body : Expr K)
    (hbody : ∀ d, withBody' d = (withBody d).rename ρ) {args : List (Expr K)}
    (hdepends : ∀ a ∈ args, (a.rename ρ).dependsOn (ρ name) = a.dependsOn name)
    (hargs : ∀ a ∈ args, (a.rename ρ).derivative (ρ name) = (a.derivative name).map (rename ρ))
    (params : List String) :
    chainTermsStep (fun name e => e.derivative name) (ρ name) withBody' body params
        (args.map (rename ρ)) =
      (chainTermsStep (fun name e => e.derivative name) name withBody body params args).map
        (List.map (rename ρ)) := by
  induction params generalizing args with
  | nil => rw [chainTermsStep.eq_def, chainTermsStep.eq_def]; rfl
  | cons param params ih =>
    cases args with
    | nil => rfl
    | cons arg args =>
      obtain ⟨hdepend, hdepends⟩ := List.forall_mem_cons.1 hdepends
      obtain ⟨harg, hargs⟩ := List.forall_mem_cons.1 hargs
      rw [List.map_cons, chainTermsStep, chainTermsStep, hdepend, ih hdepends hargs, harg]
      split
      · rfl
      · cases body.derivative param with
        | error err => rfl
        | ok outer =>
          cases arg.derivative name with
          | error err => rfl
          | ok inner =>
            cases chainTermsStep (fun name e => e.derivative name) name withBody body params
              args with
            | error err => rfl
            | ok terms => exact congrArg (fun t => Except.ok ((t * inner.rename ρ) :: _)) (hbody _)

/-- What an expression does not mention it does not mention under another name either, and then the
derivatives are zero. -/
theorem derivative_rename_of_mentioned (he : e.Applies Func.SelfContained)
    (hρ : e.Over fun n => ρ n = ρ name → n = name)
    (h : ¬(!e.dependsOn name) = true → ¬(!(e.rename ρ).dependsOn (ρ name)) = true →
      (e.rename ρ).derivative (ρ name) = (e.derivative name).map (rename ρ)) :
    (e.rename ρ).derivative (ρ name) = (e.derivative name).map (rename ρ) := by
  have hdepends := dependsOn_rename he hρ
  by_cases hname : (!e.dependsOn name) = true
  · rw [derivative_of_notMem (not_dependsOn_iff.1 hname),
      derivative_of_notMem (not_dependsOn_iff.1 (hdepends ▸ hname))]
    rfl
  · exact h hname (by rwa [hdepends])

/-- As long as no other variable becomes the one that is differentiated in, the derivative of the
renamed expression is the renamed derivative. -/
theorem derivative_rename (he : e.Applies Func.SelfContained)
    (hρ : e.Over fun n => ρ n = ρ name → n = name) :
    (e.rename ρ).derivative (ρ name) = (e.derivative name).map (rename ρ) := by
  have happlies := nodewise_applies (K := K) Func.SelfContained
  induction e using expansionInduction with
  | num v =>
    refine derivative_rename_of_mentioned he hρ fun hname _ => ?_
    exact (hname rfl).elim
  | var other =>
    refine derivative_rename_of_mentioned he hρ fun hname hname' => ?_
    have hmem : name ∈ (var other : Expr K).freeNames := dependsOn_iff.1 (by simpa using hname)
    cases List.mem_singleton.1 hmem
    rw [rename] at hname' ⊢
    rw [derivative.eq_def, derivative.eq_def name, if_neg hname, if_neg hname']
    dsimp only
    rw [if_pos rfl, if_pos rfl]
    rfl
  | vec items ih =>
    refine derivative_rename_of_mentioned he hρ fun hname hname' => ?_
    have hitems : (items.map (rename ρ)).mapM (fun e : Expr K => e.derivative (ρ name)) =
        (items.mapM fun e : Expr K => e.derivative name).map (List.map (rename ρ)) := by
      rw [map_mapM, List.mapM_map]
      cases he with
      | vec he => exact mapM_congr fun e hmem => ih e hmem (he e hmem) (over_vec.1 hρ e hmem)
    rw [rename, renameList_eq_map] at hname' ⊢
    rw [derivative_eq_derivativeStep, derivative_eq_derivativeStep name, derivativeStep,
      derivativeStep, if_neg hname, if_neg hname', hitems]
    cases items.mapM fun e => e.derivative name with
    | error err => rfl
    | ok ds => exact congrArg (fun es => Except.ok (vec es)) (renameList_eq_map ρ ds).symm
  | interval lo hi ihlo ihhi =>
    refine derivative_rename_of_mentioned he hρ fun hname hname' => ?_
    obtain ⟨helo, hehi⟩ := happlies.interval.1 he
    obtain ⟨hlo, hhi⟩ := over_interval.1 hρ
    rw [rename] at hname' ⊢
    rw [derivative.eq_def, derivative.eq_def name, if_neg hname, if_neg hname']
    dsimp only
    rw [ihlo helo hlo, ihhi hehi hhi]
    cases lo.derivative name with
    | error err => rfl
    | ok dlo => cases hi.derivative name <;> rfl
  | neg a ih =>
    refine derivative_rename_of_mentioned he hρ fun hname hname' => ?_
    rw [rename] at hname' ⊢
    rw [derivative.eq_def, derivative.eq_def name, if_neg hname, if_neg hname']
    dsimp only
    rw [ih (happlies.neg.1 he) (over_neg.1 hρ)]
    cases a.derivative name <;> rfl
  | binary op a b iha ihb =>
    refine derivative_rename_of_mentioned he hρ fun hname hname' => ?_
    obtain ⟨hea, heb⟩ := happlies.binary.1 he
    obtain ⟨ha, hb⟩ := over_binary.1 hρ
    rw [rename] at hname' ⊢
    rw [derivative.eq_def, derivative.eq_def name, if_neg hname, if_neg hname']
    dsimp only
    rw [iha hea ha, ihb heb hb]
    cases a.derivative name with
    | error err => rfl
    | ok da =>
      cases b.derivative name with
      | error err => rfl
      | ok db => cases op <;> rfl
  | power a b iha ihb =>
    refine derivative_rename_of_mentioned he hρ fun hname hname' => ?_
    obtain ⟨hea, heb⟩ := happlies.power.1 he
    obtain ⟨ha, hb⟩ := over_power.1 hρ
    rw [rename] at hname' ⊢
    rw [derivative.eq_def, derivative.eq_def name, if_neg hname, if_neg hname']
    dsimp only
    rw [iha hea ha, ihb heb hb, dependsOn_rename heb hb]
    split
    · cases b.derivative name with
      | error err => rfl
      | ok db => cases a.derivative name <;> rfl
    · cases a.derivative name <;> rfl
  | builtin f args ih =>
    refine derivative_rename_of_mentioned he hρ fun hname hname' => ?_
    obtain ⟨-, hea⟩ := happlies.apply.1 he
    obtain ⟨-, hargs⟩ := over_apply.1 hρ
    rw [rename] at hname' ⊢
    rw [derivative.eq_def, derivative.eq_def name, if_neg hname, if_neg hname']
    dsimp only
    cases f.check with
    | error err => rfl
    | ok _ =>
      rcases args with _ | ⟨u, _ | ⟨_, _⟩⟩
      · rfl
      · have hu := List.mem_singleton_self u
        show ((u.rename ρ).derivative (ρ name) >>= fun du =>
          pure (f.derivativeAt (u.rename ρ) * du)) = _
        rw [ih u hu (hea u hu) (hargs u hu), ← rename_derivativeAt]
        show _ = (u.derivative name >>= fun du => pure (f.derivativeAt u * du)).map (rename ρ)
        cases u.derivative name <;> rfl
      · show Except.error _ = Except.error _
        simp only [renameList_eq_map, List.length_cons, List.length_map]
  | custom f params body args ihargs _ =>
    refine derivative_rename_of_mentioned he hρ fun hname hname' => ?_
    obtain ⟨hf, hea⟩ := happlies.apply.1 he
    obtain ⟨-, hargs⟩ := over_apply.1 hρ
    have hchain : chainTermsStep (fun name e => e.derivative name) (ρ name)
        (fun body => apply (.custom f params body) (args.map (rename ρ))) body params
          (args.map (rename ρ)) =
        (chainTermsStep (fun name e => e.derivative name) name
          (fun body => apply (.custom f params body) args) body params args).map
            (List.map (rename ρ)) :=
      chainTerms_rename body (fun d => by rw [rename, renameList_eq_map])
        (fun a ha => dependsOn_rename (hea a ha) (hargs a ha))
        (fun a ha => ihargs a ha (hea a ha) (hargs a ha)) params
    rw [rename, renameList_eq_map] at hname' ⊢
    rw [derivative_apply_of_selfContained hf hname, derivative_apply_of_selfContained hf hname',
      hchain]
    cases chainTermsStep (fun name e => e.derivative name) name
      (fun body => apply (.custom f params body) args) body params args with
    | error err => rfl
    | ok ts => exact congrArg Except.ok (rename_sum ts).symm
  | comp inner outer args ih =>
    refine derivative_rename_of_mentioned he hρ fun hname hname' => ?_
    obtain ⟨hf, hea⟩ := happlies.apply.1 he
    obtain ⟨hfρ, hargs⟩ := over_apply.1 hρ
    rw [rename, renameList_eq_map] at hname' ⊢
    rw [derivative_eq_derivativeStep, derivative_eq_derivativeStep name, derivativeStep,
      derivativeStep, if_neg hname, if_neg hname', Func.expand_rename]
    cases hexpanded : (Func.comp inner outer).expand args with
    | error err => rfl
    | ok expanded =>
      exact ih expanded hexpanded (Func.SelfContained.inherited.expand hexpanded hf hea)
        ((hereditary_freeNames _).expand hexpanded hfρ hargs)

end Expr

end ZeroSet
