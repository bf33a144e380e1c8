import ZeroSet.Proofs.Applications
import ZeroSet.Proofs.Expansion
import Mathlib.Logic.Relation

/-!
# What names depend on

A bound name depends on the names that its binding mentions, these on further names, and so on.
Only the names that an expression depends on have a say in what it evaluates to.

* `Bindings.Refers` — the binding of one name mentions another one.
* `Bindings.Acyclic` — no name depends on itself.
* `Env.AgreeOn` — two environments in which the names of a set mean the same.
* `Expr.outcome_congr` — expressions over such a set have the same outcome in both.
-/

namespace ZeroSet

variable {K : Type}

/-! ## The graph of the bindings -/

namespace Bindings

/-- The first name is bound to an expression that mentions the second one. -/
def Refers (b : Bindings K) (m n : String) : Prop := ∃ e, b.get? m = some e ∧ n ∈ e.freeNames

/-- No name leads back to itself. -/
def Acyclic (b : Bindings K) : Prop := ∀ n, ¬Relation.TransGen b.Refers n n

/-- Bindings that only refer to names of a lower rank have no cycle. -/
theorem acyclic_of_rank {b : Bindings K} (rank : String → Nat)
    (h : ∀ m n, b.Refers m n → rank n < rank m) : b.Acyclic := by
  have hdescends : ∀ m n, Relation.TransGen b.Refers m n → rank n < rank m := by
    intro m n hpath
    induction hpath with
    | single hedge => exact h _ _ hedge
    | tail _ hedge ih => exact (h _ _ hedge).trans ih
  intro n hcycle
  exact Nat.lt_irrefl _ (hdescends n n hcycle)

end Bindings

/-! ## Agreement on a set of names -/

/-- The names of the set `S` mean the same in both environments, and all that they depend on
belongs to the set. -/
structure Env.AgreeOn (S : String → Prop) (left right : Env K) : Prop where
  /-- With a name the set holds the names that its binding mentions. -/
  closed : ∀ m n, S m → left.bindings.Refers m n → S n
  /-- A name has the same binding in both. -/
  bindings : ∀ n, S n → left.bindings.get? n = right.bindings.get? n
  /-- A name is being resolved in both or in neither. -/
  resolving : ∀ n, S n → (n ∈ left.resolving ↔ n ∈ right.resolving)

namespace Env.AgreeOn

variable {S : String → Prop} {left right env : Env K}

/-- An environment agrees with itself on all names. -/
theorem refl (env : Env K) : AgreeOn (fun _ => True) env env :=
  ⟨fun _ _ _ _ => trivial, fun _ _ => rfl, fun _ _ => Iff.rfl⟩

theorem resolve (h : AgreeOn S left right) (name : String) :
    AgreeOn S { left with resolving := name :: left.resolving }
      { right with resolving := name :: right.resolving } where
  closed := h.closed
  bindings := h.bindings
  resolving n hn := by
    rw [List.mem_cons, List.mem_cons, h.resolving n hn]

/-- Inside a function the parameters belong to the set as well. -/
theorem enter (h : AgreeOn S left right) {pairs : List (String × Expr K)}
    (hpairs : ∀ p ∈ pairs, p.2.isLiteral = true) :
    AgreeOn (fun n => n ∈ pairs.map Prod.fst ∨ S n) (left.enter pairs) (right.enter pairs) where
  closed m n hm := by
    rintro ⟨e, hget, hn⟩
    by_cases hmem : m ∈ pairs.map Prod.fst
    · -- a parameter stands for a literal, which mentions nothing
      obtain ⟨e', hpair, hget'⟩ := Bindings.get?_putAll_of_mem hmem
      cases hget.symm.trans (hget' left.bindings)
      rw [Expr.freeNames_of_isLiteral (hpairs _ hpair)] at hn
      cases hn
    · have hget' : left.bindings.get? m = some e := by
        rw [← hget]
        exact (Bindings.get?_putAll_of_notMem hmem).symm
      exact .inr (h.closed m n (hm.resolve_left hmem) ⟨e, hget', hn⟩)
  bindings n hn := by
    show (left.bindings.putAll pairs).get? n = (right.bindings.putAll pairs).get? n
    by_cases hmem : n ∈ pairs.map Prod.fst
    · obtain ⟨e, -, hget⟩ := Bindings.get?_putAll_of_mem hmem
      rw [hget, hget]
    · rw [Bindings.get?_putAll_of_notMem hmem, Bindings.get?_putAll_of_notMem hmem]
      exact h.bindings n (hn.resolve_left hmem)
  resolving n hn := by
    show n ∈ left.resolving.filter _ ↔ n ∈ right.resolving.filter _
    rw [List.mem_filter, List.mem_filter, decide_eq_true_eq]
    by_cases hmem : n ∈ pairs.map Prod.fst
    · exact iff_of_false (fun hc => hc.2 hmem) fun hc => hc.2 hmem
    · rw [h.resolving n (hn.resolve_left hmem)]

/-- In a call the body of a function may mention its parameters and the names of the set. -/
theorem call (h : AgreeOn S left right) {params : List String} {values : List (Value K)}
    (hcount : values.length = params.length) :
    AgreeOn (fun n => n ∈ params ∨ S n) (left.enter (params.zip (values.map Value.toExpr)))
      (right.enter (params.zip (values.map Value.toExpr))) := by
  have hliteral : ∀ p ∈ params.zip (values.map Value.toExpr), p.2.isLiteral = true :=
    fun p hp => Env.isLiteral_of_mem_zip hp
  have hinside := h.enter hliteral
  rwa [Env.names_of_zip hcount] at hinside

/-- A call leaves a set of names alone if it is closed and has no parameter. -/
theorem of_enter (hclosed : ∀ m n, S m → env.bindings.Refers m n → S n)
    {pairs : List (String × Expr K)} (hS : ∀ n, S n → n ∉ pairs.map Prod.fst) :
    AgreeOn S env (env.enter pairs) where
  closed := hclosed
  bindings n hn := (Bindings.get?_putAll_of_notMem (hS n hn)).symm
  resolving n hn := by
    show _ ↔ n ∈ env.resolving.filter _
    rw [List.mem_filter, decide_eq_true_eq]
    exact ⟨fun h => ⟨h, hS n hn⟩, And.left⟩

/-- A call inside a call binds the same parameters anew. -/
theorem enter_enter {outer inner : List (String × Expr K)}
    (h : outer.map Prod.fst = inner.map Prod.fst) :
    AgreeOn (fun _ => True) (env.enter inner) ((env.enter outer).enter inner) where
  closed _ _ _ _ := trivial
  bindings n _ := by
    show (env.bindings.putAll inner).get? n = ((env.bindings.putAll outer).putAll inner).get? n
    by_cases hn : n ∈ inner.map Prod.fst
    · obtain ⟨e, -, hget⟩ := Bindings.get?_putAll_of_mem hn
      rw [hget, hget]
    · rw [Bindings.get?_putAll_of_notMem hn, Bindings.get?_putAll_of_notMem hn,
        Bindings.get?_putAll_of_notMem (h ▸ hn)]
  resolving n _ := by
    show n ∈ env.resolving.filter _ ↔ n ∈ (env.resolving.filter _).filter _
    rw [h]
    exact ⟨fun hn => List.mem_filter.2 ⟨hn, (List.mem_filter.1 hn).2⟩,
      fun hn => (List.mem_filter.1 hn).1⟩

end Env.AgreeOn

/-! ## Outcomes depend on the names an expression depends on -/

namespace Expr

variable [Scalar K] {depth : Nat} {S : String → Prop} {left right : Env K}

/-- If variables have the same outcome in environments that agree, so has every expression. -/
theorem outcome_congr_of_variables
    (hvar : ∀ {name : String} {mode : Mode} {S : String → Prop} {left right : Env K},
      Env.AgreeOn S left right → S name →
        (var name).outcome mode depth left = (var name).outcome mode depth right)
    (e : Expr K) {mode : Mode} (henv : Env.AgreeOn S left right) (he : ∀ n ∈ e.freeNames, S n) :
    e.outcome mode depth left = e.outcome mode depth right := by
  induction e using expansionInduction generalizing mode S left right with
  | num v => rw [outcome_num, outcome_num]
  | var name => exact hvar henv (he name (List.mem_singleton_self name))
  | vec items ih =>
    rw [freeNames] at he
    have hitems : items.mapM (fun e => e.outcome .real depth left >>= Value.asReal) =
        items.mapM fun e => e.outcome .real depth right >>= Value.asReal :=
      mapM_congr fun e hmem => by
        rw [ih e hmem henv fun n hn => he n (mem_freeNamesList.2 ⟨e, hmem, hn⟩)]
    rw [outcome_vec, outcome_vec, hitems]
  | interval lo hi ihlo ihhi =>
    obtain ⟨hlo, hhi⟩ := List.forall_mem_append.1 he
    rw [outcome_interval, outcome_interval, ihlo henv hlo, ihhi henv hhi]
  | neg a ih => rw [outcome_neg, outcome_neg, ih henv he]
  | binary op a b iha ihb =>
    obtain ⟨ha, hb⟩ := List.forall_mem_append.1 he
    rw [outcome_binary, outcome_binary, iha henv ha, ihb henv hb]
  | power a b iha ihb =>
    obtain ⟨ha, hb⟩ := List.forall_mem_append.1 he
    rw [outcome_power, outcome_power, iha henv ha, ihb henv hb]
  | builtin f args ih =>
    simp only [mem_freeNames_apply] at he
    refine outcome_builtin_congr f (.of_forall_mem fun a ha => ?_)
    exact ih a ha henv fun n hn => he n (.inr ⟨a, ha, hn⟩)
  | custom f params body args ihargs ihbody =>
    simp only [mem_freeNames_apply, Func.mem_freeNames_custom] at he
    have hargs : SameOutcomes mode depth left right args args := .of_forall_mem fun a ha =>
      ihargs a ha henv fun n hn => he n (.inr ⟨a, ha, hn⟩)
    refine outcome_custom_congr hargs fun values hcount => ?_
    refine ihbody (henv.call hcount) fun n hn => ?_
    by_cases hparam : n ∈ params
    · exact .inl hparam
    · exact .inr (he n (.inl ⟨hn, hparam⟩))
  | comp inner outer args ih =>
    simp only [mem_freeNames_apply] at he
    rw [outcome_comp, outcome_comp]
    cases hexpanded : (Func.comp inner outer).expand args with
    | error err => rfl
    | ok expanded =>
      refine ih expanded hexpanded henv ?_
      exact (hereditary_freeNames S).expand hexpanded (fun n hn => he n (.inl hn))
        fun a ha n hn => he n (.inr ⟨a, ha, hn⟩)

/-- In two environments in which the names of a set mean the same, expressions over the set have
the same outcome. -/
theorem outcome_congr {e : Expr K} {mode : Mode} (henv : Env.AgreeOn S left right)
    (he : ∀ n ∈ e.freeNames, S n) : e.outcome mode depth left = e.outcome mode depth right := by
  induction depth generalizing e mode S left right with
  | zero =>
    refine outcome_congr_of_variables (fun {name mode S left right} henv hname => ?_) e henv he
    rw [outcome_var_zero_eq, outcome_var_zero_eq, henv.bindings name hname]
    simp only [henv.resolving name hname]
  | succ depth ih =>
    refine outcome_congr_of_variables (fun {name mode S left right} henv hname => ?_) e henv he
    rw [outcome_var, outcome_var, ← henv.bindings name hname]
    simp only [henv.resolving name hname]
    split
    · rfl
    · cases hget : left.bindings.get? name with
      | none => rfl
      | some bound =>
        exact ih (henv.resolve name) fun n hn => henv.closed name n hname ⟨bound, hget, hn⟩

end Expr

end ZeroSet
