import ZeroSet.Proofs.Dependencies

/-!
# Applications of compositions

An application of a composition is evaluated as its expansion, in which the outer function is
applied to the components of the inner one.  What holds of the expansion therefore rests on the
components of the inner function rather than on the inner function itself.

* `Alike` — two results that are the same error or related values.
* `Expr.outcome_apply_congr` — applications of a function to arguments with the same outcomes
  have the same outcome, whatever functions it is composed of.
* `Func.isStrict` — no function without components stands inside a composition.
* `Expr.exists_outcome_of_isStrict` — applying such a function evaluates the arguments.
* `Func.mem_freeNames_expand` — expanding it leaves out no free name.
-/

namespace ZeroSet

variable {K : Type}

/-! ## Results that are alike -/

/-- Two results are the same error, or two values that are related. -/
inductive Alike {ε α β : Type} (R : α → β → Prop) : Except ε α → Except ε β → Prop
  /-- Both fail, with the same error. -/
  | error (err : ε) : Alike R (.error err) (.error err)
  /-- Both succeed, with related values. -/
  | ok {a : α} {b : β} (h : R a b) : Alike R (.ok a) (.ok b)

namespace Alike

variable {ε α β γ : Type} {R : α → β → Prop} {x : Except ε α} {y : Except ε β}

theorem bind_eq {f : α → Except ε γ} {g : β → Except ε γ} (h : Alike R x y)
    (hfg : ∀ a b, R a b → f a = g b) : (x >>= f) = (y >>= g) := by
  cases h with
  | error err => rfl
  | ok hab => exact hfg _ _ hab

theorem mapM {f : γ → Except ε α} {g : γ → Except ε β} {cs : List γ}
    (h : ∀ c ∈ cs, Alike R (f c) (g c)) : Alike (List.Forall₂ R) (cs.mapM f) (cs.mapM g) := by
  induction cs with
  | nil => exact .ok .nil
  | cons c cs ih =>
    have hrest := ih fun c' hc' => h c' (List.mem_cons_of_mem _ hc')
    have hc := h c (List.mem_cons_self ..)
    rw [List.mapM_cons, List.mapM_cons]
    generalize f c = x at hc
    generalize g c = y at hc
    cases hc with
    | error err => exact .error err
    | ok hab =>
      generalize cs.mapM f = xs at hrest
      generalize cs.mapM g = ys at hrest
      cases hrest with
      | error err => exact .error err
      | ok habs => exact .ok (.cons hab habs)

end Alike

/-! ## From the arguments to the application -/

namespace Func

variable [Scalar K] {R : Expr K → Expr K → Prop} {f : Func K} {args args' : List (Expr K)}

/-- Whether a function can be applied is only a matter of the number of arguments. -/
theorem alike_apply (hlength : args.length = args'.length)
    (h : R (.apply f args) (.apply f args')) : Alike R (f.apply args) (f.apply args') := by
  unfold apply
  rw [hlength]
  split
  · exact .error _
  · split
    · rename_i b _
      cases b.check with
      | error err => exact .error err
      | ok _ => exact .ok h
    · exact .ok h

theorem alike_applyComponents (hlength : args.length = args'.length)
    (h : ∀ index g, f.component index = .ok g → R (.apply g args) (.apply g args')) :
    Alike (List.Forall₂ R) (f.applyComponents args) (f.applyComponents args') := by
  refine Alike.mapM fun index _ => ?_
  cases hg : f.component index with
  | error err => exact .error err
  | ok g => exact alike_apply hlength (h index g hg)

end Func

namespace Expr

variable [Scalar K] {mode : Mode} {depth : Nat} {left right : Env K} {args args' : List (Expr K)}

/-- If two applications have the same outcome, so have their expansions. -/
theorem outcome_expand_congr {f : Func K} (hlength : args.length = args'.length)
    (h : (apply f args).outcome mode depth left = (apply f args').outcome mode depth right) :
    (f.expand args >>= fun e => e.outcome mode depth left) =
      f.expand args' >>= fun e => e.outcome mode depth right := by
  cases f with
  | comp inner outer =>
    rw [outcome_comp, outcome_comp] at h
    exact h
  | _ => exact (Func.alike_apply hlength h).bind_eq fun _ _ heq => heq

/-- Applications of a composition have the same outcome if those of the components of the inner
function have, and those of the outer function to arguments with the same outcomes. -/
theorem outcome_comp_congr {inner outer : Func K} (hlength : args.length = args'.length)
    (hinner : ∀ index g, inner.component index = .ok g →
      (apply g args).outcome mode depth left = (apply g args').outcome mode depth right)
    (houter : ∀ mid mid', SameOutcomes mode depth left right mid mid' →
      (apply outer mid).outcome mode depth left = (apply outer mid').outcome mode depth right) :
    (apply (.comp inner outer) args).outcome mode depth left =
      (apply (.comp inner outer) args').outcome mode depth right := by
  rw [outcome_comp, outcome_comp, Func.expand, Func.expand, bind_assoc, bind_assoc]
  have halike : Alike (SameOutcomes mode depth left right) (inner.applyComponents args)
      (inner.applyComponents args') := Func.alike_applyComponents hlength hinner
  refine halike.bind_eq fun mid mid' hmid => ?_
  exact outcome_expand_congr hmid.length_eq (houter mid mid' hmid)

/-- Where the names that a function takes from outside mean the same, its applications to
arguments with the same outcomes have the same outcome. -/
theorem outcome_apply_congr {S : String → Prop} (f : Func K) (henv : Env.AgreeOn S left right)
    (hf : ∀ n ∈ f.freeNames, S n) (h : SameOutcomes mode depth left right args args') :
    (apply f args).outcome mode depth left = (apply f args').outcome mode depth right := by
  induction f using Func.componentInduction generalizing args args' with
  | custom name params body =>
    refine outcome_custom_congr h fun values hcount => ?_
    refine outcome_congr (henv.call hcount) fun n hn => ?_
    by_cases hparam : n ∈ params
    · exact .inl hparam
    · exact .inr (hf n (Func.mem_freeNames_custom.2 ⟨hn, hparam⟩))
  | builtin b => exact outcome_builtin_congr b h
  | comp inner outer ihinner ihouter =>
    obtain ⟨hinner, houter⟩ := List.forall_mem_append.1 hf
    refine outcome_comp_congr h.length_eq (fun index g hg => ?_) fun mid mid' hmid => ?_
    · exact ihinner index g hg ((hereditary_freeNames S).component hg hinner) h
    · exact ihouter houter hmid

end Expr

/-! ## From the application to the arguments -/

/-- Whether an application has to evaluate its arguments: the outer function of a composition
sees nothing of them if the inner one has no components. -/
def Func.isStrict : Func K → Bool
  | .custom _ _ _ => true
  | .comp inner outer => inner.dim != 0 && inner.isStrict && outer.isStrict
  | .builtin _ => true

theorem Func.isStrict_comp {inner outer : Func K} :
    (Func.comp inner outer).isStrict = true ↔
      inner.dim ≠ 0 ∧ inner.isStrict = true ∧ outer.isStrict = true := by
  rw [Func.isStrict, Bool.and_eq_true, Bool.and_eq_true, bne_iff_ne, and_assoc]

theorem Func.isStrict_component {f g : Func K} {index : Nat} (h : f.component index = .ok g)
    (hf : f.isStrict = true) : g.isStrict = true := by
  induction f using Func.componentInduction generalizing g index with
  | custom name params body =>
    obtain ⟨_, _, rfl, -⟩ := Func.exists_of_component_custom h
    rfl
  | builtin b => rwa [Func.eq_of_component_builtin h]
  | comp inner outer _ ihouter =>
    obtain ⟨g', hg', rfl⟩ := Func.exists_of_component_comp h
    obtain ⟨hdim, hinner, houter⟩ := Func.isStrict_comp.1 hf
    exact Func.isStrict_comp.2 ⟨hdim, hinner, ihouter hg' houter⟩

namespace Func

variable [Scalar K]

/-- With a component to apply there is an application among the applied components. -/
theorem exists_of_applyComponents {f : Func K} {args mid : List (Expr K)}
    (h : f.applyComponents args = .ok mid) {index : Nat} (hindex : index < f.dim) :
    ∃ g, f.component index = .ok g ∧ g.apply args = .ok (.apply g args) ∧
      Expr.apply g args ∈ mid := by
  obtain ⟨e, he, happly⟩ := exists_of_mem_of_mapM h (List.mem_range.2 hindex)
  obtain ⟨g, hg, happly⟩ := bind_eq_ok.1 happly
  cases eq_apply_of_apply happly
  exact ⟨g, hg, happly, he⟩

end Func

namespace Expr

variable [Scalar K] {mode : Mode} {depth : Nat} {env : Env K}

/-- The expansion has the value of the application. -/
theorem outcome_of_expand {f : Func K} {args : List (Expr K)} {e : Expr K}
    (h : f.expand args = .ok e) :
    (apply f args).outcome mode depth env = e.outcome mode depth env := by
  cases f with
  | comp inner outer =>
    rw [outcome_comp, h]
    rfl
  | _ => rw [Func.eq_apply_of_apply h]

/-- An application of a strict function that has a value has evaluated its arguments. -/
theorem exists_outcome_of_isStrict {f : Func K} (hf : f.isStrict = true) {args : List (Expr K)}
    {v : Value K} (h : (apply f args).outcome mode depth env = .ok v) :
    ∀ a ∈ args, ∃ w, a.outcome mode depth env = .ok w := by
  induction f using Func.componentInduction generalizing args v with
  | custom name params body => exact exists_outcome_of_custom h
  | builtin b => exact exists_outcome_of_builtin h
  | comp inner outer ihinner ihouter =>
    obtain ⟨hdim, hinner, houter⟩ := Func.isStrict_comp.1 hf
    rw [outcome_comp] at h
    obtain ⟨expanded, hexpanded, h⟩ := bind_eq_ok.1 h
    obtain ⟨mid, hmid, hexpanded⟩ := bind_eq_ok.1 hexpanded
    rw [← outcome_of_expand hexpanded] at h
    -- the first component of the inner function is one of the arguments of the outer one
    obtain ⟨g, hg, -, happlied⟩ := Func.exists_of_applyComponents hmid (Nat.pos_of_ne_zero hdim)
    obtain ⟨w, hw⟩ := ihouter houter h _ happlied
    exact ihinner 0 g hg (Func.isStrict_component hg hinner) hw

end Expr

/-! ## Free names of expansions -/

namespace Func

/-- There are as many components as the function returns. -/
theorem exists_component (f : Func K) {index : Nat} (h : index < f.dim) :
    ∃ g, f.component index = .ok g := by
  induction f using componentInduction with
  | custom name params body =>
    rw [dim] at h
    rw [component]
    cases hitems : body.items? with
    | some items =>
      rw [hitems] at h
      dsimp only
      rw [List.getElem?_eq_getElem h]
      exact ⟨_, rfl⟩
    | none =>
      rw [hitems] at h
      have hzero : index = 0 := Nat.lt_one_iff.1 h
      dsimp only
      rw [if_pos hzero]
      exact ⟨_, rfl⟩
  | builtin b =>
    rw [component, if_pos (Nat.lt_one_iff.1 h)]
    exact ⟨_, rfl⟩
  | comp inner outer _ ihouter =>
    obtain ⟨g, hg⟩ := ihouter h
    rw [component, hg]
    exact ⟨_, rfl⟩

/-- A name that is free in a function is free in one of its components. -/
theorem exists_component_of_mem_freeNames {f : Func K} (hdim : f.dim ≠ 0) {n : String}
    (hn : n ∈ f.freeNames) :
    ∃ index g, index < f.dim ∧ f.component index = .ok g ∧ n ∈ g.freeNames := by
  induction f using componentInduction with
  | custom name params body =>
    obtain ⟨hbody, hparam⟩ := mem_freeNames_custom.1 hn
    cases body with
    | vec items =>
      obtain ⟨item, hitem, hn⟩ := Expr.mem_freeNamesList.1 hbody
      obtain ⟨index, hindex, rfl⟩ := List.getElem_of_mem hitem
      refine ⟨index, custom (name ++ "[" ++ Nat.repr index ++ "]") params items[index], hindex, ?_,
        mem_freeNames_custom.2 ⟨hn, hparam⟩⟩
      simp only [component, Expr.items?, List.getElem?_eq_getElem hindex]
    | _ => exact ⟨0, _, Nat.one_pos, rfl, hn⟩
  | builtin b => cases hn
  | comp inner outer _ ihouter =>
    rcases List.mem_append.1 hn with hn | hn
    · obtain ⟨g, hg⟩ := outer.exists_component (Nat.pos_of_ne_zero hdim)
      refine ⟨0, comp inner g, Nat.pos_of_ne_zero hdim, ?_, List.mem_append_left _ hn⟩
      rw [component, hg]
      rfl
    · obtain ⟨index, g, hindex, hg, hn⟩ := ihouter hdim hn
      refine ⟨index, comp inner g, hindex, ?_, List.mem_append_right _ hn⟩
      rw [component, hg]
      rfl

variable [Scalar K]

/-- Every name that is free in a strict function or in an argument is free in the expansion. -/
theorem mem_freeNames_of_expand : ∀ {f : Func K} {args : List (Expr K)} {e : Expr K},
    f.isStrict = true → f.expand args = .ok e →
    ∀ {n}, n ∈ (Expr.apply f args).freeNames → n ∈ e.freeNames
  | .custom name params body, args, e, _, h, n, hn => by rwa [eq_apply_of_apply h]
  | .builtin b, args, e, _, h, n, hn => by rwa [eq_apply_of_apply h]
  | .comp inner outer, args, e, hstrict, h, n, hn => by
    obtain ⟨hdim, -, houter⟩ := isStrict_comp.1 hstrict
    rw [expand] at h
    obtain ⟨mid, hmid, h⟩ := bind_eq_ok.1 h
    refine mem_freeNames_of_expand houter h (Expr.mem_freeNames_apply.2 ?_)
    -- what the outer function does not mention itself is in one of the applied components
    rcases Expr.mem_freeNames_apply.1 hn with hn | harg
    · rcases List.mem_append.1 hn with hn | hn
      · obtain ⟨index, g, hindex, hg, hn⟩ := exists_component_of_mem_freeNames hdim hn
        obtain ⟨g', hg', -, happlied⟩ := exists_of_applyComponents hmid hindex
        cases hg.symm.trans hg'
        exact .inr ⟨_, happlied, Expr.mem_freeNames_apply.2 (.inl hn)⟩
      · exact .inl hn
    · obtain ⟨g, -, -, happlied⟩ := exists_of_applyComponents hmid (Nat.pos_of_ne_zero hdim)
      exact .inr ⟨_, happlied, Expr.mem_freeNames_apply.2 (.inr harg)⟩

/-- An expansion of an application of a strict function has the free names of the application. -/
theorem mem_freeNames_expand {f : Func K} (hf : f.isStrict = true) {args : List (Expr K)}
    {e : Expr K} (h : f.expand args = .ok e) {n : String} :
    n ∈ e.freeNames ↔ n ∈ (Expr.apply f args).freeNames := by
  refine ⟨fun hn => ?_, mem_freeNames_of_expand hf h⟩
  have hinherited := (hereditary_freeNames (fun m => m ∈ (Expr.apply f args).freeNames)).expand h
  exact hinherited (fun m hm => Expr.mem_freeNames_apply.2 (.inl hm))
    (fun a ha m hm => Expr.mem_freeNames_apply.2 (.inr ⟨a, ha, hm⟩)) n hn

end Func

end ZeroSet
