import ZeroSet.Proofs.Outcome
import ZeroSet.Expr.Names

/-!
# What expansions inherit

Expanding an application of a composition only rearranges what is there: the functions in the
expansion are the constituents of the composition, or single components of them.

* `Func.componentInduction` — induction over functions along expansions.
* `Inherited` — properties of expressions and functions that survive rearranging.
* `Inherited.expand` — an expansion has every inherited property of the function and of the
  arguments.
* `Hereditary` — inherited properties that a composition has as soon as its parts have them.
* `hereditary_freeNames` — no name becomes free by expanding.
-/

namespace ZeroSet

variable {K : Type}

/-! ## Components -/

namespace Func

/-- A component of a user function has the same parameters; its body is one element of the body,
or the whole body if that is not a vector. -/
theorem exists_of_component_custom {name : String} {params : List String} {body : Expr K}
    {index : Nat} {g : Func K} (h : (custom name params body).component index = .ok g) :
    ∃ name' item, g = custom name' params item ∧
      (name' = name ∧ item = body ∨ ∃ items, body = .vec items ∧ item ∈ items) := by
  rw [component] at h
  split at h
  · rename_i items hitems
    split at h
    · rename_i item hitem
      cases h
      cases body with
      | vec es =>
        cases hitems
        exact ⟨_, item, rfl, .inr ⟨items, rfl, List.mem_of_getElem? hitem⟩⟩
      | _ => cases hitems
    · cases h
  · split at h
    · cases h
      exact ⟨name, body, rfl, .inl ⟨rfl, rfl⟩⟩
    · cases h

theorem eq_of_component_builtin {b : Builtin K} {index : Nat} {g : Func K}
    (h : (builtin b).component index = .ok g) : g = builtin b := by
  rw [component] at h
  split at h
  · cases h
    rfl
  · cases h

/-- A component of a composition passes the inner function to a component of the outer one. -/
theorem exists_of_component_comp {inner outer g : Func K} {index : Nat}
    (h : (comp inner outer).component index = .ok g) :
    ∃ g', outer.component index = .ok g' ∧ g = comp inner g' := by
  rw [component] at h
  obtain ⟨g', hg', h⟩ := bind_eq_ok.1 h
  cases h
  exact ⟨g', hg', rfl⟩

theorem params_component {f g : Func K} {index : Nat} (h : f.component index = .ok g) :
    g.params = f.params := by
  cases f with
  | custom name params body =>
    obtain ⟨_, _, rfl, -⟩ := exists_of_component_custom h
    rfl
  | comp inner outer =>
    obtain ⟨_, -, rfl⟩ := exists_of_component_comp h
    rfl
  | builtin b => rw [eq_of_component_builtin h]

section Induction

variable {P : Func K → Prop} (custom : ∀ name params body, P (.custom name params body))
  (builtin : ∀ b, P (.builtin b))
  (comp : ∀ inner outer, (∀ index g, inner.component index = .ok g → P g) → P outer →
    P (.comp inner outer))

include custom builtin comp

theorem componentInduction_aux : ∀ f : Func K, P f ∧ ∀ index g, f.component index = .ok g → P g
  | .custom name params body => by
    refine ⟨custom name params body, fun index g h => ?_⟩
    obtain ⟨name', item, rfl, -⟩ := exists_of_component_custom h
    exact custom name' params item
  | .builtin b => by
    refine ⟨builtin b, fun index g h => ?_⟩
    rw [eq_of_component_builtin h]
    exact builtin b
  | .comp inner outer => by
    obtain ⟨-, hinner⟩ := componentInduction_aux inner
    obtain ⟨houter, houters⟩ := componentInduction_aux outer
    refine ⟨comp inner outer hinner houter, fun index g h => ?_⟩
    obtain ⟨g', hg', rfl⟩ := exists_of_component_comp h
    exact comp inner g' hinner (houters index g' hg')

/-- A property holds of every function if it holds of user functions and of built-ins, and of a
composition once it holds of the components of the inner function and of the outer function. -/
theorem componentInduction (f : Func K) : P f :=
  (componentInduction_aux custom builtin comp f).1

end Induction

end Func

/-! ## Inherited properties -/

/-- Properties that an application takes from its parts, and that the constituents and the
components of a function take from the function. -/
structure Inherited (onExpr : Expr K → Prop) (onFunc : Func K → Prop) : Prop where
  /-- An application takes the property from the function and the arguments. -/
  apply : ∀ {f args}, onFunc f → (∀ a ∈ args, onExpr a) → onExpr (.apply f args)
  /-- Both parts of a composition take the property from it. -/
  parts : ∀ {inner outer}, onFunc (.comp inner outer) → onFunc inner ∧ onFunc outer
  /-- A component takes the property from the function. -/
  component : ∀ {f index g}, f.component index = .ok g → onFunc f → onFunc g

namespace Inherited

variable {onExpr : Expr K → Prop} {onFunc : Func K → Prop} [Scalar K]

theorem applyComponents (H : Inherited onExpr onFunc) {f : Func K} {args es : List (Expr K)}
    (h : f.applyComponents args = .ok es) (hf : onFunc f) (hargs : ∀ a ∈ args, onExpr a) :
    ∀ e ∈ es, onExpr e := by
  have hall := mapM_eq_ok.1 h
  intro e he
  obtain ⟨i, hi, hget⟩ := List.getElem_of_mem he
  obtain ⟨hlength, hstep⟩ := List.forall₂_iff_get.1 hall
  have happly := hstep i (hlength ▸ hi) hi
  obtain ⟨g, hg, hga⟩ := bind_eq_ok.1 happly
  rw [List.get_eq_getElem, hget] at hga
  rw [Func.eq_apply_of_apply hga]
  exact H.apply (H.component hg hf) hargs

/-- An expansion has every inherited property of the function and of the arguments. -/
theorem expand (H : Inherited onExpr onFunc) : ∀ {f : Func K} {args : List (Expr K)} {e : Expr K},
    f.expand args = .ok e → onFunc f → (∀ a ∈ args, onExpr a) → onExpr e
  | .comp inner outer, args, e, h, hf, hargs => by
    rw [Func.expand] at h
    obtain ⟨mid, hmid, h⟩ := bind_eq_ok.1 h
    obtain ⟨hi, ho⟩ := H.parts hf
    exact H.expand h ho (H.applyComponents hmid hi hargs)
  | .builtin b, args, e, h, hf, hargs => by
    cases Func.eq_apply_of_apply h
    exact H.apply hf hargs
  | .custom name params body, args, e, h, hf, hargs => by
    cases Func.eq_apply_of_apply h
    exact H.apply hf hargs

end Inherited

/-- Properties that an application and a composition take from their parts, and a component of a
vector-valued function from the function. -/
structure Hereditary (onExpr : Expr K → Prop) (onFunc : Func K → Prop) : Prop where
  /-- An application takes the property from the function and the arguments. -/
  apply : ∀ {f args}, onFunc f → (∀ a ∈ args, onExpr a) → onExpr (.apply f args)
  /-- A composition has the property exactly if both its parts have it. -/
  comp : ∀ {inner outer}, onFunc (.comp inner outer) ↔ onFunc inner ∧ onFunc outer
  /-- A component takes the property from the whole. -/
  item : ∀ {name name' params items item}, item ∈ items →
    onFunc (.custom name params (.vec items)) → onFunc (.custom name' params item)

namespace Hereditary

variable {onExpr : Expr K → Prop} {onFunc : Func K → Prop}

theorem component (H : Hereditary onExpr onFunc) {f g : Func K} {index : Nat}
    (h : f.component index = .ok g) (hf : onFunc f) : onFunc g := by
  induction f using Func.componentInduction generalizing g index with
  | custom name params body =>
    obtain ⟨_, _, rfl, ⟨rfl, rfl⟩ | ⟨items, rfl, hitem⟩⟩ := Func.exists_of_component_custom h
    · exact hf
    · exact H.item hitem hf
  | builtin b => rwa [Func.eq_of_component_builtin h]
  | comp inner outer _ ihouter =>
    obtain ⟨g', hg', rfl⟩ := Func.exists_of_component_comp h
    obtain ⟨hi, ho⟩ := H.comp.1 hf
    exact H.comp.2 ⟨hi, ihouter hg' ho⟩

theorem inherited (H : Hereditary onExpr onFunc) : Inherited onExpr onFunc :=
  ⟨H.apply, H.comp.1, H.component⟩

/-- An expansion has every hereditary property of the function and of the arguments. -/
theorem expand [Scalar K] (H : Hereditary onExpr onFunc) {f : Func K} {args : List (Expr K)}
    {e : Expr K} (h : f.expand args = .ok e) (hf : onFunc f) (hargs : ∀ a ∈ args, onExpr a) :
    onExpr e := H.inherited.expand h hf hargs

end Hereditary

/-! ## Free names -/

theorem Expr.mem_freeNamesList {es : List (Expr K)} {name : String} :
    name ∈ Expr.freeNamesList es ↔ ∃ e ∈ es, name ∈ e.freeNames := by
  induction es with
  | nil => simp [freeNamesList]
  | cons e es ih => simp [freeNamesList, ih]

theorem Expr.mem_freeNames_apply {f : Func K} {args : List (Expr K)} {name : String} :
    name ∈ (Expr.apply f args).freeNames ↔
      name ∈ f.freeNames ∨ ∃ a ∈ args, name ∈ a.freeNames := by
  rw [freeNames, List.mem_append, mem_freeNamesList]

theorem Func.mem_freeNames_custom {f name : String} {params : List String} {body : Expr K} :
    name ∈ (Func.custom f params body).freeNames ↔ name ∈ body.freeNames ∧ name ∉ params := by
  rw [freeNames, List.mem_filter, decide_eq_true_eq]

/-- A bound on the free names is a bound on the free names of an expansion. -/
theorem hereditary_freeNames (allowed : String → Prop) :
    Hereditary (fun e : Expr K => ∀ name ∈ e.freeNames, allowed name)
      fun f => ∀ name ∈ f.freeNames, allowed name where
  apply hf hargs name hname := by
    rcases Expr.mem_freeNames_apply.1 hname with hname | ⟨a, ha, hname⟩
    · exact hf name hname
    · exact hargs a ha name hname
  comp := by
    simp only [Func.freeNames, List.mem_append]
    exact ⟨fun h => ⟨fun n hn => h n (.inl hn), fun n hn => h n (.inr hn)⟩,
      fun h n hn => hn.elim (h.1 n) (h.2 n)⟩
  item hitem h name hname := by
    obtain ⟨hname, hparam⟩ := Func.mem_freeNames_custom.1 hname
    exact h name (Func.mem_freeNames_custom.2
      ⟨Expr.mem_freeNamesList.2 ⟨_, hitem, hname⟩, hparam⟩)

end ZeroSet
