import ZeroSet.Proofs.Compositions

/-!
# Rewriting expressions along with functions

Substituting values and unrolling powers rewrite an expression together with the bodies of the
functions it applies.  Names, parameters and the way functions are composed stay as they are, but a
body may become a vector literal or cease to be one, and the outer function of a composition is fed
with as many components as that literal has elements.  Where the inner functions of compositions
keep their literals, rewriting an application and expanding it can be done in either order.

* `Func.isVector` — the components of a function are the elements of a vector literal.
* `Rewriting` — what such a rewriting does to the nodes that an expansion touches.
* `Rewriting.expand_onFunc` — rewriting commutes with expanding.
* `Expr.allCompositions` — a property of all compositions in an expression, also inside bodies.
-/

namespace ZeroSet

variable {K : Type}

/-! ## Vector literals for bodies -/

/-- Whether the components of the function are the elements of a vector literal. -/
def Func.isVector : Func K → Bool
  | .custom _ _ body => body.items?.isSome
  | .comp _ outer => outer.isVector
  | .builtin _ => false

namespace Func

theorem items?_of_isVector_eq_false {name : String} {params : List String} {body : Expr K}
    (h : (custom name params body).isVector = false) : body.items? = none := by
  cases body with
  | vec items => cases h
  | _ => rfl

/-- Without a vector literal for a body a function has one component. -/
theorem dim_of_isVector_eq_false : ∀ {f : Func K}, f.isVector = false → f.dim = 1
  | .custom _ _ _, h => by
    rw [dim, items?_of_isVector_eq_false h, Option.map_none, Option.getD_none]
  | .comp _ outer, h => dim_of_isVector_eq_false (f := outer) h
  | .builtin _, _ => rfl

/-- Without a vector literal for a body a function is its only component. -/
theorem component_of_isVector_eq_false : ∀ {f : Func K}, f.isVector = false →
    f.component 0 = .ok f
  | .custom _ _ _, h => by
    rw [component, items?_of_isVector_eq_false h]
    rfl
  | .comp inner outer, h => by
    rw [component, component_of_isVector_eq_false (f := outer) h]
    rfl
  | .builtin _, _ => rfl

end Func

/-! ## Rewriting and expanding -/

theorem map_mapM {ε α β γ : Type} (g : β → γ) (f : α → Except ε β) (as : List α) :
    (as.mapM f).map (List.map g) = as.mapM fun a => (f a).map g := by
  induction as with
  | nil => rfl
  | cons a as ih =>
    rw [List.mapM_cons, List.mapM_cons, ← ih]
    cases f a with
    | error err => rfl
    | ok b => cases as.mapM f <;> rfl

/-- A rewriting of expressions along with the functions they apply. -/
structure Rewriting (K : Type) where
  /-- What becomes of an expression. -/
  onExpr : Expr K → Expr K
  /-- What becomes of a function. -/
  onFunc : Func K → Func K
  /-- What becomes of a body over parameters. -/
  inBody : List String → Expr K → Expr K
  /-- In an application the function and the arguments are rewritten. -/
  apply : ∀ f args, onExpr (.apply f args) = .apply (onFunc f) (args.map onExpr)
  /-- In a user function the body is rewritten. -/
  custom : ∀ name params body,
    onFunc (.custom name params body) = .custom name params (inBody params body)
  /-- In a composition both parts are rewritten. -/
  comp : ∀ inner outer, onFunc (.comp inner outer) = .comp (onFunc inner) (onFunc outer)
  /-- A built-in stays what it is. -/
  builtin : ∀ b, onFunc (.builtin b) = .builtin b
  /-- A vector literal stays one, and its elements are rewritten. -/
  vec : ∀ params items, inBody params (.vec items) = .vec (items.map (inBody params))

namespace Rewriting

variable (R : Rewriting K)

/-- Rewriting the function makes no vector literal of its body, or of a vector literal nothing
else. -/
def KeepsVector (f : Func K) : Prop := (R.onFunc f).isVector = f.isVector

/-- Rewriting keeps the vector literals of all inner functions along a chain of compositions. -/
def KeepsInner : Func K → Prop
  | .comp inner outer => R.KeepsVector inner ∧ KeepsInner outer
  | _ => True

theorem params_onFunc : ∀ f : Func K, (R.onFunc f).params = f.params
  | .custom name params body => by rw [R.custom, Func.params, Func.params]
  | .builtin b => by rw [R.builtin]
  | .comp inner outer => by
    rw [R.comp, Func.params, Func.params]
    exact params_onFunc inner

variable {R}

/-- A body stays a vector literal of as many elements, or stays something else. -/
theorem KeepsVector.items?_inBody {name : String} {params : List String} {body : Expr K}
    (h : R.KeepsVector (.custom name params body)) :
    (R.inBody params body).items? = body.items?.map (List.map (R.inBody params)) := by
  rw [KeepsVector, R.custom, Func.isVector, Func.isVector] at h
  cases body with
  | vec items =>
    rw [R.vec]
    rfl
  | _ => exact Option.not_isSome_iff_eq_none.1 (by rw [h]; exact Bool.false_ne_true)

theorem dim_onFunc : ∀ {f : Func K}, R.KeepsVector f → (R.onFunc f).dim = f.dim
  | .custom name params body, h => by
    rw [R.custom, Func.dim, Func.dim, h.items?_inBody]
    cases body.items? with
    | none => rfl
    | some items => exact List.length_map ..
  | .builtin b, _ => by rw [R.builtin]
  | .comp inner outer, h => by
    rw [KeepsVector, R.comp] at h
    rw [R.comp, Func.dim, Func.dim]
    exact dim_onFunc (f := outer) h

/-- The components of the rewritten function are the rewritten components. -/
theorem component_onFunc (index : Nat) : ∀ {f : Func K}, R.KeepsVector f →
    (R.onFunc f).component index = (f.component index).map R.onFunc
  | .custom name params body, h => by
    rw [R.custom, Func.component, Func.component, h.items?_inBody]
    cases body.items? with
    | none =>
      dsimp only [Option.map_none]
      split
      · exact congrArg Except.ok (R.custom ..).symm
      · rfl
    | some items =>
      dsimp only [Option.map_some]
      rw [List.getElem?_map, List.length_map]
      cases items[index]? with
      | none => rfl
      | some item => exact congrArg Except.ok (R.custom ..).symm
  | .builtin b, _ => by
    rw [R.builtin, Func.component]
    split
    · exact congrArg Except.ok (R.builtin b).symm
    · rfl
  | .comp inner outer, h => by
    rw [KeepsVector, R.comp] at h
    rw [R.comp, Func.component, Func.component, component_onFunc index (f := outer) h]
    cases outer.component index with
    | error err => rfl
    | ok outer' => exact congrArg Except.ok (R.comp inner outer').symm

variable [Scalar K]

theorem apply_onFunc (f : Func K) (args : List (Expr K)) :
    (R.onFunc f).apply (args.map R.onExpr) = (f.apply args).map R.onExpr := by
  have harity : (R.onFunc f).arity = f.arity := congrArg List.length (R.params_onFunc f)
  have hnode : Expr.apply (R.onFunc f) (args.map R.onExpr) = R.onExpr (.apply f args) :=
    (R.apply f args).symm
  unfold Func.apply
  rw [List.length_map, harity, hnode]
  split
  · rfl
  · cases f with
    | custom name params body =>
      rw [R.custom]
      rfl
    | comp inner outer =>
      rw [R.comp]
      rfl
    | builtin b =>
      rw [R.builtin]
      dsimp only
      cases b.check <;> rfl

theorem applyComponents_onFunc {f : Func K} (h : R.KeepsVector f) (args : List (Expr K)) :
    (R.onFunc f).applyComponents (args.map R.onExpr) =
      (f.applyComponents args).map (List.map R.onExpr) := by
  rw [Func.applyComponents, Func.applyComponents, dim_onFunc h, map_mapM]
  refine mapM_congr fun index _ => ?_
  rw [component_onFunc index h]
  cases f.component index with
  | error err => rfl
  | ok g => exact apply_onFunc g args

/-- Rewriting commutes with expanding. -/
theorem expand_onFunc : ∀ {f : Func K}, R.KeepsInner f → ∀ args : List (Expr K),
    (R.onFunc f).expand (args.map R.onExpr) = (f.expand args).map R.onExpr
  | .custom name params body, _, args => by
    have happly := apply_onFunc (R := R) (.custom name params body) args
    rwa [R.custom] at happly ⊢
  | .builtin b, _, args => by
    have happly := apply_onFunc (R := R) (.builtin b) args
    rwa [R.builtin] at happly ⊢
  | .comp inner outer, h, args => by
    obtain ⟨hinner, houter⟩ := h
    rw [R.comp, Func.expand, Func.expand, applyComponents_onFunc hinner]
    cases inner.applyComponents args with
    | error err => rfl
    | ok mid => exact expand_onFunc houter mid

end Rewriting

/-! ## Compositions inside expressions -/

mutual

/-- Whether all compositions in an expression and in the functions it applies have a property that
may depend on the parameters `bound` of the functions around them. -/
def Expr.allCompositions (P : List String → Func K → Func K → Bool) (bound : List String) :
    Expr K → Bool
  | .num _ => true
  | .var _ => true
  | .vec items => Expr.allCompositionsList P bound items
  | .interval lo hi => lo.allCompositions P bound && hi.allCompositions P bound
  | .neg a => a.allCompositions P bound
  | .binary _ a b => a.allCompositions P bound && b.allCompositions P bound
  | .power a b => a.allCompositions P bound && b.allCompositions P bound
  | .apply f args => f.allCompositions P bound && Expr.allCompositionsList P bound args

/-- Whether all compositions in a list of expressions have a property. -/
def Expr.allCompositionsList (P : List String → Func K → Func K → Bool) (bound : List String) :
    List (Expr K) → Bool
  | [] => true
  | e :: es => e.allCompositions P bound && Expr.allCompositionsList P bound es

/-- Whether a function and all compositions in its bodies have a property. -/
def Func.allCompositions (P : List String → Func K → Func K → Bool) (bound : List String) :
    Func K → Bool
  | .custom _ params body => body.allCompositions P (params ++ bound)
  | .comp inner outer =>
    P bound inner outer && inner.allCompositions P bound && outer.allCompositions P bound
  | .builtin _ => true

end

section

variable {P : List String → Func K → Func K → Bool} {bound : List String}

theorem Expr.allCompositionsList_iff {es : List (Expr K)} :
    Expr.allCompositionsList P bound es = true ↔
      ∀ e ∈ es, e.allCompositions P bound = true := by
  induction es with
  | nil => simp [allCompositionsList]
  | cons e es ih => simp [allCompositionsList, ih]

theorem Func.allCompositions_comp {inner outer : Func K} :
    (Func.comp inner outer).allCompositions P bound = true ↔
      P bound inner outer = true ∧ inner.allCompositions P bound = true ∧
        outer.allCompositions P bound = true := by
  rw [Func.allCompositions, Bool.and_eq_true, Bool.and_eq_true, and_assoc]

mutual

/-- What holds of every composition holds of those in an expression. -/
theorem Expr.allCompositions_of_forall (h : ∀ bound inner outer, P bound inner outer = true) :
    ∀ (e : Expr K) (bound : List String), e.allCompositions P bound = true
  | .num _, _ => rfl
  | .var _, _ => rfl
  | .vec items, bound => Expr.allCompositionsList_of_forall h items bound
  | .interval lo hi, bound => Bool.and_eq_true_iff.2
    ⟨lo.allCompositions_of_forall h bound, hi.allCompositions_of_forall h bound⟩
  | .neg a, bound => a.allCompositions_of_forall h bound
  | .binary _ a b, bound => Bool.and_eq_true_iff.2
    ⟨a.allCompositions_of_forall h bound, b.allCompositions_of_forall h bound⟩
  | .power a b, bound => Bool.and_eq_true_iff.2
    ⟨a.allCompositions_of_forall h bound, b.allCompositions_of_forall h bound⟩
  | .apply f args, bound => Bool.and_eq_true_iff.2
    ⟨f.allCompositions_of_forall h bound, Expr.allCompositionsList_of_forall h args bound⟩

theorem Expr.allCompositionsList_of_forall (h : ∀ bound inner outer, P bound inner outer = true) :
    ∀ (es : List (Expr K)) (bound : List String), Expr.allCompositionsList P bound es = true
  | [], _ => rfl
  | e :: es, bound => Bool.and_eq_true_iff.2
    ⟨e.allCompositions_of_forall h bound, Expr.allCompositionsList_of_forall h es bound⟩

theorem Func.allCompositions_of_forall (h : ∀ bound inner outer, P bound inner outer = true) :
    ∀ (f : Func K) (bound : List String), f.allCompositions P bound = true
  | .custom _ params body, bound => body.allCompositions_of_forall h (params ++ bound)
  | .comp inner outer, bound => Func.allCompositions_comp.2
    ⟨h bound inner outer, inner.allCompositions_of_forall h bound,
      outer.allCompositions_of_forall h bound⟩
  | .builtin _, _ => rfl

end

/-- An expansion inherits a property of all compositions if a component of the outer function may
stand in its place. -/
theorem inherited_allCompositions
    (hP : ∀ {bound : List String} {inner outer g : Func K} {index : Nat},
      outer.component index = .ok g → P bound inner outer = true → P bound inner g = true)
    (bound : List String) :
    Inherited (fun e : Expr K => e.allCompositions P bound = true)
      fun f => f.allCompositions P bound = true where
  apply hf hargs := by
    rw [Expr.allCompositions, Bool.and_eq_true, Expr.allCompositionsList_iff]
    exact ⟨hf, hargs⟩
  parts h := (Func.allCompositions_comp.1 h).2
  component {f} := by
    induction f using Func.componentInduction with
    | custom name params body =>
      intro index g h hf
      rw [Func.allCompositions] at hf
      obtain ⟨_, _, rfl, ⟨rfl, rfl⟩ | ⟨items, rfl, hitem⟩⟩ := Func.exists_of_component_custom h
      · exact hf
      · rw [Expr.allCompositions, Expr.allCompositionsList_iff] at hf
        exact hf _ hitem
    | builtin b =>
      intro index g h hf
      rwa [Func.eq_of_component_builtin h]
    | comp inner outer _ ihouter =>
      intro index g h hf
      obtain ⟨g', hg', rfl⟩ := Func.exists_of_component_comp h
      obtain ⟨hhere, hinner, houter⟩ := Func.allCompositions_comp.1 hf
      exact Func.allCompositions_comp.2 ⟨hP hg' hhere, hinner, ihouter hg' houter⟩

end

end ZeroSet
