import ZeroSet.Proofs.Scopes
import Mathlib.Data.List.Forall2
import Mathlib.Data.Option.Basic

/-!
# Environments whose bindings correspond

Two environments that bind the same names, each to related expressions, and that resolve the same
names: a number in the place of an interval, or an interval in the place of a wider one.  The
correspondence is kept by everything that evaluation does to environments.

* `Env.Related` — environments whose bindings correspond.
* `Env.Related.resolve` — following the binding of a variable.
* `Env.Related.enter` — binding further names, as calls do to their parameters.
-/

namespace ZeroSet

variable {K : Type}

/-- Both environments resolve the same names, and they bind the same names, each to related
expressions. -/
structure Env.Related (R : Expr K → Expr K → Prop) (left right : Env K) : Prop where
  /-- The same names are being resolved. -/
  resolving : left.resolving = right.resolving
  /-- The same names are bound, and the expressions correspond. -/
  bindings : ∀ name, Option.Rel R (left.bindings.get? name) (right.bindings.get? name)

namespace Env.Related

variable {R S : Expr K → Expr K → Prop} {left right : Env K}

theorem names_iff (h : Related R left right) (name : String) :
    name ∈ left.bindings.names ↔ name ∈ right.bindings.names := by
  rw [← not_iff_not, ← Bindings.get?_eq_none_iff, ← Bindings.get?_eq_none_iff]
  have := h.bindings name
  generalize left.bindings.get? name = x at this ⊢
  generalize right.bindings.get? name = y at this ⊢
  cases this <;> simp

theorem size_eq (h : Related R left right) : left.bindings.size = right.bindings.size :=
  Bindings.size_eq_of_names h.names_iff

theorem refl {env : Env K} (h : ∀ name e, env.bindings.get? name = some e → R e e) :
    Related R env env := by
  refine ⟨rfl, fun name => ?_⟩
  cases hget : env.bindings.get? name with
  | none => exact .none
  | some e => exact .some (h name e hget)

theorem mono (h : Related R left right) (hRS : ∀ e e', R e e' → S e e') :
    Related S left right := by
  refine ⟨h.resolving, fun name => ?_⟩
  have := h.bindings name
  generalize left.bindings.get? name = x at this ⊢
  generalize right.bindings.get? name = y at this ⊢
  cases this with
  | none => exact .none
  | some hxy => exact .some (hRS _ _ hxy)

theorem resolve (h : Related R left right) (name : String) :
    Related R { left with resolving := name :: left.resolving }
      { right with resolving := name :: right.resolving } :=
  ⟨congrArg (name :: ·) h.resolving, h.bindings⟩

theorem putAll {pairs pairs' : List (String × Expr K)}
    (hpairs : List.Forall₂ (fun p q => p.1 = q.1 ∧ R p.2 q.2) pairs pairs') :
    ∀ {b c : Bindings K}, (∀ name, Option.Rel R (b.get? name) (c.get? name)) →
      ∀ name, Option.Rel R ((b.putAll pairs).get? name) ((c.putAll pairs').get? name) := by
  induction hpairs with
  | nil => exact fun h => h
  | @cons p q _ _ hpq _ ih =>
    intro b c h
    refine ih fun name => ?_
    rw [Bindings.get?_put, Bindings.get?_put, hpq.1]
    split
    · exact .some hpq.2
    · exact h name

theorem enter (h : Related R left right) {pairs pairs' : List (String × Expr K)}
    (hpairs : List.Forall₂ (fun p q => p.1 = q.1 ∧ R p.2 q.2) pairs pairs') :
    Related R (left.enter pairs) (right.enter pairs') := by
  refine ⟨?_, putAll hpairs h.bindings⟩
  have hnames : pairs.map Prod.fst = pairs'.map Prod.fst := by
    induction hpairs with
    | nil => rfl
    | cons hpq _ ih => rw [List.map_cons, List.map_cons, hpq.1, ih]
  show left.resolving.filter (· ∉ pairs.map Prod.fst) =
    right.resolving.filter (· ∉ pairs'.map Prod.fst)
  rw [hnames, h.resolving]

theorem ofList {pairs pairs' : List (String × Expr K)}
    (hpairs : List.Forall₂ (fun p q => p.1 = q.1 ∧ R p.2 q.2) pairs pairs') :
    Related R (.ofList pairs) (.ofList pairs') :=
  ⟨rfl, putAll hpairs fun _ => .none⟩

end Env.Related

/-- Parameters bound to related arguments are related bindings. -/
theorem forall₂_zip_related {R : Expr K → Expr K → Prop} (params : List String) :
    ∀ {es es' : List (Expr K)}, List.Forall₂ R es es' →
      List.Forall₂ (fun p q => p.1 = q.1 ∧ R p.2 q.2) (params.zip es) (params.zip es') := by
  induction params with
  | nil => exact fun _ => .nil
  | cons param params ih =>
    intro es es' h
    cases h with
    | nil => exact .nil
    | cons hd tl => exact .cons ⟨rfl, hd⟩ (ih tl)

end ZeroSet
