import ZeroSet.Proofs.PendingNames

/-!
# Applications and the outcomes of their arguments

An application takes from its arguments only what they evaluate to.  Two applications whose
arguments have the same outcomes, each in its own environment, have the same outcome themselves
as far as the bodies of the functions have.

* `Expr.SameOutcomes` — lists of expressions with the same outcomes one by one.
* `Expr.outcome_builtin_congr`, `Expr.outcome_custom_congr` — applications of built-ins and of
  user functions.
* `Expr.exists_outcome_of_custom`, `Expr.exists_outcome_of_builtin` — an application that has a
  value has evaluated its arguments.
-/

namespace ZeroSet

theorem mapM_congr_forall₂ {ε α β γ : Type} {f : α → Except ε γ} {g : β → Except ε γ}
    {as : List α} {bs : List β} (h : List.Forall₂ (fun a b => f a = g b) as bs) :
    as.mapM f = bs.mapM g := by
  induction h with
  | nil => rfl
  | cons hab _ ih => rw [List.mapM_cons, List.mapM_cons, hab, ih]

/-- In lists that are related one by one, every member of the first is related to one of the
second. -/
theorem exists_of_mem_forall₂ {α β : Type} {R : α → β → Prop} {as : List α} {bs : List β}
    (h : List.Forall₂ R as bs) {a : α} (ha : a ∈ as) : ∃ b ∈ bs, R a b := by
  induction h with
  | nil => cases ha
  | @cons a' b _ _ hb _ ih =>
    rcases List.mem_cons.1 ha with rfl | ha
    · exact ⟨b, List.mem_cons_self .., hb⟩
    · obtain ⟨c, hc, hac⟩ := ih ha
      exact ⟨c, List.mem_cons_of_mem _ hc, hac⟩

/-- Two lists that are related to a third one are related to each other. -/
theorem forall₂_of_common {α β γ : Type} {R : α → γ → Prop} {S : β → γ → Prop} {T : α → β → Prop}
    {as : List α} {bs : List β} {cs : List γ} (hR : List.Forall₂ R as cs)
    (hS : List.Forall₂ S bs cs) (h : ∀ a b c, R a c → S b c → T a b) : List.Forall₂ T as bs := by
  induction hR generalizing bs with
  | nil =>
    cases hS
    exact .nil
  | cons hac _ ih =>
    cases hS with
    | cons hbc hS => exact .cons (h _ _ _ hac hbc) (ih hS)

/-- Lists that are related through members of a third one are related through that list. -/
theorem forall₂_exists_iff {α β γ : Type} {R : α → β → Prop} {S : β → γ → Prop} {as : List α}
    {cs : List γ} :
    List.Forall₂ (fun a c => ∃ b, R a b ∧ S b c) as cs ↔
      ∃ bs, List.Forall₂ R as bs ∧ List.Forall₂ S bs cs := by
  constructor
  · intro h
    induction h with
    | nil => exact ⟨[], .nil, .nil⟩
    | cons hac _ ih =>
      obtain ⟨b, hab, hbc⟩ := hac
      obtain ⟨bs, habs, hbcs⟩ := ih
      exact ⟨b :: bs, .cons hab habs, .cons hbc hbcs⟩
  · rintro ⟨bs, hR, hS⟩
    induction hR generalizing cs with
    | nil =>
      cases hS
      exact .nil
    | cons hab _ ih =>
      cases hS with
      | cons hbc hS => exact .cons ⟨_, hab, hbc⟩ (ih hS)

/-- What a function that may fail returns for a whole list, it returns for every member. -/
theorem exists_of_mem_of_mapM {ε α β : Type} {f : α → Except ε β} {as : List α} {bs : List β}
    (h : as.mapM f = .ok bs) {a : α} (ha : a ∈ as) : ∃ b ∈ bs, f a = .ok b :=
  exists_of_mem_forall₂ (mapM_eq_ok.1 h) ha

/-- What is returned for a whole list, is returned for some member. -/
theorem exists_of_mem_mapM {ε α β : Type} {f : α → Except ε β} {as : List α} {bs : List β}
    (h : as.mapM f = .ok bs) {b : β} (hb : b ∈ bs) : ∃ a ∈ as, f a = .ok b :=
  exists_of_mem_forall₂ (R := fun b a => f a = .ok b) (mapM_eq_ok.1 h).flip hb

theorem exists_mapM_of_forall_mem {ε α β : Type} {f : α → Except ε β} {as : List α}
    (h : ∀ a ∈ as, ∃ b, f a = .ok b) : ∃ bs, as.mapM f = .ok bs := by
  induction as with
  | nil => exact ⟨[], rfl⟩
  | cons a as ih =>
    obtain ⟨b, hb⟩ := h a (List.mem_cons_self ..)
    obtain ⟨bs, hbs⟩ := ih fun a' ha' => h a' (List.mem_cons_of_mem _ ha')
    exact ⟨b :: bs, mapM_eq_ok.2 (.cons hb (mapM_eq_ok.1 hbs))⟩

/-- What is returned for a list does not change if more is returned for its members. -/
theorem mapM_eq_ok_of_forall_mem {ε α β : Type} {f g : α → Except ε β} {as : List α} {bs : List β}
    (h : ∀ a ∈ as, ∀ b, g a = .ok b → f a = .ok b) (hg : as.mapM g = .ok bs) :
    as.mapM f = .ok bs := by
  have hall := mapM_eq_ok.1 hg
  clear hg
  refine mapM_eq_ok.2 ?_
  induction hall with
  | nil => exact .nil
  | @cons a b as bs hab _ ih =>
    refine .cons (h a (List.mem_cons_self ..) b hab) (ih fun a' ha' => ?_)
    exact h a' (List.mem_cons_of_mem _ ha')

variable {K : Type}

namespace Expr

variable [Scalar K] {mode : Mode} {depth : Nat} {left right : Env K} {args args' : List (Expr K)}

/-! ## From the arguments to the application -/

/-- The expressions of the first list have the same outcomes in the first environment as those of
the second list in the second one. -/
def SameOutcomes (mode : Mode) (depth : Nat) (left right : Env K) (args args' : List (Expr K)) :
    Prop :=
  List.Forall₂ (fun a a' => a.outcome mode depth left = a'.outcome mode depth right) args args'

theorem SameOutcomes.of_forall_mem
    (h : ∀ a ∈ args, a.outcome mode depth left = a.outcome mode depth right) :
    SameOutcomes mode depth left right args args := List.forall₂_same.2 h

theorem outcome_builtin_congr (b : Builtin K) (h : SameOutcomes mode depth left right args args') :
    (apply (.builtin b) args).outcome mode depth left =
      (apply (.builtin b) args').outcome mode depth right := by
  rw [outcome_builtin, outcome_builtin]
  congr 1
  funext _
  cases mode with
  | real =>
    cases h with
    | nil => rfl
    | cons ha hrest =>
      cases hrest with
      | nil =>
        dsimp only
        rw [ha]
      | cons _ hrest =>
        dsimp only [List.length_cons]
        rw [hrest.length_eq]
  | _ => rfl

theorem outcome_custom_congr {f f' : String} {params : List String} {body body' : Expr K}
    (h : SameOutcomes mode depth left right args args')
    (hbody : ∀ values : List (Value K), values.length = params.length →
      body.outcome mode depth (left.enter (params.zip (values.map Value.toExpr))) =
        body'.outcome mode depth (right.enter (params.zip (values.map Value.toExpr)))) :
    (apply (.custom f params body) args).outcome mode depth left =
      (apply (.custom f' params body') args').outcome mode depth right := by
  have hvalues : args.mapM (fun a => a.outcome mode depth left) =
      args'.mapM fun a => a.outcome mode depth right := mapM_congr_forall₂ h
  rw [outcome_custom, outcome_custom, h.length_eq, hvalues]
  split
  · rfl
  · rename_i hlength
    rcases hall : args'.mapM fun a => a.outcome mode depth right with err | values
    · rw [hall]
      rfl
    · rw [hall]
      refine hbody values ?_
      rw [← (mapM_eq_ok.1 hall).length_eq]
      exact not_not.1 hlength

/-! ## From the application to the arguments -/

theorem exists_outcome_of_custom {f : String} {params : List String} {body : Expr K} {v : Value K}
    (h : (apply (.custom f params body) args).outcome mode depth left = .ok v) :
    ∀ a ∈ args, ∃ w, a.outcome mode depth left = .ok w := by
  rw [outcome_custom] at h
  split at h
  · cases h
  · obtain ⟨values, hvalues, -⟩ := bind_eq_ok.1 h
    intro a ha
    obtain ⟨w, -, hw⟩ := exists_of_mem_of_mapM hvalues ha
    exact ⟨w, hw⟩

theorem exists_outcome_of_builtin {b : Builtin K} {v : Value K}
    (h : (apply (.builtin b) args).outcome mode depth left = .ok v) :
    ∀ a ∈ args, ∃ w, a.outcome mode depth left = .ok w := by
  rw [outcome_builtin] at h
  obtain ⟨_, -, h⟩ := bind_eq_ok.1 h
  split at h
  · intro a ha
    cases List.mem_singleton.1 ha
    rw [bind_assoc] at h
    obtain ⟨w, hw, -⟩ := bind_eq_ok.1 h
    exact ⟨w, hw⟩
  · cases h
  · cases h

end Expr

end ZeroSet
