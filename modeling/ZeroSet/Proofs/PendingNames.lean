import ZeroSet.Proofs.Outcome
import ZeroSet.Expr.Names
import Mathlib.Data.Finset.Card

/-!
# How far variables can lead

A variable leads to its binding, and the names in there to further bindings.  The guard against
cycles admits a name once on such a way.  Calling a function puts its parameters back at the
disposal of the way, but parameters are bound to literals, where every way ends.

* `Expr.isLiteral` — the expressions that values are written as, which lead nowhere.
* `Env.pending` — the names that a way can still pass through and go on.
* `Env.pending_enter` — calling a function makes no name pending.
* `Env.card_pending_resolve` — following a variable to anything but a literal leaves fewer names.
-/

namespace ZeroSet

variable {K : Type}

/-! ## Literals -/

/-- Whether an expression is a number, or a vector or an interval of numbers. -/
def Expr.isLiteral : Expr K → Bool
  | .num _ => true
  | .vec items => items.all (·.asNumber?.isSome)
  | .interval lo hi => lo.asNumber?.isSome && hi.asNumber?.isSome
  | _ => false

/-- What holds of numbers, and of vectors and intervals if it holds of their parts, holds of every
literal. -/
theorem Expr.literalInduction {P : Expr K → Prop} (num : ∀ v, P (.num v))
    (vec : ∀ items, (∀ e ∈ items, P e) → P (.vec items))
    (interval : ∀ lo hi, P lo → P hi → P (.interval lo hi)) {e : Expr K}
    (h : e.isLiteral = true) : P e := by
  have hnumber : ∀ e : Expr K, e.asNumber?.isSome = true → P e := by
    intro e he
    cases e with
    | num v => exact num v
    | _ => cases he
  cases e with
  | num v => exact num v
  | vec items =>
    rw [isLiteral, List.all_eq_true] at h
    exact vec items fun e he => hnumber e (h e he)
  | interval lo hi =>
    rw [isLiteral, Bool.and_eq_true] at h
    exact interval lo hi (hnumber lo h.1) (hnumber hi h.2)
  | _ => cases h

/-- A value is written as a literal. -/
theorem Value.isLiteral_toExpr (v : Value K) : v.toExpr.isLiteral = true := by
  cases v with
  | real x => rfl
  | vector t =>
    show (t.components.map Expr.num).all _ = true
    simp [Expr.asNumber?]
  | interval a => rfl

/-- A literal mentions no name. -/
theorem Expr.freeNames_of_isLiteral {e : Expr K} (h : e.isLiteral = true) : e.freeNames = [] := by
  refine literalInduction (P := fun e => e.freeNames = []) (fun v => rfl)
    (fun items hitems => ?_) (fun lo hi hlo hhi => ?_) h
  · rw [freeNames]
    induction items with
    | nil => rfl
    | cons e items ih =>
      obtain ⟨he, hrest⟩ := List.forall_mem_cons.1 hitems
      rw [freeNamesList, he, ih hrest]
      rfl
  · rw [freeNames, hlo, hhi]
    rfl

/-! ## What a call binds -/

/-- With as many values as parameters, the names that a call binds are the parameters. -/
theorem Env.names_of_zip {params : List String} {values : List (Value K)}
    (hlength : values.length = params.length) :
    (params.zip (values.map Value.toExpr)).map Prod.fst = params := by
  refine List.map_fst_zip (Nat.le_of_eq ?_)
  rw [List.length_map, hlength]

/-- A call binds parameters to literals. -/
theorem Env.isLiteral_of_mem_zip {params : List String} {values : List (Value K)}
    {p : String × Expr K} (hp : p ∈ params.zip (values.map Value.toExpr)) :
    p.2.isLiteral = true := by
  obtain ⟨v, -, hv⟩ := List.mem_map.1 (List.of_mem_zip hp).2
  rw [← hv]
  exact v.isLiteral_toExpr

/-! ## Pending names -/

namespace Env

variable {env : Env K} {name : String}

/-- The names that are not being resolved and stand for more than a literal. -/
def pending (env : Env K) : Finset String :=
  env.bindings.names.toFinset.filter fun name =>
    name ∉ env.resolving ∧ (env.bindings.get? name).any (!·.isLiteral) = true

theorem mem_pending :
    name ∈ env.pending ↔ name ∉ env.resolving ∧
      ∃ e, env.bindings.get? name = some e ∧ e.isLiteral = false := by
  rw [pending, Finset.mem_filter, List.mem_toFinset]
  constructor
  · rintro ⟨-, hname, hany⟩
    cases hget : env.bindings.get? name with
    | none => simp [hget] at hany
    | some e => exact ⟨hname, e, rfl, by simpa [hget] using hany⟩
  · rintro ⟨hname, e, hget, he⟩
    refine ⟨?_, hname, by simp [hget, he]⟩
    by_contra hmem
    rw [Bindings.get?_eq_none_iff.2 hmem] at hget
    cases hget

/-- There are no more pending names than bound ones. -/
theorem card_pending_le (env : Env K) : env.pending.card ≤ env.bindings.size := by
  calc env.pending.card ≤ env.bindings.names.toFinset.card :=
        Finset.card_le_card (Finset.filter_subset ..)
    _ ≤ env.bindings.names.length := env.bindings.names.toFinset_card_le
    _ = env.bindings.size := List.length_map ..

/-- Following a variable to more than a literal leaves fewer pending names. -/
theorem card_pending_resolve {e : Expr K} (hname : name ∉ env.resolving)
    (hget : env.bindings.get? name = some e) (he : e.isLiteral = false) :
    ({ env with resolving := name :: env.resolving } : Env K).pending.card < env.pending.card := by
  have hmem : name ∈ env.pending := mem_pending.2 ⟨hname, e, hget, he⟩
  refine Finset.card_lt_card ((Finset.ssubset_iff_of_subset fun n hn => ?_).2 ⟨name, hmem, ?_⟩)
  · obtain ⟨hn, hbound⟩ := mem_pending.1 hn
    exact mem_pending.2 ⟨fun hc => hn (List.mem_cons_of_mem _ hc), hbound⟩
  · intro hc
    exact (mem_pending.1 hc).1 (List.mem_cons_self ..)

/-- A scope whose names are bound to literals makes no name pending. -/
theorem pending_enter {pairs : List (String × Expr K)} (h : ∀ p ∈ pairs, p.2.isLiteral = true) :
    (env.enter pairs).pending ⊆ env.pending := by
  intro n hn
  obtain ⟨hresolving, e, hget, he⟩ := mem_pending.1 hn
  have hnotMem : n ∉ pairs.map Prod.fst := by
    intro hmem
    obtain ⟨e', hpair, hget'⟩ := Bindings.get?_putAll_of_mem hmem
    cases hget.symm.trans (hget' env.bindings)
    rw [h _ hpair] at he
    cases he
  refine mem_pending.2 ⟨fun hc => hresolving ?_, e, ?_, he⟩
  · exact List.mem_filter.2 ⟨hc, decide_eq_true hnotMem⟩
  · rw [← hget]
    exact (Bindings.get?_putAll_of_notMem hnotMem).symm

/-- Inside a function no more names are pending than outside. -/
theorem card_pending_enter_le (env : Env K) (params : List String) (values : List (Value K)) :
    (env.enter (params.zip (values.map Value.toExpr))).pending.card ≤ env.pending.card := by
  exact Finset.card_le_card (pending_enter fun p hp => isLiteral_of_mem_zip hp)

end Env

end ZeroSet
