import ZeroSet.Proofs.Exact
import ZeroSet.Proofs.Outcome

/-!
# Trees as they stand

Simplifying reads an expression as a tree: it visits the arguments of every applied function but
no body, and it compares trees node by node.

* `Expr.treeInduction` — induction over the nodes of a tree, bodies of applied functions left out.
* `Expr.eq_of_beq` — on exact scalars, trees that compare equal are equal.
-/

namespace ZeroSet

/-- The parameter of a built-in function. -/
def Builtin.parameter? {K : Type} : Builtin K → Option K
  | .log base => some base
  | .root degree => some degree
  | _ => none

/-! ## Induction over the nodes -/

namespace Expr

variable {K : Type}

theorem size_le_sizeList {e : Expr K} {es : List (Expr K)} (h : e ∈ es) :
    e.size ≤ sizeList es := by
  induction es with
  | nil => cases h
  | cons a as ih =>
    rw [sizeList]
    rcases List.mem_cons.1 h with rfl | h
    · omega
    · have := ih h
      omega

/-- A property holds of every expression if each node takes it from its operands, and an
application from its arguments, whatever function is applied. -/
theorem treeInduction {P : Expr K → Prop} (num : ∀ v, P (.num v)) (var : ∀ name, P (.var name))
    (vec : ∀ items, (∀ e ∈ items, P e) → P (.vec items))
    (interval : ∀ lo hi, P lo → P hi → P (.interval lo hi)) (neg : ∀ a, P a → P (.neg a))
    (binary : ∀ op a b, P a → P b → P (.binary op a b))
    (power : ∀ a b, P a → P b → P (.power a b))
    (apply : ∀ f args, (∀ a ∈ args, P a) → P (.apply f args)) (e : Expr K) : P e := by
  induction hn : e.size using Nat.strongRecOn generalizing e with
  | ind n ih =>
    subst hn
    have below : ∀ e', e'.size < e.size → P e' := fun e' h => ih _ h e' rfl
    cases e with
    | num v => exact num v
    | var name => exact var name
    | vec items =>
      refine vec items fun e he => below e ?_
      have := size_le_sizeList he
      rw [size]
      omega
    | interval lo hi =>
      exact interval lo hi (below lo (by rw [size]; omega)) (below hi (by rw [size]; omega))
    | neg a => exact neg a (below a (by rw [size]; omega))
    | binary op a b =>
      exact binary op a b (below a (by rw [size]; omega)) (below b (by rw [size]; omega))
    | power a b =>
      exact power a b (below a (by rw [size]; omega)) (below b (by rw [size]; omega))
    | apply f args =>
      refine apply f args fun a ha => below a ?_
      have := size_le_sizeList ha
      rw [size]
      omega

end Expr

/-! ## Comparing trees -/

section

variable {K : Type} [ExactScalar K]

theorem Builtin.eq_of_beq {b c : Builtin K} (h : (b == c) = true) : b = c := by
  change b.beq c = true at h
  cases b with
  | log x =>
    cases c with
    | log y =>
      rw [ExactScalar.beq_eq_true.1 h]
    | _ => cases h
  | root x =>
    cases c with
    | root y => rw [ExactScalar.beq_eq_true.1 h]
    | _ => cases h
  | _ =>
    cases c with
    | log y => cases h
    | root y => cases h
    | _ => first | rfl | cases h

mutual

/-- Expressions that compare equal are equal. -/
theorem Expr.eq_of_beq : ∀ {a b : Expr K}, a.beq b = true → a = b
  | .num v, b, h => by
    cases b with
    | num w => rw [ExactScalar.beq_eq_true.1 h]
    | _ => cases h
  | .var m, b, h => by
    cases b with
    | var n => rw [beq_iff_eq.1 h]
    | _ => cases h
  | .vec as, b, h => by
    cases b with
    | vec bs => rw [Expr.eq_of_beqList h]
    | _ => cases h
  | .interval lo hi, b, h => by
    cases b with
    | interval lo' hi' =>
      obtain ⟨hlo, hhi⟩ := Bool.and_eq_true_iff.1 h
      rw [Expr.eq_of_beq hlo, Expr.eq_of_beq hhi]
    | _ => cases h
  | .neg a, b, h => by
    cases b with
    | neg b => rw [Expr.eq_of_beq (a := a) h]
    | _ => cases h
  | .binary o a b, c, h => by
    cases c with
    | binary p c d =>
      obtain ⟨h, hb⟩ := Bool.and_eq_true_iff.1 h
      obtain ⟨ho, ha⟩ := Bool.and_eq_true_iff.1 h
      rw [beq_iff_eq.1 ho, Expr.eq_of_beq ha, Expr.eq_of_beq hb]
    | _ => cases h
  | .power a b, c, h => by
    cases c with
    | power c d =>
      obtain ⟨ha, hb⟩ := Bool.and_eq_true_iff.1 h
      rw [Expr.eq_of_beq ha, Expr.eq_of_beq hb]
    | _ => cases h
  | .apply f as, c, h => by
    cases c with
    | apply g bs =>
      obtain ⟨hf, has⟩ := Bool.and_eq_true_iff.1 h
      rw [Func.eq_of_beq hf, Expr.eq_of_beqList has]
    | _ => cases h

/-- Lists of expressions that compare equal are equal. -/
theorem Expr.eq_of_beqList : ∀ {as bs : List (Expr K)}, Expr.beqList as bs = true → as = bs
  | [], bs, h => by
    cases bs with
    | nil => rfl
    | cons _ _ => cases h
  | a :: as, bs, h => by
    cases bs with
    | nil => cases h
    | cons b bs =>
      obtain ⟨ha, has⟩ := Bool.and_eq_true_iff.1 h
      rw [Expr.eq_of_beq ha, Expr.eq_of_beqList has]

/-- Functions that compare equal are equal. -/
theorem Func.eq_of_beq : ∀ {f g : Func K}, f.beq g = true → f = g
  | .custom m ps a, g, h => by
    cases g with
    | custom n qs b =>
      obtain ⟨h, ha⟩ := Bool.and_eq_true_iff.1 h
      obtain ⟨hm, hps⟩ := Bool.and_eq_true_iff.1 h
      rw [beq_iff_eq.1 hm, beq_iff_eq.1 hps, Expr.eq_of_beq ha]
    | _ => cases h
  | .comp f g, k, h => by
    cases k with
    | comp f' g' =>
      obtain ⟨hf, hg⟩ := Bool.and_eq_true_iff.1 h
      rw [Func.eq_of_beq hf, Func.eq_of_beq hg]
    | _ => cases h
  | .builtin b, g, h => by
    cases g with
    | builtin c => rw [Builtin.eq_of_beq h]
    | _ => cases h

end

end

end ZeroSet
