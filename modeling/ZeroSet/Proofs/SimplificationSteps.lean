import ZeroSet.Proofs.Simplification

/-!
# What a rule of simplification does

Every rule of the pass fits one shape of node, under a condition on its literals, and puts a tree
made of the same operands in its place.  `Rule.Step` lists these shapes once; what a pass keeps of a
tree is then read off the list, and the recursion of the pass is gone through here only.

* `Rule.Step` — what one rule makes of a node with simplified operands.
* `Rule.step_binary`, `Rule.step_power`, … — the rules do nothing else.
* `Expr.simplifyInduction` — a relation between trees that each step keeps relates an expression to
  what a pass makes of it.
-/

namespace ZeroSet

variable {K : Type} [Scalar K]

namespace Rule

open ZeroSet.Expr

/-! ## The steps -/

/-- What the rules of a node make of it: the node on the left, with its operands simplified, becomes
the tree on the right. -/
inductive Step : Expr K → Expr K → Prop
  /-- No rule fits. -/
  | unchanged (e : Expr K) : Step e e
  /-- Two signs cancel. -/
  | neg_neg (a : Expr K) : Step (.neg (.neg a)) a
  /-- Zero has no sign. -/
  | neg_zero {v : K} (hv : (v == 0) = true) : Step (.neg (.num v)) (.num 0)
  /-- Two literals are folded. -/
  | folded {op : BinOp} {x y v : K} (hv : op.onReals x y = .ok v) :
    Step (.binary op (.num x) (.num y)) (.num v)
  /-- Nothing is added on the left. -/
  | zero_add {w : K} (hw : (w == 0) = true) (b : Expr K) : Step (.binary .add (.num w) b) b
  /-- Nothing is added on the right. -/
  | add_zero {w : K} (hw : (w == 0) = true) (a : Expr K) : Step (.binary .add a (.num w)) a
  /-- An opposite is added. -/
  | add_neg (a c : Expr K) : Step (.binary .add a (.neg c)) (.binary .sub a c)
  /-- Nothing is taken away. -/
  | sub_zero {w : K} (hw : (w == 0) = true) (a : Expr K) : Step (.binary .sub a (.num w)) a
  /-- Something is taken away from nothing. -/
  | zero_sub {w : K} (hw : (w == 0) = true) {b d : Expr K} (hd : Step (.neg b) d) :
    Step (.binary .sub (.num w) b) d
  /-- Something other than a literal is taken away from its like. -/
  | sub_self {a b : Expr K} (hbeq : a.beq b = true) (ha : ∀ x, a ≠ .num x) :
    Step (.binary .sub a b) (.num 0)
  /-- An opposite is taken away. -/
  | sub_neg (a c : Expr K) : Step (.binary .sub a (.neg c)) (.binary .add a c)
  /-- A zero on the left absorbs what is no literal. -/
  | zero_mul {w : K} (hw : (w == 0) = true) {b : Expr K} (hb : ∀ y, b ≠ .num y) :
    Step (.binary .mul (.num w) b) (.num 0)
  /-- A zero on the right absorbs what is no literal. -/
  | mul_zero {w : K} (hw : (w == 0) = true) {a : Expr K} (ha : ∀ x, a ≠ .num x) :
    Step (.binary .mul a (.num w)) (.num 0)
  /-- One on the left multiplies by nothing. -/
  | one_mul {w : K} (hw : (w == 1) = true) (b : Expr K) : Step (.binary .mul (.num w) b) b
  /-- One on the right multiplies by nothing. -/
  | mul_one {w : K} (hw : (w == 1) = true) (a : Expr K) : Step (.binary .mul a (.num w)) a
  /-- Two opposites are multiplied. -/
  | neg_mul_neg (c d : Expr K) : Step (.binary .mul (.neg c) (.neg d)) (.binary .mul c d)
  /-- A zero absorbs the divisor, if that is no literal. -/
  | zero_div {w : K} (hw : (w == 0) = true) {b : Expr K} (hb : ∀ y, b ≠ .num y) :
    Step (.binary .div (.num w) b) (.num 0)
  /-- One divides into nothing less. -/
  | div_one {w : K} (hw : (w == 1) = true) (a : Expr K) : Step (.binary .div a (.num w)) a
  /-- A power of literals is folded. -/
  | foldedPower {x y : K} (hfinite : Scalar.isFinite (Scalar.pow x y) = true) :
    Step (.power (.num x) (.num y)) (.num (Scalar.pow x y))
  /-- The first power is the base. -/
  | power_one {w : K} (hw : (w == 1) = true) (a : Expr K) : Step (.power a (.num w)) a
  /-- The power with exponent zero absorbs the base. -/
  | power_zero {w : K} (hw : (w == 0) = true) (a : Expr K) : Step (.power a (.num w)) (.num 1)
  /-- A power of zero that is not finite is taken for zero. -/
  | zero_power {v w : K} (hv : (v == 0) = true) (hw : (w == 0) = false)
    (hfinite : Scalar.isFinite (Scalar.pow v w) = false) : Step (.power (.num v) (.num w)) (.num 0)
  /-- A power of one absorbs the exponent. -/
  | one_power {v : K} (hv : (v == 1) = true) (b : Expr K) : Step (.power (.num v) b) (.num 1)
  /-- A built-in of a literal is folded. -/
  | foldedBuiltin {f : Builtin K} {x : K} (hf : f.check = .ok ())
    (hfinite : Scalar.isFinite (f.value x) = true) :
    Step (.apply (.builtin f) [.num x]) (.num (f.value x))
  /-- The exponential undoes a logarithm. -/
  | exp_ln (a : Expr K) : Step (exp (ln a)) a
  /-- The exponential of a multiple of a logarithm is a power. -/
  | exp_mul_ln (a b : Expr K) : Step (exp (.binary .mul b (ln a))) (.power a b)
  /-- The same with the factors exchanged. -/
  | exp_ln_mul (a b : Expr K) : Step (exp (.binary .mul (ln a) b)) (.power a b)
  /-- The logarithm undoes an exponential. -/
  | ln_exp (a : Expr K) : Step (ln (exp a)) a

variable {a b d : Expr K}

theorem exists_of_isNumber {v : K} (h : a.isNumber v = true) :
    ∃ w, a = .num w ∧ (w == v) = true := by
  cases a with
  | num w => exact ⟨w, rfl, h⟩
  | _ => cases h

/-! ## The rules are steps -/

theorem step_neg (a : Expr K) : Step (.neg a) (neg a) := by
  unfold neg
  split
  · exact .neg_neg _
  · split
    · rename_i hv
      exact .neg_zero hv
    · exact .unchanged _
  · exact .unchanged _

theorem step_add (a b : Expr K) : Step (.binary .add a b) (add a b) := by
  unfold add
  split
  · exact .folded rfl
  · split_ifs with ha hb
    · obtain ⟨w, rfl, hw⟩ := exists_of_isNumber ha
      exact .zero_add hw _
    · obtain ⟨w, rfl, hw⟩ := exists_of_isNumber hb
      exact .add_zero hw _
    · split
      · exact .add_neg _ _
      · exact .unchanged _

theorem step_sub (a b : Expr K) : Step (.binary .sub a b) (sub a b) := by
  unfold sub
  split
  · exact .folded rfl
  · rename_i hliterals
    split_ifs with hb ha hbeq
    · obtain ⟨w, rfl, hw⟩ := exists_of_isNumber hb
      exact .sub_zero hw _
    · obtain ⟨w, rfl, hw⟩ := exists_of_isNumber ha
      exact .zero_sub hw (step_neg _)
    · refine .sub_self hbeq fun x hx => ?_
      -- what equals a literal is one
      subst hx
      cases b with
      | num y => exact hliterals x y rfl rfl
      | _ => cases hbeq
    · split
      · exact .sub_neg _ _
      · exact .unchanged _

theorem step_mul (a b : Expr K) : Step (.binary .mul a b) (mul a b) := by
  unfold mul
  split
  · exact .folded rfl
  · rename_i hliterals
    split_ifs with hzero ha hb
    · rcases Bool.or_eq_true_iff.1 hzero with ha | hb
      · obtain ⟨w, rfl, hw⟩ := exists_of_isNumber ha
        exact .zero_mul hw fun y hy => hliterals w y rfl hy
      · obtain ⟨w, rfl, hw⟩ := exists_of_isNumber hb
        exact .mul_zero hw fun x hx => hliterals x w hx rfl
    · obtain ⟨w, rfl, hw⟩ := exists_of_isNumber ha
      exact .one_mul hw _
    · obtain ⟨w, rfl, hw⟩ := exists_of_isNumber hb
      exact .mul_one hw _
    · split
      · exact .neg_mul_neg _ _
      · exact .unchanged _

theorem step_div (h : div a b = .ok d) : Step (.binary .div a b) d := by
  unfold div at h
  split at h
  · cases h
  · rename_i hdivisor
    split at h
    · rename_i x y
      cases h
      exact .folded (if_neg hdivisor)
    · rename_i hliterals
      split_ifs at h with ha hb
      · cases h
        obtain ⟨w, rfl, hw⟩ := exists_of_isNumber ha
        exact .zero_div hw fun y hy => hliterals w y rfl hy
      · cases h
        obtain ⟨w, rfl, hw⟩ := exists_of_isNumber hb
        exact .div_one hw _
      · cases h
        exact .unchanged _

theorem step_binary {op : BinOp} (h : binary op a b = .ok d) : Step (.binary op a b) d := by
  cases op with
  | add =>
    cases h
    exact step_add a b
  | sub =>
    cases h
    exact step_sub a b
  | mul =>
    cases h
    exact step_mul a b
  | div => exact step_div h

/-- Only a quotient fails, and only on a literal zero below it. -/
theorem eq_divisionByZero_of_binary {op : BinOp} {err : EvalError K}
    (h : binary op a b = .error err) : err = .divisionByZero := by
  cases op with
  | div =>
    have h : div a b = .error err := h
    unfold div at h
    split at h
    · cases h
      rfl
    · split at h
      · cases h
      · split_ifs at h
  | _ => cases h

theorem step_power (a b : Expr K) : Step (.power a b) (power a b) := by
  unfold power
  split
  · rename_i p hp
    unfold foldedPower? at hp
    split at hp
    · rename_i x y
      dsimp only at hp
      split_ifs at hp with hfinite
      cases hp
      exact .foldedPower hfinite
    · cases hp
  · rename_i hfolded
    split_ifs with hone hzero hbase hbase
    · obtain ⟨w, rfl, hw⟩ := exists_of_isNumber hone
      exact .power_one hw _
    · obtain ⟨w, rfl, hw⟩ := exists_of_isNumber hzero
      exact .power_zero hw _
    · obtain ⟨hleft, hright⟩ := Bool.and_eq_true_iff.1 hbase
      obtain ⟨v, rfl, hv⟩ := exists_of_isNumber hleft
      cases b with
      | num w =>
        refine .zero_power hv (Bool.not_eq_true _ ▸ hzero) (Bool.not_eq_true _ ▸ fun hfinite => ?_)
        rw [foldedPower?, if_pos hfinite] at hfolded
        cases hfolded
      | _ => cases hright
    · obtain ⟨v, rfl, hv⟩ := exists_of_isNumber hbase
      exact .one_power hv _
    · exact .unchanged _

theorem step_cancelled {f : Builtin K} (h : cancelled? f a = some d) :
    Step (.apply (.builtin f) [a]) d := by
  cases f with
  | exp =>
    rcases Option.or_eq_some_iff.1 h with h | ⟨-, h⟩
    · rw [eq_ln_of_lnArgument? h]
      exact .exp_ln d
    · obtain ⟨base, exponent, rfl | rfl, rfl⟩ := exists_of_expOfProduct? h
      · exact .exp_mul_ln base exponent
      · exact .exp_ln_mul base exponent
  | ln =>
    rw [eq_exp_of_expArgument? h]
    exact .ln_exp d
  | _ => cases h

theorem step_apply (f : Func K) (args : List (Expr K)) : Step (.apply f args) (apply f args) := by
  unfold apply
  split
  · rename_i b arg
    split
    · rename_i y hy
      unfold foldedBuiltin? at hy
      split at hy
      · rename_i x hcheck
        dsimp only at hy
        split_ifs at hy with hfinite
        cases hy
        exact .foldedBuiltin hcheck hfinite
      · cases hy
    · cases hcancelled : cancelled? b arg with
      | none => exact .unchanged _
      | some d => exact step_cancelled hcancelled
  · exact .unchanged _

end Rule

/-! ## The pass -/

namespace Expr

theorem simplifyList_eq_mapM (es : List (Expr K)) : simplifyList es = es.mapM simplify := by
  induction es with
  | nil => rfl
  | cons e es ih =>
    rw [simplifyList, List.mapM_cons, ih]

/-- A relation holds between every expression and what a pass makes of it, if it holds at the
leaves, is passed on by vectors and intervals, and is passed on by every other node to all that a
step makes of the node with its operands simplified. -/
theorem simplifyInduction {R : Expr K → Expr K → Prop} (num : ∀ v, R (.num v) (.num v))
    (var : ∀ name, R (.var name) (.var name))
    (vec : ∀ {items ds}, List.Forall₂ R items ds → R (.vec items) (.vec ds))
    (interval : ∀ {lo hi lo' hi'}, R lo lo' → R hi hi' → R (.interval lo hi) (.interval lo' hi'))
    (neg : ∀ {a a' d}, a.simplify = .ok a' → R a a' → Rule.Step (.neg a') d → R (.neg a) d)
    (binary : ∀ {op a b a' b' d}, a.simplify = .ok a' → b.simplify = .ok b' → R a a' → R b b' →
      Rule.Step (.binary op a' b') d → R (.binary op a b) d)
    (power : ∀ {a b a' b' d}, a.simplify = .ok a' → b.simplify = .ok b' → R a a' → R b b' →
      Rule.Step (.power a' b') d → R (.power a b) d)
    (apply : ∀ {f args args' d}, List.Forall₂ R args args' → Rule.Step (.apply f args') d →
      R (.apply f args) d)
    {e d : Expr K} (h : e.simplify = .ok d) : R e d := by
  have list : ∀ {es ds : List (Expr K)}, (∀ e ∈ es, ∀ {d}, e.simplify = .ok d → R e d) →
      simplifyList es = .ok ds → List.Forall₂ R es ds := by
    intro es ds hes h
    rw [simplifyList_eq_mapM] at h
    have hboth := (List.forall₂_and_left _ _).2 ⟨hes, mapM_eq_ok.1 h⟩
    exact hboth.imp fun e d hed => hed.1 hed.2
  induction e using treeInduction generalizing d with
  | num v =>
    cases h
    exact num v
  | var name =>
    cases h
    exact var name
  | vec items ih =>
    obtain ⟨ds, hds, h⟩ := bind_eq_ok.1 h
    cases h
    exact vec (list ih hds)
  | interval lo hi ihlo ihhi =>
    obtain ⟨lo', hlo, h⟩ := bind_eq_ok.1 h
    obtain ⟨hi', hhi, h⟩ := bind_eq_ok.1 h
    cases h
    exact interval (ihlo hlo) (ihhi hhi)
  | neg a ih =>
    obtain ⟨a', ha, h⟩ := bind_eq_ok.1 h
    cases h
    exact neg ha (ih ha) (Rule.step_neg a')
  | binary op a b iha ihb =>
    obtain ⟨a', ha, h⟩ := bind_eq_ok.1 h
    obtain ⟨b', hb, h⟩ := bind_eq_ok.1 h
    exact binary ha hb (iha ha) (ihb hb) (Rule.step_binary h)
  | power a b iha ihb =>
    obtain ⟨a', ha, h⟩ := bind_eq_ok.1 h
    obtain ⟨b', hb, h⟩ := bind_eq_ok.1 h
    cases h
    exact power ha hb (iha ha) (ihb hb) (Rule.step_power a' b')
  | apply f args ih =>
    obtain ⟨args', hargs, h⟩ := bind_eq_ok.1 h
    cases h
    exact apply (list ih hargs) (Rule.step_apply f args')

end Expr

end ZeroSet
