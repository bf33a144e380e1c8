import ZeroSet.Proofs.Trees
import ZeroSet.Proofs.RealValue
import ZeroSet.Proofs.Compositions
import ZeroSet.Expr.Simplify

/-!
# Simplifying keeps values

Where an expression has a value and everything on the way to it is defined, the simplified
expression has the same value.  The rules drop operands and move them under other operators, so
what is kept from the leaves to the root is not the value alone, but that nothing undefined is
computed either.

* `Builtin.DefinedAt`, `Scalar.PowDefined` — where built-ins and powers are finite.
* `Expr.Defined` — every power and every built-in in an expression is finite.
* `Expr.Evaluates` — the invariant: a value, and nothing undefined on the way.
* `Rule.evaluates_add`, `Rule.evaluates_mul`, … — the rules of each node.
* `Expr.appliesStrict` — every function that is applied evaluates its arguments, which the pass
  simplifies in any case.
* `Expr.evaluateReal_simplify` — the simplified expression has the value of the expression.
-/

namespace ZeroSet

section

variable {K : Type} [ExactScalar K]

/-! ## Where operations are defined -/

/-- The power is a finite number: the base is positive, or it is zero and the exponent not
negative, or it is negative and the exponent whole. -/
def Scalar.PowDefined (x y : K) : Prop := 0 < x ∨ x = 0 ∧ 0 ≤ y ∨ x < 0 ∧ ∃ n : ℤ, y = n

/-- The built-in has a finite value at the argument. -/
def Builtin.DefinedAt : Builtin K → K → Prop
  | .exp, _ => True
  | .ln, u => 0 < u
  | .log _, u => 0 < u
  | .sqrt, u => 0 ≤ u
  | .root degree, u => Scalar.PowDefined u (1 / degree)

namespace Expr

/-- Every power and every built-in of an expression is taken where it is defined.  Divisors need
no condition, since a quotient by zero has no value, nor do the bodies of applied functions,
which stay as they are. -/
inductive Defined (depth : Nat) (env : Env K) : Expr K → Prop
  /-- A literal. -/
  | num {v : K} : Defined depth env (.num v)
  /-- A variable. -/
  | var {name : String} : Defined depth env (.var name)
  /-- A negation. -/
  | neg {a : Expr K} (ha : Defined depth env a) : Defined depth env (.neg a)
  /-- A sum, difference, product or quotient. -/
  | binary {op : BinOp} {a b : Expr K} (ha : Defined depth env a) (hb : Defined depth env b) :
    Defined depth env (.binary op a b)
  /-- A power of numbers that have it. -/
  | power {a b : Expr K} {x y : K} (hx : a.Yields depth env x) (hy : b.Yields depth env y)
    (hxy : Scalar.PowDefined x y) (ha : Defined depth env a) (hb : Defined depth env b) :
    Defined depth env (.power a b)
  /-- A built-in of a number in its domain. -/
  | builtin {f : Builtin K} {a : Expr K} {x : K} (hx : a.Yields depth env x)
    (hfx : f.DefinedAt x) (ha : Defined depth env a) :
    Defined depth env (.apply (.builtin f) [a])
  /-- A user function. -/
  | custom {name : String} {params : List String} {body : Expr K} {args : List (Expr K)}
    (hargs : ∀ a ∈ args, Defined depth env a) :
    Defined depth env (.apply (.custom name params body) args)
  /-- A composition. -/
  | comp {inner outer : Func K} {args : List (Expr K)}
    (hargs : ∀ a ∈ args, Defined depth env a) : Defined depth env (.apply (.comp inner outer) args)

/-- The expression has a value, and nothing undefined is computed on the way. -/
structure Evaluates (depth : Nat) (env : Env K) (e : Expr K) (x : K) : Prop where
  /-- The value. -/
  yields : e.Yields depth env x
  /-- Every operation is defined. -/
  defined : e.Defined depth env

variable {depth : Nat} {env : Env K} {a b : Expr K} {x y z : K}

/-! ## From the parts to the whole -/

theorem evaluates_num (x : K) : (num x).Evaluates depth env x := ⟨yields_num x, .num⟩

namespace Evaluates

theorem neg (ha : a.Evaluates depth env x) : (-a).Evaluates depth env (-x) :=
  ⟨ha.yields.neg, .neg ha.defined⟩

theorem binary {op : BinOp} (ha : a.Evaluates depth env x) (hb : b.Evaluates depth env y)
    (h : op.onReals x y = .ok z) : (Expr.binary op a b).Evaluates depth env z :=
  ⟨ha.yields.binary hb.yields h, .binary ha.defined hb.defined⟩

theorem add (ha : a.Evaluates depth env x) (hb : b.Evaluates depth env y) :
    (a + b).Evaluates depth env (x + y) := ha.binary hb rfl

theorem sub (ha : a.Evaluates depth env x) (hb : b.Evaluates depth env y) :
    (a - b).Evaluates depth env (x - y) := ha.binary hb rfl

theorem mul (ha : a.Evaluates depth env x) (hb : b.Evaluates depth env y) :
    (a * b).Evaluates depth env (x * y) := ha.binary hb rfl

theorem power (ha : a.Evaluates depth env x) (hb : b.Evaluates depth env y)
    (hxy : Scalar.PowDefined x y) : (Expr.power a b).Evaluates depth env (Scalar.pow x y) :=
  ⟨ha.yields.power hb.yields, .power ha.yields hb.yields hxy ha.defined hb.defined⟩

theorem builtin {f : Builtin K} (hf : f.check = .ok ()) (ha : a.Evaluates depth env x)
    (hfx : f.DefinedAt x) : (apply (.builtin f) [a]).Evaluates depth env (f.value x) :=
  ⟨ha.yields.builtin hf, .builtin ha.yields hfx ha.defined⟩

/-! ## From the whole to the parts -/

theorem of_num (h : (num x).Evaluates depth env z) : z = x := h.yields.unique (yields_num x)

theorem exists_neg (h : (Expr.neg a).Evaluates depth env z) :
    ∃ x, a.Evaluates depth env x ∧ z = -x := by
  obtain ⟨x, hx, rfl⟩ := h.yields.exists_neg
  cases h.defined with
  | neg ha => exact ⟨x, ⟨hx, ha⟩, rfl⟩

theorem exists_binary {op : BinOp} (h : (Expr.binary op a b).Evaluates depth env z) :
    ∃ x y, a.Evaluates depth env x ∧ b.Evaluates depth env y ∧ op.onReals x y = .ok z := by
  obtain ⟨x, y, hx, hy, hz⟩ := h.yields.exists_binary
  cases h.defined with
  | binary ha hb => exact ⟨x, y, ⟨hx, ha⟩, ⟨hy, hb⟩, hz⟩

theorem exists_power (h : (Expr.power a b).Evaluates depth env z) :
    ∃ x y, a.Evaluates depth env x ∧ b.Evaluates depth env y ∧ Scalar.PowDefined x y ∧
      z = Scalar.pow x y := by
  cases h.defined with
  | power hx hy hxy ha hb =>
    exact ⟨_, _, ⟨hx, ha⟩, ⟨hy, hb⟩, hxy, h.yields.unique (hx.power hy)⟩

theorem exists_builtin {f : Builtin K} {args : List (Expr K)}
    (h : (apply (.builtin f) args).Evaluates depth env z) :
    f.check = .ok () ∧ ∃ a x, args = [a] ∧ a.Evaluates depth env x ∧ f.DefinedAt x ∧
      z = f.value x := by
  cases h.defined with
  | @builtin _ a x hx hfx ha =>
    obtain ⟨hf, x', hx', rfl⟩ := h.yields.exists_builtin
    cases hx'.unique hx
    exact ⟨hf, a, x, rfl, ⟨hx, ha⟩, hfx, rfl⟩

end Evaluates

theorem Evaluates.div (ha : a.Evaluates depth env x) (hb : b.Evaluates depth env y) (hy : y ≠ 0) :
    (a / b).Evaluates depth env (x / y) :=
  ⟨ha.yields.div hb.yields hy, .binary ha.defined hb.defined⟩

theorem eq_num_of_isNumber {v : K} (h : a.isNumber v = true) : a = num v := by
  cases a with
  | num w => rw [ExactScalar.beq_eq_true.1 h]
  | _ => cases h

theorem Evaluates.eq_of_isNumber {v : K} (ha : a.Evaluates depth env x)
    (h : a.isNumber v = true) : x = v := by
  rw [eq_num_of_isNumber h] at ha
  exact ha.of_num

end Expr

/-! ## The rules of arithmetic -/

namespace Rule

open ZeroSet.Expr

variable {depth : Nat} {env : Env K} {a b : Expr K} {x y : K}

theorem evaluates_neg (ha : a.Evaluates depth env x) :
    (Rule.neg a).Evaluates depth env (-x) := by
  unfold Rule.neg
  split
  · obtain ⟨y, hy, rfl⟩ := ha.exists_neg
    rwa [neg_neg]
  · cases ha.of_num
    split
    · rename_i hzero
      rw [ExactScalar.beq_eq_true.1 hzero, neg_zero]
      exact evaluates_num 0
    · exact ha.neg
  · exact ha.neg

theorem evaluates_add (ha : a.Evaluates depth env x) (hb : b.Evaluates depth env y) :
    (Rule.add a b).Evaluates depth env (x + y) := by
  unfold Rule.add
  split
  · cases ha.of_num
    cases hb.of_num
    exact evaluates_num _
  · split_ifs with hleft hright
    · rwa [ha.eq_of_isNumber hleft, zero_add]
    · rwa [hb.eq_of_isNumber hright, add_zero]
    · split
      · obtain ⟨z, hz, rfl⟩ := hb.exists_neg
        rw [← sub_eq_add_neg]
        exact ha.sub hz
      · exact ha.add hb

theorem evaluates_sub (ha : a.Evaluates depth env x) (hb : b.Evaluates depth env y) :
    (Rule.sub a b).Evaluates depth env (x - y) := by
  unfold Rule.sub
  split
  · cases ha.of_num
    cases hb.of_num
    exact evaluates_num _
  · split_ifs with hright hleft hsame
    · rwa [hb.eq_of_isNumber hright, sub_zero]
    · rw [ha.eq_of_isNumber hleft, zero_sub]
      exact evaluates_neg hb
    · cases eq_of_beq hsame
      rw [ha.yields.unique hb.yields, sub_self]
      exact evaluates_num 0
    · split
      · obtain ⟨z, hz, rfl⟩ := hb.exists_neg
        rw [sub_neg_eq_add]
        exact ha.add hz
      · exact ha.sub hb

theorem evaluates_mul (ha : a.Evaluates depth env x) (hb : b.Evaluates depth env y) :
    (Rule.mul a b).Evaluates depth env (x * y) := by
  unfold Rule.mul
  split
  · cases ha.of_num
    cases hb.of_num
    exact evaluates_num _
  · split_ifs with hzero hleft hright
    · have hproduct : x * y = 0 := by
        rcases Bool.or_eq_true_iff.1 hzero with hzero | hzero
        · rw [ha.eq_of_isNumber hzero, zero_mul]
        · rw [hb.eq_of_isNumber hzero, mul_zero]
      rw [hproduct]
      exact evaluates_num 0
    · rwa [ha.eq_of_isNumber hleft, one_mul]
    · rwa [hb.eq_of_isNumber hright, mul_one]
    · split
      · obtain ⟨u, hu, rfl⟩ := ha.exists_neg
        obtain ⟨w, hw, rfl⟩ := hb.exists_neg
        rw [neg_mul_neg]
        exact hu.mul hw
      · exact ha.mul hb

/-- A divisor with a value other than zero is not the literal zero, so the rules do not fail. -/
theorem exists_div (ha : a.Evaluates depth env x) (hb : b.Evaluates depth env y) (hy : y ≠ 0) :
    ∃ e, Rule.div a b = .ok e ∧ e.Evaluates depth env (x / y) := by
  have hdivisor : ¬b.isNumber 0 = true := fun hzero => hy (hb.eq_of_isNumber hzero)
  unfold Rule.div
  rw [if_neg hdivisor]
  split
  · cases ha.of_num
    cases hb.of_num
    exact ⟨_, rfl, evaluates_num _⟩
  · split_ifs with hleft hright
    · refine ⟨_, rfl, ?_⟩
      rw [ha.eq_of_isNumber hleft, zero_div]
      exact evaluates_num 0
    · refine ⟨_, rfl, ?_⟩
      rwa [hb.eq_of_isNumber hright, div_one]
    · exact ⟨_, rfl, ha.div hb hy⟩

theorem exists_binary {op : BinOp} {z : K} (ha : a.Evaluates depth env x)
    (hb : b.Evaluates depth env y) (h : op.onReals x y = .ok z) :
    ∃ e, Rule.binary op a b = .ok e ∧ e.Evaluates depth env z := by
  cases op with
  | add =>
    cases h
    exact ⟨_, rfl, evaluates_add ha hb⟩
  | sub =>
    cases h
    exact ⟨_, rfl, evaluates_sub ha hb⟩
  | mul =>
    cases h
    exact ⟨_, rfl, evaluates_mul ha hb⟩
  | div =>
    rw [BinOp.onReals] at h
    split at h
    · cases h
    · rename_i hy
      cases h
      exact exists_div ha hb fun hzero => hy (ExactScalar.beq_eq_true.2 hzero)

end Rule

end

/-! ## The rules of powers and built-ins -/

section

namespace Rule

open ZeroSet.Expr

variable {K : Type} {a e : Expr K}

theorem eq_ln_of_lnArgument? (h : lnArgument? e = some a) : e = ln a := by
  unfold lnArgument? at h
  split at h
  · cases h
    rfl
  · cases h

theorem eq_exp_of_expArgument? (h : expArgument? e = some a) : e = exp a := by
  unfold expArgument? at h
  split at h
  · cases h
    rfl
  · cases h

theorem exists_of_expOfProduct? (h : expOfProduct? a = some e) :
    ∃ base exponent, (a = exponent * ln base ∨ a = ln base * exponent) ∧
      e = Expr.power base exponent := by
  unfold expOfProduct? at h
  split at h
  · rename_i left right
    split at h
    · rename_i base hright
      cases h
      exact ⟨base, left, .inl (congrArg _ (eq_ln_of_lnArgument? hright)), rfl⟩
    · obtain ⟨base, hleft, rfl⟩ := Option.map_eq_some_iff.1 h
      rw [eq_ln_of_lnArgument? hleft]
      exact ⟨base, right, .inr rfl, rfl⟩
  · cases h

end Rule

end

section

variable {K : Type} [InverseScalar K]

namespace Rule

open ZeroSet.Expr

variable {depth : Nat} {env : Env K} {a b e : Expr K} {x y : K}

/-- Exact numbers are finite, so the powers of literals are always folded. -/
theorem foldedPower?_num (x y : K) : foldedPower? (num x) (num y) = some (Scalar.pow x y) := by
  rw [foldedPower?, ExactScalar.isFinite_eq_true]
  rfl

theorem exists_of_foldedPower? {p : K} (h : foldedPower? a b = some p) :
    ∃ x y, a = num x ∧ b = num y ∧ p = Scalar.pow x y := by
  unfold foldedPower? at h
  split at h
  · rename_i x y
    have hfinite : some (Scalar.pow x y) = some p := (foldedPower?_num x y).symm.trans h
    cases hfinite
    exact ⟨_, _, rfl, rfl, rfl⟩
  · cases h

theorem evaluates_power (ha : a.Evaluates depth env x) (hb : b.Evaluates depth env y)
    (hxy : Scalar.PowDefined x y) : (Rule.power a b).Evaluates depth env (Scalar.pow x y) := by
  unfold Rule.power
  split
  · rename_i p hfolded
    obtain ⟨x', y', rfl, rfl, rfl⟩ := exists_of_foldedPower? hfolded
    rw [ha.of_num, hb.of_num]
    exact evaluates_num _
  · rename_i hfolded
    split_ifs with hone hzero hbase hbase
    · have hpow : Scalar.pow x 1 = x := InverseScalar.pow_one x
      rwa [hb.eq_of_isNumber hone, hpow]
    · have hpow : Scalar.pow x 0 = 1 := InverseScalar.pow_zero x
      rw [hb.eq_of_isNumber hzero, hpow]
      exact evaluates_num 1
    · -- here both operands are literals, and these have been folded
      obtain ⟨hleft, hright⟩ := Bool.and_eq_true_iff.1 hbase
      cases b with
      | num w =>
        rw [eq_num_of_isNumber hleft, foldedPower?_num] at hfolded
        cases hfolded
      | _ => cases hright
    · have hpow : Scalar.pow 1 y = 1 := InverseScalar.one_pow y
      rw [ha.eq_of_isNumber hbase, hpow]
      exact evaluates_num 1
    · exact ha.power hb hxy

/-- What a logarithm is taken of is positive. -/
theorem exists_of_ln (h : (ln a).Evaluates depth env x) :
    ∃ u, a.Evaluates depth env u ∧ 0 < u ∧ x = Scalar.ln u := by
  obtain ⟨-, a', u, hargs, hu, hpos, rfl⟩ := h.exists_builtin
  cases hargs
  exact ⟨u, hu, hpos, rfl⟩

/-- A built-in and the one below it are removed only where they undo each other. -/
theorem evaluates_cancelled {f : Builtin K} (ha : a.Evaluates depth env x)
    (h : cancelled? f a = some e) : e.Evaluates depth env (f.value x) := by
  cases f with
  | exp =>
    show e.Evaluates depth env (Scalar.exp x)
    rcases Option.or_eq_some_iff.1 h with h | ⟨-, h⟩
    · rw [eq_ln_of_lnArgument? h] at ha
      obtain ⟨u, hu, hpos, rfl⟩ := exists_of_ln ha
      have hinverse : Scalar.exp (Scalar.ln u) = u := InverseScalar.exp_ln u hpos
      rwa [hinverse]
    · obtain ⟨base, exponent, ha', rfl⟩ := exists_of_expOfProduct? h
      have hfactors : ∃ u w, base.Evaluates depth env u ∧ 0 < u ∧
          exponent.Evaluates depth env w ∧ x = w * Scalar.ln u := by
        rcases ha' with rfl | rfl
        · obtain ⟨w, l, hw, hl, hx⟩ := ha.exists_binary
          obtain ⟨u, hu, hpos, rfl⟩ := exists_of_ln hl
          cases hx
          exact ⟨u, w, hu, hpos, hw, rfl⟩
        · obtain ⟨l, w, hl, hw, hx⟩ := ha.exists_binary
          obtain ⟨u, hu, hpos, rfl⟩ := exists_of_ln hl
          cases hx
          exact ⟨u, w, hu, hpos, hw, mul_comm _ _⟩
      obtain ⟨u, w, hu, hpos, hw, rfl⟩ := hfactors
      have hpow : Scalar.exp (w * Scalar.ln u) = Scalar.pow u w :=
        ElementaryScalar.exp_mul_ln u w hpos
      rw [hpow]
      exact hu.power hw (.inl hpos)
  | ln =>
    rw [eq_exp_of_expArgument? h] at ha
    obtain ⟨-, a', u, hargs, hu, -, rfl⟩ := ha.exists_builtin
    cases hargs
    have hinverse : Builtin.ln.value (Builtin.exp.value u) = u := InverseScalar.ln_exp u
    rwa [hinverse]
  | _ => cases h

theorem eq_num_of_foldedBuiltin? {f : Builtin K} (h : foldedBuiltin? f a = some y) :
    ∃ x, a = num x ∧ y = f.value x := by
  unfold foldedBuiltin? at h
  split at h
  · dsimp only at h
    rw [ExactScalar.isFinite_eq_true] at h
    cases h
    exact ⟨_, rfl, rfl⟩
  · cases h

theorem apply_builtin (f : Builtin K) (a : Expr K) :
    Rule.apply (.builtin f) [a] =
      match foldedBuiltin? f a with
      | some y => num y
      | none => (cancelled? f a).getD (.apply (.builtin f) [a]) := rfl

theorem evaluates_builtin {f : Builtin K} (hf : f.check = .ok ())
    (ha : a.Evaluates depth env x) (hfx : f.DefinedAt x) :
    (Rule.apply (.builtin f) [a]).Evaluates depth env (f.value x) := by
  rw [apply_builtin]
  split
  · rename_i hfolded
    obtain ⟨u, rfl, rfl⟩ := eq_num_of_foldedBuiltin? hfolded
    rw [ha.of_num]
    exact evaluates_num _
  · cases hcancelled : cancelled? f a with
    | none => exact ha.builtin hf hfx
    | some e => exact evaluates_cancelled ha hcancelled

end Rule

end

/-! ## Functions that evaluate their arguments -/

section

variable {K : Type}

mutual

/-- Whether every function that an expression applies has to evaluate its arguments. -/
def Expr.appliesStrict : Expr K → Bool
  | .num _ => true
  | .var _ => true
  | .vec items => Expr.appliesStrictList items
  | .interval lo hi => lo.appliesStrict && hi.appliesStrict
  | .neg a => a.appliesStrict
  | .binary _ a b => a.appliesStrict && b.appliesStrict
  | .power a b => a.appliesStrict && b.appliesStrict
  | .apply f args => f.isStrict && Expr.appliesStrictList args

/-- Whether every function applied in a list of expressions has to evaluate its arguments. -/
def Expr.appliesStrictList : List (Expr K) → Bool
  | [] => true
  | e :: es => e.appliesStrict && Expr.appliesStrictList es

end

theorem Expr.appliesStrictList_iff {es : List (Expr K)} :
    Expr.appliesStrictList es = true ↔ ∀ e ∈ es, e.appliesStrict = true := by
  induction es with
  | nil => simp [appliesStrictList]
  | cons e es ih => simp [appliesStrictList, ih]

end

/-! ## The pass -/

namespace Expr

variable {K : Type} [InverseScalar K] {depth : Nat} {env : Env K}

/-- Arguments that can be simplified one by one can be simplified together. -/
theorem exists_simplifyList {args : List (Expr K)}
    (h : ∀ a ∈ args, ∃ x a', a.Yields depth env x ∧ a.simplify = .ok a' ∧
      a'.Evaluates depth env x) :
    ∃ args', simplifyList args = .ok args' ∧ SameOutcomes .real depth env env args args' ∧
      ∀ a' ∈ args', a'.Defined depth env := by
  induction args with
  | nil => exact ⟨[], rfl, .nil, fun a ha => absurd ha List.not_mem_nil⟩
  | cons a args ih =>
    obtain ⟨x, a', hx, ha', hax⟩ := h a (List.mem_cons_self ..)
    obtain ⟨args', hargs', hsame, hdefined⟩ := ih fun b hb => h b (List.mem_cons_of_mem _ hb)
    refine ⟨a' :: args', ?_, .cons (hx.trans hax.yields.symm) hsame, ?_⟩
    · rw [simplifyList, ha', hargs']
      rfl
    · exact List.forall_mem_cons.2 ⟨hax.defined, hdefined⟩

/-- Applying a function that is not a built-in to simplified arguments. -/
theorem Evaluates.exists_simplify_apply {f : Func K} {args : List (Expr K)} {v : K}
    (hf : f.isStrict = true) (hrule : ∀ args', Rule.apply f args' = apply f args')
    (hdefined : ∀ args', (∀ a ∈ args', a.Defined depth env) → (apply f args').Defined depth env)
    (h : (apply f args).Yields depth env v)
    (ih : ∀ a ∈ args, ∀ x, a.Yields depth env x →
      ∃ a', a.simplify = .ok a' ∧ a'.Evaluates depth env x) :
    ∃ e', (apply f args).simplify = .ok e' ∧ e'.Evaluates depth env v := by
  have hargs : ∀ a ∈ args, ∃ x a', a.Yields depth env x ∧ a.simplify = .ok a' ∧
      a'.Evaluates depth env x := by
    intro a ha
    obtain ⟨w, hw⟩ := exists_outcome_of_isStrict hf h a ha
    obtain ⟨x, rfl⟩ := real_of_outcome hw
    obtain ⟨a', ha', hax⟩ := ih a ha x hw
    exact ⟨x, a', hw, ha', hax⟩
  obtain ⟨args', hargs', hsame, hall⟩ := exists_simplifyList hargs
  have hcongr := outcome_apply_congr f (.refl env) (fun _ _ => trivial) hsame
  refine ⟨apply f args', ?_, hcongr.symm.trans h, hdefined args' hall⟩
  rw [simplify, hargs', ← hrule args']
  rfl

/-- The pass keeps the invariant from the leaves to the root. -/
theorem Evaluates.exists_simplify {e : Expr K} {v : K} (hstrict : e.appliesStrict = true)
    (h : e.Evaluates depth env v) : ∃ e', e.simplify = .ok e' ∧ e'.Evaluates depth env v := by
  induction e using treeInduction generalizing v with
  | num x => exact ⟨_, rfl, h⟩
  | var name => exact ⟨_, rfl, h⟩
  | vec items _ => cases h.defined
  | interval lo hi _ _ => cases h.defined
  | neg a ih =>
    obtain ⟨x, hx, rfl⟩ := h.exists_neg
    obtain ⟨a', ha', hx'⟩ := ih hstrict hx
    refine ⟨Rule.neg a', ?_, Rule.evaluates_neg hx'⟩
    rw [simplify, ha']
    rfl
  | binary op a b iha ihb =>
    obtain ⟨hsa, hsb⟩ := Bool.and_eq_true_iff.1 hstrict
    obtain ⟨x, y, hx, hy, hz⟩ := h.exists_binary
    obtain ⟨a', ha', hx'⟩ := iha hsa hx
    obtain ⟨b', hb', hy'⟩ := ihb hsb hy
    obtain ⟨e', he', hz'⟩ := Rule.exists_binary hx' hy' hz
    refine ⟨e', ?_, hz'⟩
    rw [simplify, ha', hb']
    exact he'
  | power a b iha ihb =>
    obtain ⟨hsa, hsb⟩ := Bool.and_eq_true_iff.1 hstrict
    obtain ⟨x, y, hx, hy, hxy, rfl⟩ := h.exists_power
    obtain ⟨a', ha', hx'⟩ := iha hsa hx
    obtain ⟨b', hb', hy'⟩ := ihb hsb hy
    refine ⟨Rule.power a' b', ?_, Rule.evaluates_power hx' hy' hxy⟩
    rw [simplify, ha', hb']
    rfl
  | apply f args ih =>
    obtain ⟨hf, hsargs⟩ := Bool.and_eq_true_iff.1 hstrict
    have hsarg := appliesStrictList_iff.1 hsargs
    cases f with
    | builtin b =>
      obtain ⟨hb, a, x, rfl, ha, hbx, rfl⟩ := h.exists_builtin
      have hmem : a ∈ [a] := List.mem_singleton_self a
      obtain ⟨a', ha', hx'⟩ := ih a hmem (hsarg a hmem) ha
      refine ⟨Rule.apply (.builtin b) [a'], ?_, Rule.evaluates_builtin hb hx' hbx⟩
      rw [simplify, simplifyList, ha']
      rfl
    | custom name params body =>
      cases h.defined with
      | custom hargs =>
        exact exists_simplify_apply hf (fun _ => rfl) (fun _ => .custom) h.yields
          fun a ha x hx => ih a ha (hsarg a ha) ⟨hx, hargs a ha⟩
    | comp inner outer =>
      cases h.defined with
      | comp hargs =>
        exact exists_simplify_apply hf (fun _ => rfl) (fun _ => .comp) h.yields
          fun a ha x hx => ih a ha (hsarg a ha) ⟨hx, hargs a ha⟩

/-- If an expression has a value, with every power and built-in on the way defined and every
argument of a function evaluated, then it can be simplified, and the simplified expression has
the same value. -/
theorem evaluateReal_simplify {e : Expr K} {v : K} (hstrict : e.appliesStrict = true)
    (hdefined : e.Defined (env.bindings.size + 1) env) (h : e.evaluateReal.value env = .ok v) :
    ∃ e', e.simplify = .ok e' ∧ e'.evaluateReal.value env = .ok v := by
  have hevaluates : e.Evaluates (env.bindings.size + 1) env v :=
    ⟨evaluateReal_eq_ok.1 h, hdefined⟩
  obtain ⟨e', he', hv⟩ := hevaluates.exists_simplify hstrict
  exact ⟨e', he', evaluateReal_eq_ok.2 hv.yields⟩

/-- The exponential of a multiple of a logarithm is simplified to a power. -/
theorem evaluateReal_simplify_power :
    ∃ e', (exp (num 2 * ln (var "x")) / num 1 : Expr ℝ).simplify = .ok e' ∧
      e'.evaluateReal.value (.ofList [("x", num 3)]) = .ok 9 := by
  have hx : (var "x").Evaluates 2 (.ofList [("x", num (3 : ℝ))]) 3 :=
    ⟨yields_var List.not_mem_nil rfl, .var⟩
  have hpos : (0 : ℝ) < 3 := by norm_num
  have hln := hx.builtin (f := .ln) rfl hpos
  have hexp := ((evaluates_num 2).mul hln).builtin (f := .exp) rfl trivial
  have hquotient := hexp.div (evaluates_num 1) one_ne_zero
  have hnine : Builtin.exp.value (2 * Builtin.ln.value (3 : ℝ)) / 1 = 9 := by
    show Real.exp (2 * Real.log 3) / 1 = 9
    rw [mul_comm, Real.exp_mul, Real.exp_log (by norm_num)]
    norm_num
  rw [hnine] at hquotient
  exact evaluateReal_simplify rfl hquotient.defined (evaluateReal_eq_ok.2 hquotient.yields)

/-- An application of a composition that evaluates to a number whatever its argument is, since the
inner function has no components to pass on. -/
def ignoring (arg : Expr K) (v : K) : Expr K :=
  .apply (.comp (.custom "f" ["x"] (.vec [])) (.custom "g" [] (.num v))) [arg]

/-- An argument that is never evaluated is simplified nevertheless, and may fail to be. -/
theorem simplify_ignoring_divisionByZero :
    (ignoring (num 1 / num 0) 5 : Expr ℝ).Defined 1 .empty ∧
      (ignoring (num 1 / num 0) 5 : Expr ℝ).evaluateReal.value .empty = .ok 5 ∧
      (ignoring (num 1 / num 0) 5 : Expr ℝ).simplify = .error .divisionByZero := by
  refine ⟨.comp fun a ha => ?_, evaluateReal_eq_ok.2 ?_, ?_⟩
  · cases List.mem_singleton.1 ha
    exact .binary .num .num
  · have hconstant : (apply (.custom "g" [] (num 5)) []).Yields 1 .empty (5 : ℝ) := by
      show Expr.outcome _ _ _ _ = _
      rw [outcome_custom]
      exact outcome_num 5
    show Expr.outcome _ _ _ _ = _
    rw [ignoring, outcome_comp]
    exact hconstant
  · have hdivisor : (num 0 : Expr ℝ).isNumber 0 = true := ExactScalar.beq_self 0
    have hargument : (num 1 / num 0 : Expr ℝ).simplify = .error .divisionByZero := by
      show Rule.div (num 1) (num 0) = _
      rw [Rule.div, if_pos hdivisor]
    rw [ignoring, simplify, simplifyList, hargument]
    rfl

end Expr

end ZeroSet
