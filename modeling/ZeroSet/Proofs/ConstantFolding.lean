import ZeroSet.Proofs.SimplificationSteps
import ZeroSet.Proofs.FloatArithmetic

/-!
# Folding constants agrees with evaluating them

A pass computes with literals what an evaluation would compute, and it moves signs, zeros and ones
in ways that leave a float what it is.  It also drops operands without computing them: the other
factor of a zero, the divisor of a zero, the base above an exponent zero, the exponent of a one, two
like operands of a difference.  Where these could be computed, and without a result that the rule
does not reckon with, the number that an expression is folded into is its value.

* `Expr.Agrees` — two expressions with one outcome, up to the sign of a zero.
* `Expr.PowersTame` — no power shows the sign of a zero.
* `Expr.DropsSafely` — what a pass drops may be dropped.
* `Rule.rewrites_neg`, `Rule.agrees_binary`, `Rule.agrees_power` — the rules of each node.
* `Expr.agrees_simplify` — the simplified expression agrees with the expression.
* `Expr.evaluateReal_of_folded` — what an expression is folded into is what it evaluates to.
-/

namespace ZeroSet

open Scalar

variable {K : Type} [Scalar K] {depth : Nat} {env : Env K} {a a' b b' c d e : Expr K} {op : BinOp}
  {v w x x' y y' z : K}

namespace Expr

/-! ## Expressions with one outcome -/

/-- Both expressions evaluate to one number, up to the sign of a zero, or neither has a value. -/
structure Agrees (depth : Nat) (env : Env K) (a b : Expr K) : Prop where
  /-- The second has the value of the first. -/
  forward : ∀ {x}, a.Yields depth env x → ∃ y, b.Yields depth env y ∧ Same x y
  /-- The first has the value of the second. -/
  backward : ∀ {y}, b.Yields depth env y → ∃ x, a.Yields depth env x ∧ Same x y

/-- The expression is arithmetic, and no power in it shows the sign of a zero. -/
inductive PowersTame (depth : Nat) (env : Env K) : Expr K → Prop
  /-- A literal. -/
  | num (v : K) : PowersTame depth env (.num v)
  /-- A negation. -/
  | neg {a : Expr K} (ha : PowersTame depth env a) : PowersTame depth env (.neg a)
  /-- A sum, difference, product or quotient. -/
  | binary {op : BinOp} {a b : Expr K} (ha : PowersTame depth env a) (hb : PowersTame depth env b) :
    PowersTame depth env (.binary op a b)
  /-- A power that is the same for other signs of zeros. -/
  | power {a b : Expr K} (ha : PowersTame depth env a) (hb : PowersTame depth env b)
    (h : ∀ {x y x' y'}, a.Yields depth env x → b.Yields depth env y → Same x x' → Same y y' →
      Same (pow x y) (pow x' y')) : PowersTame depth env (.power a b)

namespace Agrees

theorem refl (a : Expr K) : a.Agrees depth env a :=
  ⟨fun h => ⟨_, h, .refl _⟩, fun h => ⟨_, h, .refl _⟩⟩

theorem of_yields (ha : a.Yields depth env x) (hb : b.Yields depth env y) (h : Same x y) :
    a.Agrees depth env b :=
  ⟨fun hx => ⟨y, hb, ha.unique hx ▸ h⟩, fun hy => ⟨x, ha, hb.unique hy ▸ h⟩⟩

/-- It is enough to know the value of the first from that of the second, if the second has one
whenever the first has. -/
theorem of_backward (hdomain : ∀ {x}, a.Yields depth env x → ∃ y, b.Yields depth env y)
    (hback : ∀ {y}, b.Yields depth env y → ∃ x, a.Yields depth env x ∧ Same x y) :
    a.Agrees depth env b where
  forward hx := by
    obtain ⟨y, hy⟩ := hdomain hx
    obtain ⟨x', hx', hsame⟩ := hback hy
    exact ⟨y, hy, hx.unique hx' ▸ hsame⟩
  backward := hback

variable [FloatLaws K]

theorem symm (h : a.Agrees depth env b) : b.Agrees depth env a where
  forward hb := by
    obtain ⟨x, hx, hsame⟩ := h.backward hb
    exact ⟨x, hx, hsame.symm⟩
  backward ha := by
    obtain ⟨y, hy, hsame⟩ := h.forward ha
    exact ⟨y, hy, hsame.symm⟩

theorem trans (hab : a.Agrees depth env b) (hbc : b.Agrees depth env c) : a.Agrees depth env c where
  forward ha := by
    obtain ⟨y, hy, hxy⟩ := hab.forward ha
    obtain ⟨z, hz, hyz⟩ := hbc.forward hy
    exact ⟨z, hz, hxy.trans hyz⟩
  backward hc := by
    obtain ⟨y, hy, hyz⟩ := hbc.backward hc
    obtain ⟨x, hx, hxy⟩ := hab.backward hy
    exact ⟨x, hx, hxy.trans hyz⟩

theorem neg (ha : a.Agrees depth env a') : (Expr.neg a).Agrees depth env (.neg a') := by
  refine .of_backward (fun h => ?_) fun h => ?_
  · obtain ⟨x, hx, -⟩ := h.exists_neg
    obtain ⟨x', hx', -⟩ := ha.forward hx
    exact ⟨-x', hx'.neg⟩
  · obtain ⟨x', hx', rfl⟩ := h.exists_neg
    obtain ⟨x, hx, hsame⟩ := ha.backward hx'
    exact ⟨-x, hx.neg, FloatLaws.neg_congr hsame⟩

end Agrees

/-- The operators do not see the sign of a zero. -/
theorem onReals_congr [FloatLaws K] (hx : Same x x') (hy : Same y y')
    (h : op.onReals x y = .ok z) : ∃ z', op.onReals x' y' = .ok z' ∧ Same z z' := by
  cases op with
  | add =>
    cases h
    exact ⟨_, rfl, FloatLaws.add_congr hx hy⟩
  | sub =>
    cases h
    exact ⟨_, rfl, FloatLaws.sub_congr hx hy⟩
  | mul =>
    cases h
    exact ⟨_, rfl, FloatLaws.mul_congr hx hy⟩
  | div =>
    rw [BinOp.onReals] at h ⊢
    split at h
    · cases h
    · rename_i hzero
      cases h
      rw [← hy.beq_eq 0, if_neg hzero]
      exact ⟨_, rfl, FloatLaws.div_congr (Bool.not_eq_true _ ▸ hzero) hx hy⟩

namespace Agrees

variable [FloatLaws K]

theorem binary (ha : a.Agrees depth env a') (hb : b.Agrees depth env b') :
    (Expr.binary op a b).Agrees depth env (.binary op a' b') := by
  have hforward : ∀ {a a' b b' : Expr K}, a.Agrees depth env a' → b.Agrees depth env b' →
      ∀ {z}, (Expr.binary op a b).Yields depth env z →
        ∃ z', (Expr.binary op a' b').Yields depth env z' ∧ Same z z' := by
    intro a a' b b' ha hb z h
    obtain ⟨x, y, hx, hy, hz⟩ := h.exists_binary
    obtain ⟨x', hx', hsamex⟩ := ha.forward hx
    obtain ⟨y', hy', hsamey⟩ := hb.forward hy
    obtain ⟨z', hz', hsame⟩ := onReals_congr hsamex hsamey hz
    exact ⟨z', hx'.binary hy' hz', hsame⟩
  refine ⟨hforward ha hb, fun h => ?_⟩
  obtain ⟨z, hz, hsame⟩ := hforward ha.symm hb.symm h
  exact ⟨z, hz, hsame.symm⟩

/-- Powers of like operands agree, if they do not show the sign of a zero. -/
theorem power (ha : a.Agrees depth env a') (hb : b.Agrees depth env b')
    (htame : (Expr.power a' b').PowersTame depth env) :
    (Expr.power a b).Agrees depth env (.power a' b') := by
  cases htame with
  | power _ _ htame =>
    refine .of_backward (fun h => ?_) fun h => ?_
    · obtain ⟨x, y, hx, hy, -⟩ := h.exists_power
      obtain ⟨x', hx', -⟩ := ha.forward hx
      obtain ⟨y', hy', -⟩ := hb.forward hy
      exact ⟨_, hx'.power hy'⟩
    · obtain ⟨x', y', hx', hy', rfl⟩ := h.exists_power
      obtain ⟨x, hx, hsamex⟩ := ha.backward hx'
      obtain ⟨y, hy, hsamey⟩ := hb.backward hy'
      exact ⟨_, hx.power hy, (htame hx' hy' hsamex.symm hsamey.symm).symm⟩

end Agrees

/-- Trees that compare equal agree. -/
theorem PowersTame.agrees_of_beq [FloatLaws K] (ha : a.PowersTame depth env)
    (h : a.beq b = true) : b.PowersTame depth env ∧ a.Agrees depth env b := by
  induction ha generalizing b with
  | num v =>
    cases b with
    | num w => exact ⟨.num w, .of_yields (yields_num v) (yields_num w) (.inl h)⟩
    | _ => cases h
  | neg _ ih =>
    cases b with
    | neg b =>
      obtain ⟨htame, hagrees⟩ := ih h
      exact ⟨.neg htame, hagrees.neg⟩
    | _ => cases h
  | binary _ _ iha ihb =>
    cases b with
    | binary op' c d =>
      obtain ⟨h, hd⟩ := Bool.and_eq_true_iff.1 h
      obtain ⟨hop, hc⟩ := Bool.and_eq_true_iff.1 h
      obtain ⟨htamec, hagreesc⟩ := iha hc
      obtain ⟨htamed, hagreesd⟩ := ihb hd
      cases beq_iff_eq.1 hop
      exact ⟨.binary htamec htamed, hagreesc.binary hagreesd⟩
    | _ => cases h
  | power _ _ hpower iha ihb =>
    cases b with
    | power c d =>
      obtain ⟨hc, hd⟩ := Bool.and_eq_true_iff.1 h
      obtain ⟨htamec, hagreesc⟩ := iha hc
      obtain ⟨htamed, hagreesd⟩ := ihb hd
      have htame : (Expr.power c d).PowersTame depth env := by
        refine .power htamec htamed fun hx hy hsamex hsamey => ?_
        obtain ⟨_, hx', hsamex'⟩ := hagreesc.backward hx
        obtain ⟨_, hy', hsamey'⟩ := hagreesd.backward hy
        exact (hpower hx' hy' hsamex' hsamey').symm.trans
          (hpower hx' hy' (hsamex'.trans hsamex) (hsamey'.trans hsamey))
      exact ⟨htame, hagreesc.power hagreesd htame⟩
    | _ => cases h

end Expr

/-! ## What is dropped -/

namespace Expr

omit [Scalar K] in
theorem asNumber?_eq_none (h : ∀ x, a ≠ .num x) : a.asNumber? = none := by
  cases a with
  | num x => exact absurd rfl (h x)
  | _ => rfl

/-- The expression evaluates to a finite number. -/
def YieldsFinite (depth : Nat) (env : Env K) (e : Expr K) : Prop :=
  ∃ x, e.Yields depth env x ∧ isFinite x = true

/-- What the rules of an operator drop of the operands `a` and `b`, once the pass has made `a'` and
`b'` of them, may be dropped.  Two literals are folded and not dropped. -/
def OperandsDropSafely (depth : Nat) (env : Env K) (op : BinOp) (a b a' b' : Expr K) : Prop :=
  match op with
  | .add => True
  | .sub => a'.beq b' = true → a'.asNumber? = none →
      a.YieldsFinite depth env ∧ (a'.PowersTame depth env ∨ a.Agrees depth env b)
  | .mul => (a'.isNumber 0 = true → b'.asNumber? = none → b.YieldsFinite depth env) ∧
      (b'.isNumber 0 = true → a'.asNumber? = none → a.YieldsFinite depth env)
  | .div => a'.isNumber 0 = true → b'.asNumber? = none →
      ∃ y, b.Yields depth env y ∧ (y == 0) = false ∧ isNaN y = false

/-- What the rules of a power drop of the base `a` and the exponent `b`, once the pass has made `a'`
and `b'` of them, may be dropped. -/
structure PowerDropsSafely (depth : Nat) (env : Env K) (a b a' b' : Expr K) : Prop where
  /-- Above a base with the exponent zero nothing fails. -/
  base : b'.isNumber 0 = true → ∃ x, a.Yields depth env x
  /-- Nor does it in the exponent of a one. -/
  exponent : a'.isNumber 1 = true → ∃ y, b.Yields depth env y
  /-- A literal zero is raised to no literal power that is not finite. -/
  zero : ∀ x y, a' = .num x → b' = .num y → (x == 0) = true → isFinite (pow x y) = true

/-- The expression is arithmetic, and whatever operand a pass drops may be dropped. -/
inductive DropsSafely (depth : Nat) (env : Env K) : Expr K → Prop
  /-- A literal. -/
  | num (v : K) : DropsSafely depth env (.num v)
  /-- A negation. -/
  | neg {a : Expr K} (ha : DropsSafely depth env a) : DropsSafely depth env (.neg a)
  /-- A sum, difference, product or quotient. -/
  | binary {op : BinOp} {a b : Expr K} (ha : DropsSafely depth env a)
    (hb : DropsSafely depth env b) (h : ∀ a' b', a.simplify = .ok a' → b.simplify = .ok b' →
      OperandsDropSafely depth env op a b a' b') : DropsSafely depth env (.binary op a b)
  /-- A power. -/
  | power {a b : Expr K} (ha : DropsSafely depth env a) (hb : DropsSafely depth env b)
    (h : ∀ a' b', a.simplify = .ok a' → b.simplify = .ok b' →
      PowerDropsSafely depth env a b a' b') : DropsSafely depth env (.power a b)

end Expr

/-! ## The rules -/

namespace Rule

open ZeroSet.Expr

/-- The second expression comes of the first by moving signs, zeros and ones. -/
structure Rewrites (depth : Nat) (env : Env K) (e d : Expr K) : Prop where
  /-- No power is lost. -/
  tame : d.PowersTame depth env → e.PowersTame depth env
  /-- They agree. -/
  agrees : e.Agrees depth env d

theorem rewrites_refl (e : Expr K) : Rewrites depth env e e := ⟨id, .refl e⟩

/-- An operation with a literal that changes nothing on the left. -/
theorem rewrites_right {f : K → K} (hf : ∀ y, op.onReals w y = .ok (f y)) (h : ∀ y, Same (f y) y) :
    Rewrites depth env (.binary op (.num w) b) b := by
  refine ⟨.binary (.num w), .of_backward (fun h => ?_) fun hy => ?_⟩
  · obtain ⟨_, y, -, hy, -⟩ := h.exists_binary
    exact ⟨y, hy⟩
  · exact ⟨_, (yields_num w).binary hy (hf _), h _⟩

/-- An operation with a literal that changes nothing on the right. -/
theorem rewrites_left {f : K → K} (hf : ∀ x, op.onReals x w = .ok (f x)) (h : ∀ x, Same (f x) x) :
    Rewrites depth env (.binary op a (.num w)) a := by
  refine ⟨fun ha => .binary ha (.num w), .of_backward (fun h => ?_) fun hx => ?_⟩
  · obtain ⟨x, _, hx, -, -⟩ := h.exists_binary
    exact ⟨x, hx⟩
  · exact ⟨_, hx.binary (yields_num w) (hf _), h _⟩

theorem rewrites_folded (hv : op.onReals x y = .ok v) :
    Rewrites depth env (.binary op (.num x) (.num y)) (.num v) :=
  ⟨fun _ => .binary (.num x) (.num y),
    .of_yields ((yields_num x).binary (yields_num y) hv) (yields_num v) (.refl v)⟩

/-- An operation with an opposite on the right is another operation. -/
theorem rewrites_opposite {op' : BinOp} {f g : K → K → K}
    (hf : ∀ x y, op.onReals x y = .ok (f x y)) (hg : ∀ x y, op'.onReals x y = .ok (g x y))
    (h : ∀ x y, Same (f x (-y)) (g x y)) (a c : Expr K) :
    Rewrites depth env (.binary op a (.neg c)) (.binary op' a c) where
  tame hd := by
    cases hd with
    | binary ha hc => exact .binary ha (.neg hc)
  agrees := by
    refine .of_backward (fun hz => ?_) fun hz => ?_
    · obtain ⟨x, _, hx, hneg, -⟩ := hz.exists_binary
      obtain ⟨y, hy, -⟩ := hneg.exists_neg
      exact ⟨_, hx.binary hy (hg x y)⟩
    · obtain ⟨x, y, hx, hy, hz⟩ := hz.exists_binary
      cases (hg x y).symm.trans hz
      exact ⟨_, hx.binary hy.neg (hf x (-y)), h x y⟩

variable [FloatLaws K]

theorem rewrites_neg (h : Step (.neg a) d) : Rewrites depth env (.neg a) d := by
  cases h with
  | unchanged => exact rewrites_refl _
  | neg_neg b =>
    refine ⟨fun hb => hb.neg.neg, .of_backward (fun h => ?_) fun hy => ?_⟩
    · obtain ⟨_, h, -⟩ := h.exists_neg
      obtain ⟨y, hy, -⟩ := h.exists_neg
      exact ⟨y, hy⟩
    · exact ⟨_, hy.neg.neg, FloatLaws.neg_neg _⟩
  | neg_zero hv =>
    refine ⟨fun _ => .neg (.num _), .of_yields (yields_num _).neg (yields_num 0) ?_⟩
    exact (FloatLaws.neg_congr (.inl hv)).trans FloatLaws.neg_zero

theorem rewrites_neg_mul_neg (c d : Expr K) :
    Rewrites depth env (.binary .mul (.neg c) (.neg d)) (.binary .mul c d) where
  tame h := by
    cases h with
    | binary hc hd => exact .binary (.neg hc) (.neg hd)
  agrees := by
    refine .of_backward (fun h => ?_) fun h => ?_
    · obtain ⟨_, _, hc, hd, -⟩ := h.exists_binary
      obtain ⟨x, hx, -⟩ := hc.exists_neg
      obtain ⟨y, hy, -⟩ := hd.exists_neg
      exact ⟨_, hx.mul hy⟩
    · obtain ⟨x, y, hx, hy, h⟩ := h.exists_binary
      cases h
      exact ⟨_, hx.neg.mul hy.neg, FloatLaws.neg_mul_neg x y⟩

theorem rewrites_zero_sub (hw : (w == 0) = true) (h : Step (.neg b) d) :
    Rewrites depth env (.binary .sub (.num w) b) d := by
  have hneg : Rewrites depth env (.neg b) d := rewrites_neg h
  refine ⟨fun hd => ?_, Agrees.trans ?_ hneg.agrees⟩
  · cases hneg.tame hd with
    | neg hb => exact .binary (.num w) hb
  · refine .of_backward (fun h => ?_) fun h => ?_
    · obtain ⟨_, y, -, hy, -⟩ := h.exists_binary
      exact ⟨_, hy.neg⟩
    · obtain ⟨y, hy, rfl⟩ := h.exists_neg
      exact ⟨_, (yields_num w).sub hy,
        (FloatLaws.sub_congr (.inl hw) (.refl y)).trans (FloatLaws.zero_sub y)⟩

/-- A quotient by a one. -/
theorem rewrites_div_one (hw : (w == 1) = true) (a : Expr K) :
    Rewrites depth env (.binary .div a (.num w)) a := by
  have hzero : (w == 0) = false := by
    rw [Same.beq_eq (.inl hw)]
    exact FloatLaws.one_ne_zero
  refine rewrites_left (f := (· / w)) (fun x => ?_) fun x => ?_
  · rw [BinOp.onReals, hzero]
    rfl
  · exact (FloatLaws.div_congr hzero (.refl x) (.inl hw)).trans (FloatLaws.div_one x)

/-! ### Dropped operands -/

theorem exists_of_agrees_num (ha : a.Agrees depth env (.num w)) (hw : (w == v) = true) :
    ∃ x, a.Yields depth env x ∧ (x == v) = true := by
  obtain ⟨x, hx, hsame⟩ := ha.backward (yields_num w)
  exact ⟨x, hx, hsame.beq_eq v ▸ hw⟩

theorem agrees_zero_mul (ha : a.Agrees depth env (.num w)) (hw : (w == 0) = true)
    (hb : b.YieldsFinite depth env) : (Expr.binary .mul a b).Agrees depth env (.num 0) := by
  obtain ⟨x, hx, hzero⟩ := exists_of_agrees_num ha hw
  obtain ⟨y, hy, hfinite⟩ := hb
  exact .of_yields (hx.mul hy) (yields_num 0)
    ((FloatLaws.mul_congr (.inl hzero) (.refl y)).trans (FloatLaws.zero_mul hfinite))

theorem agrees_mul_zero (ha : a.YieldsFinite depth env) (hb : b.Agrees depth env (.num w))
    (hw : (w == 0) = true) : (Expr.binary .mul a b).Agrees depth env (.num 0) := by
  obtain ⟨x, hx, hfinite⟩ := ha
  obtain ⟨y, hy, hzero⟩ := exists_of_agrees_num hb hw
  exact .of_yields (hx.mul hy) (yields_num 0)
    ((FloatLaws.mul_congr (.refl x) (.inl hzero)).trans (FloatLaws.mul_zero hfinite))

theorem agrees_zero_div (ha : a.Agrees depth env (.num w)) (hw : (w == 0) = true)
    (hb : ∃ y, b.Yields depth env y ∧ (y == 0) = false ∧ isNaN y = false) :
    (Expr.binary .div a b).Agrees depth env (.num 0) := by
  obtain ⟨x, hx, hzero⟩ := exists_of_agrees_num ha hw
  obtain ⟨y, hy, hdivisor, hnumber⟩ := hb
  have hquotient : BinOp.div.onReals x y = .ok (x / y) := by
    rw [BinOp.onReals, hdivisor]
    rfl
  exact .of_yields (hx.binary hy hquotient) (yields_num 0)
    ((FloatLaws.div_congr hdivisor (.inl hzero) (.refl y)).trans
      (FloatLaws.zero_div hdivisor hnumber))

/-- The difference of expressions that agree is zero, if they are finite. -/
theorem agrees_sub_self (hab : a.Agrees depth env b) (ha : a.YieldsFinite depth env) :
    (Expr.binary .sub a b).Agrees depth env (.num 0) := by
  obtain ⟨x, hx, hfinite⟩ := ha
  obtain ⟨y, hy, hsame⟩ := hab.forward hx
  exact .of_yields (hx.sub hy) (yields_num 0)
    ((FloatLaws.sub_congr (.refl x) hsame.symm).trans (.inl hfinite))

/-! ### Operators and powers -/

/-- The rules of an operator. -/
theorem agrees_binary (ha : a'.PowersTame depth env → a.Agrees depth env a')
    (hb : b'.PowersTame depth env → b.Agrees depth env b')
    (hdrop : OperandsDropSafely depth env op a b a' b') (h : Step (.binary op a' b') d)
    (hd : d.PowersTame depth env) : (Expr.binary op a b).Agrees depth env d := by
  have rewritten : Rewrites depth env (.binary op a' b') d →
      (Expr.binary op a b).Agrees depth env d := by
    intro hrewrites
    cases hrewrites.tame hd with
    | binary htamea htameb => exact ((ha htamea).binary (hb htameb)).trans hrewrites.agrees
  cases h with
  | unchanged => exact rewritten (rewrites_refl _)
  | folded hv => exact rewritten (rewrites_folded hv)
  | zero_add hw =>
    exact rewritten (rewrites_right (fun _ => rfl) fun y =>
      (FloatLaws.add_congr (.inl hw) (.refl y)).trans (FloatLaws.zero_add y))
  | add_zero hw =>
    exact rewritten (rewrites_left (fun _ => rfl) fun x =>
      (FloatLaws.add_congr (.refl x) (.inl hw)).trans (FloatLaws.add_zero x))
  | add_neg =>
    exact rewritten (rewrites_opposite (fun _ _ => rfl) (fun _ _ => rfl) FloatLaws.add_neg _ _)
  | sub_zero hw =>
    exact rewritten (rewrites_left (fun _ => rfl) fun x =>
      (FloatLaws.sub_congr (.refl x) (.inl hw)).trans (FloatLaws.sub_zero x))
  | zero_sub hw hneg => exact rewritten (rewrites_zero_sub hw hneg)
  | sub_self hbeq hliteral =>
    obtain ⟨hfinite, htame | hagrees⟩ := hdrop hbeq (asNumber?_eq_none hliteral)
    · obtain ⟨htameb, hagrees⟩ := htame.agrees_of_beq hbeq
      exact agrees_sub_self (((ha htame).trans hagrees).trans (hb htameb).symm) hfinite
    · exact agrees_sub_self hagrees hfinite
  | sub_neg =>
    exact rewritten (rewrites_opposite (fun _ _ => rfl) (fun _ _ => rfl) FloatLaws.sub_neg _ _)
  | zero_mul hw hliteral =>
    exact agrees_zero_mul (ha (.num _)) hw (hdrop.1 hw (asNumber?_eq_none hliteral))
  | mul_zero hw hliteral =>
    exact agrees_mul_zero (hdrop.2 hw (asNumber?_eq_none hliteral)) (hb (.num _)) hw
  | one_mul hw =>
    exact rewritten (rewrites_right (fun _ => rfl) fun y =>
      (FloatLaws.mul_congr (.inl hw) (.refl y)).trans (FloatLaws.one_mul y))
  | mul_one hw =>
    exact rewritten (rewrites_left (fun _ => rfl) fun x =>
      (FloatLaws.mul_congr (.refl x) (.inl hw)).trans (FloatLaws.mul_one x))
  | neg_mul_neg => exact rewritten (rewrites_neg_mul_neg _ _)
  | zero_div hw hliteral =>
    exact agrees_zero_div (ha (.num _)) hw (hdrop hw (asNumber?_eq_none hliteral))
  | div_one hw => exact rewritten (rewrites_div_one hw _)

/-- The rules of a power. -/
theorem agrees_power [PowerLaws K] (ha : a'.PowersTame depth env → a.Agrees depth env a')
    (hb : b'.PowersTame depth env → b.Agrees depth env b')
    (hdrop : PowerDropsSafely depth env a b a' b') (h : Step (.power a' b') d)
    (hd : d.PowersTame depth env) : (Expr.power a b).Agrees depth env d := by
  cases h with
  | unchanged =>
    cases hd with
    | power htamea htameb hpower =>
      exact (ha htamea).power (hb htameb) (.power htamea htameb hpower)
  | @foldedPower x y hfinite =>
    have hliterals : (Expr.power (.num x) (.num y)).PowersTame depth env := by
      refine .power (.num x) (.num y) fun hx hy hsamex hsamey => ?_
      cases hx.unique (yields_num x)
      cases hy.unique (yields_num y)
      exact PowerLaws.pow_congr (fun _ => hfinite) hsamex hsamey
    have hfolded : (Expr.power (.num x) (.num y)).Agrees depth env (.num (pow x y)) :=
      .of_yields ((yields_num x).power (yields_num y)) (yields_num _) (.refl _)
    exact ((ha (.num x)).power (hb (.num y)) hliterals).trans hfolded
  | power_one hw =>
    obtain ⟨y, hy, hone⟩ := exists_of_agrees_num (hb (.num _)) hw
    refine .trans (.of_backward (fun h => ?_) fun hx => ?_) (ha hd)
    · obtain ⟨x, _, hx, -, -⟩ := h.exists_power
      exact ⟨x, hx⟩
    · exact ⟨_, hx.power hy, PowerLaws.pow_one hone⟩
  | power_zero hw =>
    obtain ⟨x, hx⟩ := hdrop.base hw
    obtain ⟨y, hy, hzero⟩ := exists_of_agrees_num (hb (.num _)) hw
    exact .of_yields (hx.power hy) (yields_num 1) (PowerLaws.pow_zero hzero)
  | zero_power hv hw hfinite =>
    rw [hdrop.zero _ _ rfl rfl hv] at hfinite
    cases hfinite
  | one_power hv =>
    obtain ⟨y, hy⟩ := hdrop.exponent hv
    obtain ⟨x, hx, hone⟩ := exists_of_agrees_num (ha (.num _)) hv
    exact .of_yields (hx.power hy) (yields_num 1) (PowerLaws.one_pow hone)

end Rule

/-! ## The pass -/

namespace Expr

variable [FloatLaws K]

/-- Whether something is raised to a power in the arithmetic of an expression. -/
def hasPower : Expr K → Bool
  | .neg a => a.hasPower
  | .binary _ a b => a.hasPower || b.hasPower
  | .power _ _ => true
  | _ => false

/-- If what a pass drops may be dropped, then the simplified expression agrees with the expression,
as far as no power in it shows the sign of a zero. -/
theorem agrees_simplify (hpower : e.hasPower = true → PowerLaws K) (he : e.DropsSafely depth env)
    (h : e.simplify = .ok d) (hd : d.PowersTame depth env) : e.Agrees depth env d := by
  refine simplifyInduction (R := fun e d => (e.hasPower = true → PowerLaws K) →
      e.DropsSafely depth env → d.PowersTame depth env → e.Agrees depth env d)
    (fun _ _ _ _ => .refl _) (fun _ _ _ _ => .refl _) (fun _ _ he => nomatch he)
    (fun _ _ _ he => nomatch he) (fun _ ha hstep hpower he hd => ?_)
    (fun haeq hbeq ha hb hstep hpower he hd => ?_) (fun haeq hbeq ha hb hstep hpower he hd => ?_)
    (fun _ _ _ he => nomatch he) h hpower he hd
  · cases he with
    | neg hea =>
      have hrewrites : Rule.Rewrites depth env _ _ := Rule.rewrites_neg hstep
      cases hrewrites.tame hd with
      | neg htame => exact ((ha hpower hea htame).neg).trans hrewrites.agrees
  · cases he with
    | binary hea heb hdrop =>
      refine Rule.agrees_binary (ha (fun h => hpower ?_) hea) (hb (fun h => hpower ?_) heb)
        (hdrop _ _ haeq hbeq) hstep hd
      · rw [hasPower, h, Bool.true_or]
      · rw [hasPower, h, Bool.or_true]
  · cases he with
    | power hea heb hdrop =>
      have hlaws : PowerLaws K := hpower rfl
      exact Rule.agrees_power (ha (fun _ => hlaws) hea) (hb (fun _ => hlaws) heb)
        (hdrop _ _ haeq hbeq) hstep hd

/-- An expression of literals, signs, operators and powers that is folded into one literal evaluates
to it, up to the sign of a zero, if the operands that are dropped on the way may be dropped. -/
theorem evaluateReal_of_folded {n : K} (hpower : e.hasPower = true → PowerLaws K)
    (he : e.DropsSafely (env.bindings.size + 1) env) (h : e.simplify = .ok (.num n)) :
    ∃ v, e.evaluateReal.value env = .ok v ∧ Same v n := by
  obtain ⟨v, hv, hsame⟩ := (agrees_simplify hpower he h (.num n)).backward (yields_num n)
  exact ⟨v, evaluateReal_eq_ok.2 hv, hsame⟩

/-- The sum `1 + -1`, which is simplified to a difference and not folded. -/
noncomputable def oneLessOne : Expr Extended := num 1 + -num 1

theorem simplify_oneLessOne : oneLessOne.simplify = .ok (num 1 - num 1) := by
  have hone : ((1 : Extended) == 0) = false := FloatLaws.one_ne_zero
  show Except.ok (Rule.add (num 1) (Rule.neg (num 1))) = _
  simp only [Rule.add, Rule.neg, isNumber, hone, Bool.false_eq_true, if_false]

theorem simplify_oneLessOne_power : (Expr.power oneLessOne (num 0)).simplify = .ok (num 1) := by
  have hone : ((0 : Extended) == 1) = false := Extended.number_beq_eq_false zero_ne_one
  rw [simplify, simplify_oneLessOne]
  show Except.ok (Rule.power (num 1 - num 1) (num 0)) = _
  simp only [Rule.power, isNumber, hone, Extended.zero_beq_zero]
  rfl

theorem simplify_mul_oneLessOne :
    (Expr.binary .mul (num 0) oneLessOne).simplify = .ok (num 0) := by
  rw [simplify, simplify_oneLessOne]
  exact congrArg Except.ok (if_pos (Bool.or_eq_true_iff.2 (.inl Extended.zero_beq_zero)))

/-- A machine float drops the sum from `0 * (1 + -1)`.  Without rounding it is dropped twice from
`(1 + -1) ^ 0 - 0 * (1 + -1)`.  Both are folded into their values. -/
theorem evaluateReal_of_folded_oneLessOne :
    ((num 0 * (num 1 + -num 1) : Expr Float).simplify = .ok (num 0) ∧
      ∃ v, (num 0 * (num 1 + -num 1) : Expr Float).evaluateReal.value .empty = .ok v ∧ Same v 0) ∧
    ((.power oneLessOne (num 0) - num 0 * oneLessOne : Expr Extended).simplify =
        .ok (num (1 - 0)) ∧
      ∃ v, (.power oneLessOne (num 0) - num 0 * oneLessOne : Expr Extended).evaluateReal.value
        .empty = .ok v ∧ Same v (1 - 0)) := by
  constructor
  · have hdrops : (num 0 * (num 1 + -num 1) : Expr Float).DropsSafely 1 .empty := by
      refine .binary (.num 0) (.binary (.num 1) (.neg (.num 1)) fun _ _ _ _ => trivial) ?_
      rintro a' b' ha -
      cases ha
      refine ⟨fun _ _ => ⟨_, (yields_num 1).add (yields_num 1).neg, by decide +kernel⟩, ?_⟩
      intro _ hliteral
      cases hliteral
    exact ⟨rfl, evaluateReal_of_folded (by rintro ⟨⟩) hdrops rfl⟩
  · have hsimplify : (.power oneLessOne (num 0) - num 0 * oneLessOne : Expr Extended).simplify =
        .ok (num (1 - 0)) := by
      show (Expr.binary .sub _ (.binary .mul _ _)).simplify = _
      rw [simplify, simplify_oneLessOne_power, simplify_mul_oneLessOne]
      rfl
    have hyields : oneLessOne.Yields 1 .empty (1 + -1) :=
      (yields_num 1).add (yields_num _).neg
    have hfinite : isFinite (1 + -1 : Extended) = true :=
      Extended.isFinite_iff.2 ⟨_, (Extended.is_number 1).add (Extended.is_number 1).neg⟩
    have hsum : oneLessOne.DropsSafely 1 .empty :=
      .binary (.num _) (.neg (.num _)) fun _ _ _ _ => trivial
    have hdrops : (.power oneLessOne (num 0) - num 0 * oneLessOne : Expr Extended).DropsSafely
        1 .empty := by
      refine .binary (.power hsum (.num 0) ?_) (.binary (.num 0) hsum ?_) ?_
      · rintro a' b' ha -
        cases simplify_oneLessOne.symm.trans ha
        refine ⟨fun _ => ⟨_, hyields⟩, fun _ => ⟨0, yields_num 0⟩, ?_⟩
        rintro _ _ ⟨⟩
      · rintro a' b' ha -
        cases ha
        refine ⟨fun _ _ => ⟨_, hyields, hfinite⟩, ?_⟩
        intro _ hliteral
        cases hliteral
      · rintro a' b' ha - - hliteral
        cases simplify_oneLessOne_power.symm.trans ha
        cases hliteral
    exact ⟨hsimplify, evaluateReal_of_folded (fun _ => Extended.powerLaws) hdrops hsimplify⟩

/-- A product with a literal zero is folded, also if the other operand has no value. -/
theorem simplify_dropping_divisionByZero :
    (num 0 * (num 1 / (num 2 + -num 2)) : Expr Float).simplify = .ok (num 0) ∧
      (num 0 * (num 1 / (num 2 + -num 2)) : Expr Float).evaluateReal.value .empty =
        .error .divisionByZero := by
  have hdivisor : ((2 : Float) + -2 == 0) = true := by decide +kernel
  have hsum : (num 2 + -num 2 : Expr Float).Yields 1 .empty (2 + -2) :=
    (yields_num 2).add (yields_num 2).neg
  have hquotient : (num 1 / (num 2 + -num 2) : Expr Float).outcome .real 1 .empty =
      .error .divisionByZero := by
    show (Expr.binary .div _ _).outcome .real 1 .empty = _
    rw [outcome_binary, outcome_num, hsum]
    show (BinOp.div.onReals (1 : Float) (2 + -2)).map Value.real = _
    rw [BinOp.onReals, if_pos hdivisor]
    rfl
  refine ⟨rfl, ?_⟩
  rw [value_evaluateReal]
  show (Expr.binary .mul _ _).outcome .real 1 .empty >>= _ = _
  rw [outcome_binary, outcome_num, hquotient]
  rfl

end Expr

end ZeroSet
