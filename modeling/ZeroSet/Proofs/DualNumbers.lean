import ZeroSet.Proofs.Exact
import ZeroSet.Proofs.Outcome

/-!
# Evaluating over dual numbers

A dual number is a value with a slope.  Dual numbers are scalars: sums and products are those of
the ring of dual numbers, the elementary functions have their usual derivatives, and comparisons
look at the values only.  Every expression over `K` is an expression over the dual numbers whose
literals have no slope.

* `jet` — the dual number with a value and a slope.
* `BinOp.onReals_jet`, `Builtin.value_jet` — the slopes of the operators and the built-ins.
* `Expr.map` — an expression with its literals replaced.
* `Func.expand_map` — expanding a composition does not look at literals.
-/

namespace ZeroSet

open TrivSqZeroExt

/-! ## Dual numbers as scalars -/

section

variable {K : Type}

/-- The dual number with a value and a slope. -/
def jet [AddZeroClass K] (value slope : K) : DualNumber K := inl value + inr slope

@[simp] theorem fst_jet [AddZeroClass K] (value slope : K) : (jet value slope).fst = value := by
  simp [jet]

@[simp] theorem snd_jet [AddZeroClass K] (value slope : K) : (jet value slope).snd = slope := by
  simp [jet]

theorem inl_eq_jet [AddZeroClass K] (value : K) : (inl value : DualNumber K) = jet value 0 := by
  simp [jet]

variable [ExactScalar K]

/-- Arithmetic of dual numbers. -/
noncomputable instance : Scalar (DualNumber K) where
  div x y := x * y⁻¹
  le x y := x.fst ≤ y.fst
  lt x y := x.fst < y.fst
  beq x y := x.fst == y.fst
  ofScientific digits shrink places := inl (Scalar.decimal digits shrink places)
  decideLE x y := inferInstanceAs (Decidable (x.fst ≤ y.fst))
  decideLT x y := inferInstanceAs (Decidable (x.fst < y.fst))
  infinity := inl Scalar.infinity
  exp x := jet (Scalar.exp x.fst) (Scalar.exp x.fst * x.snd)
  ln x := jet (Scalar.ln x.fst) (x.snd / x.fst)
  sqrt x := jet (Scalar.sqrt x.fst) (x.snd / (2 * Scalar.sqrt x.fst))
  pow x y := jet (Scalar.pow x.fst y.fst)
    (y.fst * Scalar.pow x.fst (y.fst - 1) * x.snd +
      Scalar.pow x.fst y.fst * Scalar.ln x.fst * y.snd)
  halvings width tolerance := Scalar.halvings width.fst tolerance.fst

theorem jet_add (v w a b : K) : jet v a + jet w b = jet (v + w) (a + b) := by
  ext <;> simp

theorem jet_sub (v w a b : K) : jet v a - jet w b = jet (v - w) (a - b) := by
  ext <;> simp

theorem jet_mul (v w a b : K) : jet v a * jet w b = jet (v * w) (w * a + v * b) := by
  ext
  · simp
  · simp [add_comm, mul_comm]

theorem jet_neg (v a : K) : -jet v a = jet (-v) (-a) := by
  ext <;> simp

theorem jet_div (v w a b : K) (hw : w ≠ 0) :
    jet v a / jet w b = jet (v / w) (1 / w * a + -(v / (w * w)) * b) := by
  show jet v a * (jet w b)⁻¹ = _
  ext
  · simp [div_eq_mul_inv]
  · simp
    field_simp
    ring

end

theorem pow_jet {K : Type} [ExactScalar K] (v w a b : K) :
    Scalar.pow (jet v a) (jet w b) = jet (Scalar.pow v w)
      (w * Scalar.pow v (w - 1) * a + Scalar.pow v w * Scalar.ln v * b) := by
  show jet _ _ = jet _ _
  simp

/-! ## Slopes of the operators -/

namespace BinOp

variable {K : Type} [ExactScalar K]

/-- The derivatives of an operator in its two operands. -/
def partials : BinOp → K → K → K × K
  | add, _, _ => (1, 1)
  | sub, _, _ => (1, -1)
  | mul, v, w => (w, v)
  | div, v, w => (1 / w, -(v / (w * w)))

theorem onReals_jet {op : BinOp} {u v w : K} (h : op.onReals v w = .ok u) (a b : K) :
    op.onReals (jet v a) (jet w b) =
      .ok (jet u ((op.partials v w).1 * a + (op.partials v w).2 * b)) := by
  cases op with
  | add =>
    cases h
    simp [onReals, partials, jet_add]
  | sub =>
    cases h
    rw [onReals, jet_sub, partials, one_mul, neg_one_mul, ← sub_eq_add_neg]
  | mul =>
    cases h
    simp [onReals, partials, jet_mul]
  | div =>
    rw [onReals] at h
    split at h
    · cases h
    · rename_i hzero
      cases h
      have hw : w ≠ 0 := by simpa using hzero
      have hjet : ¬(jet w b == (0 : DualNumber K)) = true := by
        show ¬((jet w b).fst == (0 : DualNumber K).fst) = true
        simpa using hw
      rw [onReals, if_neg hjet, jet_div _ _ _ _ hw]
      rfl

end BinOp

/-! ## Slopes of the built-ins -/

namespace Builtin

/-- A built-in with its base or degree replaced. -/
def map {K L : Type} (f : K → L) : Builtin K → Builtin L
  | .exp => .exp
  | .ln => .ln
  | .log base => .log (f base)
  | .sqrt => .sqrt
  | .root degree => .root (f degree)

variable {K : Type} [ElementaryScalar K]

/-- The textbook derivative of a built-in. -/
def slope : Builtin K → K → K
  | .exp, u => Scalar.exp u
  | .ln, u => 1 / u
  | .log base, u => 1 / (u * Scalar.ln base)
  | .sqrt, u => 1 / (2 * Scalar.sqrt u)
  | .root degree, u => 1 / degree * Scalar.pow u (1 / degree - 1)

theorem ln_ne_zero_of_check {base : K} (h : (Builtin.log base).check = .ok ()) :
    Scalar.ln base ≠ 0 := by
  rw [check] at h
  split at h
  · rename_i hbase
    rw [Bool.and_eq_true, decide_eq_true_eq, Bool.not_eq_true', ← Bool.not_eq_true,
      ExactScalar.beq_eq_true] at hbase
    exact ElementaryScalar.ln_ne_zero base hbase.1 hbase.2
  · cases h

theorem degree_ne_zero_of_check {degree : K} (h : (Builtin.root degree).check = .ok ()) :
    degree ≠ 0 := by
  rw [check] at h
  split at h
  · cases h
  · rename_i hdegree
    simpa using hdegree

/-- A built-in accepts a base or degree whether or not it is read as a dual number. -/
theorem check_map {b : Builtin K} (h : b.check = .ok ()) :
    (b.map (inl : K → DualNumber K)).check = .ok () := by
  cases b with
  | log base =>
    rw [check] at h
    split at h
    · rename_i hbase
      exact if_pos hbase
    · cases h
  | root degree =>
    have hdegree := degree_ne_zero_of_check h
    refine if_neg ?_
    show ¬(degree == 0 || !(degree == degree)) = true
    simpa using hdegree
  | _ => rfl

/-- A built-in carries a slope along by its derivative. -/
theorem value_jet {b : Builtin K} (h : b.check = .ok ()) (u a : K) :
    (b.map inl).value (jet u a) = jet (b.value u) (b.slope u * a) := by
  cases b with
  | exp =>
    show jet _ _ = jet _ _
    simp [slope, value]
  | ln =>
    show jet _ _ = jet _ _
    simp [slope, value, div_eq_inv_mul]
  | log base =>
    have hln := ln_ne_zero_of_check h
    show jet _ _ / jet _ _ = jet _ _
    rw [jet_div _ _ _ _ (by simpa using hln)]
    simp only [fst_jet, snd_jet, fst_inl, snd_inl, slope, value]
    congr 1
    field_simp
    ring
  | sqrt =>
    show jet _ _ = jet _ _
    simp [slope, value, div_eq_inv_mul]
  | root degree =>
    have hdegree := degree_ne_zero_of_check h
    have hinverse : (1 : DualNumber K) / inl degree = jet (1 / degree) 0 := by
      rw [inl_eq_jet, show (1 : DualNumber K) = jet 1 0 from by simp [jet],
        jet_div _ _ _ _ hdegree]
      simp
    show Scalar.pow (jet u a) (1 / inl degree) = jet _ _
    rw [hinverse]
    show jet _ _ = jet _ _
    simp [slope, value]

end Builtin

/-! ## Replacing literals -/

section

variable {K L : Type}

mutual

/-- An expression with its literals, bases and degrees replaced. -/
def Expr.map (f : K → L) : Expr K → Expr L
  | .num v => .num (f v)
  | .var name => .var name
  | .vec items => .vec (Expr.mapList f items)
  | .interval lo hi => .interval (lo.map f) (hi.map f)
  | .neg a => .neg (a.map f)
  | .binary op a b => .binary op (a.map f) (b.map f)
  | .power a b => .power (a.map f) (b.map f)
  | .apply g args => .apply (g.map f) (Expr.mapList f args)

/-- Expressions with their literals replaced. -/
def Expr.mapList (f : K → L) : List (Expr K) → List (Expr L)
  | [] => []
  | e :: es => e.map f :: Expr.mapList f es

/-- A function with the literals of its bodies replaced. -/
def Func.map (f : K → L) : Func K → Func L
  | .custom name params body => .custom name params (body.map f)
  | .comp inner outer => .comp (inner.map f) (outer.map f)
  | .builtin b => .builtin (b.map f)

end

theorem Expr.mapList_eq (f : K → L) (es : List (Expr K)) :
    Expr.mapList f es = es.map (Expr.map f) := by
  induction es with
  | nil => rfl
  | cons e es ih => rw [mapList, ih, List.map_cons]

theorem Expr.items?_map (f : K → L) (e : Expr K) :
    (e.map f).items? = e.items?.map (List.map (Expr.map f)) := by
  cases e <;> simp [map, items?, mapList_eq]

namespace Func

theorem params_map (f : K → L) : ∀ g : Func K, (g.map f).params = g.params
  | .custom _ _ _ => rfl
  | .comp inner _ => inner.params_map f
  | .builtin _ => rfl

theorem arity_map (f : K → L) (g : Func K) : (g.map f).arity = g.arity :=
  congrArg List.length (g.params_map f)

theorem dim_map (f : K → L) : ∀ g : Func K, (g.map f).dim = g.dim
  | .custom _ _ body => by
    rw [map, dim, dim, Expr.items?_map, Option.map_map]
    cases body.items? <;> simp
  | .comp _ outer => outer.dim_map f
  | .builtin _ => rfl

theorem component_map (f : K → L) : ∀ {g h : Func K} {index : Nat},
    g.component index = .ok h → (g.map f).component index = .ok (h.map f)
  | .builtin b, h, index, hcomponent => by
    rw [component] at hcomponent
    split at hcomponent
    · rename_i hindex
      cases hcomponent
      exact if_pos hindex
    · cases hcomponent
  | .comp inner outer, h, index, hcomponent => by
    rw [component] at hcomponent
    obtain ⟨outer', houter, hcomponent⟩ := bind_eq_ok.1 hcomponent
    cases hcomponent
    rw [map, component, outer.component_map f houter]
    rfl
  | .custom name params body, h, index, hcomponent => by
    rw [component] at hcomponent
    rw [map, component, Expr.items?_map]
    split at hcomponent
    · rename_i items hitems
      rw [hitems]
      split at hcomponent
      · rename_i item hitem
        cases hcomponent
        simp [hitem, map]
      · cases hcomponent
    · rename_i hitems
      rw [hitems]
      split at hcomponent
      · rename_i hindex
        cases hcomponent
        exact if_pos hindex
      · cases hcomponent

variable [Scalar K] [Scalar L] {f : K → L}

theorem apply_map (hcheck : ∀ b : Builtin K, b.check = .ok () → (b.map f).check = .ok ())
    {g : Func K} {args : List (Expr K)} {e : Expr K} (h : g.apply args = .ok e) :
    (g.map f).apply (args.map (Expr.map f)) = .ok (e.map f) := by
  have he := eq_apply_of_apply h
  unfold apply at h ⊢
  split at h
  · cases h
  · rename_i hlength
    rw [arity_map, List.length_map, if_neg hlength]
    cases g with
    | builtin b =>
      obtain ⟨⟨⟩, hb, -⟩ := bind_eq_ok.1 h
      subst he
      simp [map, Expr.map, Expr.mapList_eq, hcheck b hb]
    | _ =>
      subst he
      simp [map, Expr.map, Expr.mapList_eq]

theorem applyComponents_map
    (hcheck : ∀ b : Builtin K, b.check = .ok () → (b.map f).check = .ok ())
    {g : Func K} {args es : List (Expr K)} (h : g.applyComponents args = .ok es) :
    (g.map f).applyComponents (args.map (Expr.map f)) = .ok (es.map (Expr.map f)) := by
  rw [applyComponents] at h ⊢
  rw [dim_map, mapM_eq_ok, List.forall₂_map_right_iff]
  refine (mapM_eq_ok.1 h).imp fun index e hstep => ?_
  obtain ⟨component, hcomponent, happly⟩ := bind_eq_ok.1 hstep
  exact bind_eq_ok.2 ⟨_, component_map f hcomponent, apply_map hcheck happly⟩

/-- Expanding does not look at literals, as long as no built-in is refused for its base. -/
theorem expand_map (hcheck : ∀ b : Builtin K, b.check = .ok () → (b.map f).check = .ok ()) :
    ∀ {g : Func K} {args : List (Expr K)} {e : Expr K}, g.expand args = .ok e →
      (g.map f).expand (args.map (Expr.map f)) = .ok (e.map f)
  | .comp inner outer, args, e, h => by
    rw [expand] at h
    obtain ⟨mid, hmid, h⟩ := bind_eq_ok.1 h
    rw [map, expand, applyComponents_map hcheck hmid]
    exact outer.expand_map hcheck h
  | .builtin b, args, e, h => apply_map hcheck h
  | .custom name params body, args, e, h => apply_map hcheck h

end Func

end

end ZeroSet
