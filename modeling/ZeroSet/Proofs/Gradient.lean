import ZeroSet.Proofs.DualNumbers
import ZeroSet.Proofs.RealValue
import ZeroSet.Proofs.Expansion
import ZeroSet.Expr.Derivative

/-!
# The gradient of an expression

At a point where an expression has a value it changes linearly with the names it mentions.
The linear map is found in two ways, which are shown to agree: by evaluating over dual numbers,
and by evaluating the symbolic derivatives.

* `Env.Moving` — an environment over dual numbers whose values are those of another one.
* `Expr.Gradient` — a linear map is what both ways find.
* `Expr.Gradient.binary`, `Expr.Gradient.power`, … — the gradient of a node from those of its
  parts.
-/

namespace ZeroSet

open TrivSqZeroExt

/-! ## Moving environments -/

section

variable {K : Type} [ExactScalar K]

/-- A name that stands for a number stands for the number with the slope of the name. -/
def Bindings.Moving (slopes : String → K) (b : Bindings K) (moving : Bindings (DualNumber K)) :
    Prop :=
  ∀ name v, b.get? name = some (.num v) → moving.get? name = some (.num (jet v (slopes name)))

/-- The environment over dual numbers has the numbers of the other one for values, and every
name has a slope of its own. -/
structure Env.Moving (slopes : String → K) (env : Env K) (moving : Env (DualNumber K)) : Prop where
  /-- The same names are being resolved. -/
  resolving : moving.resolving = env.resolving
  /-- Numbers move with the slopes of their names. -/
  bindings : env.bindings.Moving slopes moving.bindings

/-- Slopes with those of some names replaced, from the first to the last. -/
def override (slopes : String → K) : List (String × K) → String → K
  | [] => slopes
  | p :: pairs => override (Function.update slopes p.1 p.2) pairs

theorem Bindings.Moving.put {slopes : String → K} {b : Bindings K}
    {moving : Bindings (DualNumber K)} (h : b.Moving slopes moving) (name : String)
    (d : DualNumber K) :
    (b.put name (.num d.fst)).Moving (Function.update slopes name d.snd)
      (moving.put name (.num d)) := by
  intro m v hget
  rw [get?_put] at hget ⊢
  by_cases hm : m = name
  · subst hm
    rw [if_pos rfl] at hget ⊢
    cases hget
    rw [Function.update_self, jet, inl_fst_add_inr_snd_eq]
  · rw [if_neg hm] at hget ⊢
    rw [Function.update_of_ne hm]
    exact h m v hget

theorem Bindings.Moving.putAll (pairs : List (String × DualNumber K)) :
    ∀ {slopes : String → K} {b : Bindings K} {moving : Bindings (DualNumber K)},
      b.Moving slopes moving →
      (b.putAll (pairs.map fun p => (p.1, .num p.2.fst))).Moving
        (override slopes (pairs.map fun p => (p.1, p.2.snd)))
        (moving.putAll (pairs.map fun p => (p.1, .num p.2))) := by
  induction pairs with
  | nil => exact fun h => h
  | cons p pairs ih => exact fun h => ih (h.put p.1 p.2)

/-- Inside a scope the new names move as they are told to. -/
theorem Env.Moving.enter {slopes : String → K} {env : Env K} {moving : Env (DualNumber K)}
    (h : env.Moving slopes moving) (pairs : List (String × DualNumber K)) :
    (env.enter (pairs.map fun p => (p.1, .num p.2.fst))).Moving
      (override slopes (pairs.map fun p => (p.1, p.2.snd)))
      (moving.enter (pairs.map fun p => (p.1, .num p.2))) where
  resolving := by
    show moving.resolving.filter _ = env.resolving.filter _
    rw [h.resolving, List.map_map, List.map_map]
    rfl
  bindings := h.bindings.putAll pairs

end

/-! ## Gradients -/

namespace Expr

variable {K : Type} [ElementaryScalar K]

/-- In an environment the expression has a value, and it changes with the names by a linear map:
evaluating it over dual numbers follows the map along any slopes, and its symbolic derivatives
evaluate to the entries of the map. -/
structure Gradient (depth : Nat) (env : Env K) (e : Expr K) (v : K)
    (A : (String → K) →ₗ[K] K) : Prop where
  /-- The value. -/
  value : e.Yields depth env v
  /-- Evaluating over dual numbers. -/
  moving : ∀ {slopes moving}, env.Moving slopes moving → ∀ k,
    (e.map inl).Yields (k + 1) moving (jet v (A slopes))
  /-- Evaluating the derivative in a name that the expression mentions. -/
  derivative : ∀ {name}, name ∈ e.freeNames → ∃ de, e.derivative name = .ok de ∧
    de.Yields depth env (A (Pi.single name 1))
  /-- Only the slopes of names that the expression mentions matter. -/
  free : ∀ slopes, (∀ name ∈ e.freeNames, slopes name = 0) → A slopes = 0

/-- The symbolic derivative of a built-in evaluates to its textbook derivative. -/
theorem Yields.derivativeAt {depth : Nat} {env : Env K} {a : Expr K} {u : K} {f : Builtin K}
    (ha : a.Yields depth env u) (hf : f.check = .ok ()) (hpos : f = .exp ∨ 0 < u) :
    (f.derivativeAt a).Yields depth env (f.slope u) := by
  rcases hpos with rfl | hu
  · exact ha.exp
  · cases f with
    | exp => exact ha.exp
    | ln => exact (yields_num 1).div ha hu.ne'
    | log base =>
      exact (yields_num 1).div (ha.mul (yields_num base).ln)
        (mul_ne_zero hu.ne' (Builtin.ln_ne_zero_of_check hf))
    | sqrt =>
      have hsqrt : 0 < Scalar.sqrt u := ElementaryScalar.sqrt_pos u hu
      have htwo : (Scalar.decimal 20 true 1 : K) * Scalar.sqrt u = 2 * Scalar.sqrt u := by
        rw [ExactScalar.decimal_two]
      rw [Builtin.slope, ← htwo]
      refine (yields_num 1).div ((yields_num _).mul ha.sqrt) ?_
      rw [htwo]
      exact mul_ne_zero two_ne_zero hsqrt.ne'
    | root degree =>
      have hinverse : (Expr.num 1 / Expr.num degree).Yields depth env (1 / degree) :=
        (yields_num 1).div (yields_num degree) (Builtin.degree_ne_zero_of_check hf)
      exact hinverse.mul (ha.power (hinverse.sub (yields_num 1)))

namespace Gradient

variable {depth : Nat} {env : Env K} {a b : Expr K} {u v w : K} {A B : (String → K) →ₗ[K] K}

theorem single_eq_zero (h : Gradient depth env a v A) {name : String} (hname : name ∉ a.freeNames) :
    A (Pi.single name 1) = 0 := by
  refine h.free _ fun m hm => Pi.single_eq_of_ne ?_ 1
  rintro rfl
  exact hname hm

/-- Every derivative evaluates, also where the expression does not mention the name. -/
theorem exists_derivative (h : Gradient depth env a v A) (name : String) :
    ∃ da, a.derivative name = .ok da ∧ da.Yields depth env (A (Pi.single name 1)) := by
  by_cases hname : name ∈ a.freeNames
  · exact h.derivative hname
  · rw [h.single_eq_zero hname]
    exact ⟨_, derivative_of_notMem hname, yields_num 0⟩

theorem num (v : K) : Gradient depth env (.num v) v 0 where
  value := yields_num v
  moving _ k := by
    rw [Expr.map, inl_eq_jet]
    exact yields_num _
  derivative hname := by cases hname
  free _ _ := rfl

theorem var {name : String} (h : (Expr.var name).Yields depth env v)
    (hnumber : ∃ x, env.bindings.get? name = some (.num x)) :
    Gradient depth env (.var name) v (LinearMap.proj name) where
  value := h
  moving {slopes moving} hmoving k := by
    obtain ⟨x, hget⟩ := hnumber
    obtain ⟨hname, hdepth⟩ := h.notMem_resolving
    obtain ⟨depth, rfl⟩ := Nat.exists_eq_add_one_of_ne_zero hdepth.ne'
    cases h.unique (yields_var hname hget)
    exact yields_var (hmoving.resolving ▸ hname) (hmoving.bindings name v hget)
  derivative {m} hname := by
    cases List.mem_singleton.1 hname
    refine ⟨.num 1, ?_, ?_⟩
    · rw [Expr.derivative.eq_def, if_neg (not_not_dependsOn hname)]
      simp
    · rw [LinearMap.proj_apply, Pi.single_eq_same]
      exact yields_num 1
  free slopes h := h name (List.mem_singleton_self name)

theorem neg (ha : Gradient depth env a v A) : Gradient depth env (.neg a) (-v) (-A) where
  value := ha.value.neg
  moving hmoving k := by
    rw [LinearMap.neg_apply, ← jet_neg]
    exact (ha.moving hmoving k).neg
  derivative {name} hname := by
    obtain ⟨da, hda, hyields⟩ := ha.derivative hname
    refine ⟨-da, ?_, hyields.neg⟩
    rw [Expr.derivative.eq_def, if_neg (not_not_dependsOn hname)]
    dsimp only
    rw [hda]
    rfl
  free slopes h := by
    rw [LinearMap.neg_apply, ha.free slopes h, neg_zero]

theorem binary {op : BinOp} (ha : Gradient depth env a v A) (hb : Gradient depth env b w B)
    (h : op.onReals v w = .ok u) :
    Gradient depth env (.binary op a b) u
      ((op.partials v w).1 • A + (op.partials v w).2 • B) where
  value := ha.value.binary hb.value h
  moving hmoving k :=
    (ha.moving hmoving k).binary (hb.moving hmoving k) (BinOp.onReals_jet h _ _)
  derivative {name} hname := by
    obtain ⟨da, hda, hya⟩ := ha.exists_derivative name
    obtain ⟨db, hdb, hyb⟩ := hb.exists_derivative name
    have hrule := Expr.derivative.eq_def name (.binary op a b)
    rw [if_neg (not_not_dependsOn hname)] at hrule
    dsimp only at hrule
    rw [hda, hdb] at hrule
    refine ⟨_, hrule, ?_⟩
    rw [LinearMap.add_apply, LinearMap.smul_apply, LinearMap.smul_apply, smul_eq_mul, smul_eq_mul]
    cases op with
    | add =>
      rw [BinOp.partials, one_mul, one_mul]
      exact hya.add hyb
    | sub =>
      rw [BinOp.partials, one_mul, neg_one_mul, ← sub_eq_add_neg]
      exact hya.sub hyb
    | mul =>
      rw [BinOp.partials, mul_comm w]
      exact (hya.mul hb.value).add (ha.value.mul hyb)
    | div =>
      have hw : w ≠ 0 := by
        rintro rfl
        simp [BinOp.onReals] at h
      have hsquare : Scalar.pow w (Scalar.decimal 20 true 1) = w * w := by
        rw [ExactScalar.decimal_two]
        exact ElementaryScalar.pow_two w
      have hvalue : 1 / w * A (Pi.single name 1) + -(v / (w * w)) * B (Pi.single name 1) =
          (A (Pi.single name 1) * w - v * B (Pi.single name 1)) /
            Scalar.pow w (Scalar.decimal 20 true 1) := by
        rw [hsquare]
        field_simp
        ring
      rw [BinOp.partials, hvalue]
      exact ((hya.mul hb.value).sub (ha.value.mul hyb)).div (hb.value.power (yields_num _))
        (hsquare ▸ mul_ne_zero hw hw)
  free slopes h := by
    obtain ⟨hfa, hfb⟩ := List.forall_mem_append.1 h
    rw [LinearMap.add_apply, LinearMap.smul_apply, LinearMap.smul_apply, ha.free slopes hfa,
      hb.free slopes hfb, smul_zero, smul_zero, add_zero]

/-- A power changes with its base by the power rule, and with its exponent only where the base is
positive. -/
theorem power (ha : Gradient depth env a v A) (hb : Gradient depth env b w B)
    (hpos : ∀ name ∈ b.freeNames, 0 < v) :
    Gradient depth env (.power a b) (Scalar.pow v w)
      ((w * Scalar.pow v (w - 1)) • A + (Scalar.pow v w * Scalar.ln v) • B) where
  value := ha.value.power hb.value
  moving {slopes moving} hmoving k := by
    have hyields := (ha.moving hmoving k).power (hb.moving hmoving k)
    rw [pow_jet] at hyields
    exact hyields
  derivative {name} hname := by
    obtain ⟨da, hda, hya⟩ := ha.exists_derivative name
    obtain ⟨db, hdb, hyb⟩ := hb.exists_derivative name
    have hrule := Expr.derivative.eq_def name (.power a b)
    rw [if_neg (not_not_dependsOn hname)] at hrule
    dsimp only at hrule
    rw [LinearMap.add_apply, LinearMap.smul_apply, LinearMap.smul_apply, smul_eq_mul, smul_eq_mul]
    by_cases hexponent : name ∈ b.freeNames
    · have hv := hpos name hexponent
      rw [if_pos (dependsOn_iff.2 hexponent), hda, hdb] at hrule
      refine ⟨_, hrule, ?_⟩
      have hexp : Scalar.exp (w * Scalar.ln v) = Scalar.pow v w :=
        ElementaryScalar.exp_mul_ln v w hv
      have hpow : Scalar.pow v (w - 1) = Scalar.pow v w / v := ElementaryScalar.pow_sub_one v w hv
      have hvalue : w * Scalar.pow v (w - 1) * A (Pi.single name 1) +
            Scalar.pow v w * Scalar.ln v * B (Pi.single name 1) =
          Scalar.exp (w * Scalar.ln v) *
            (B (Pi.single name 1) * Scalar.ln v + w * (A (Pi.single name 1) / v)) := by
        rw [hexp, hpow]
        ring
      rw [hvalue]
      exact (hb.value.mul ha.value.ln).exp.mul
        ((hyb.mul ha.value.ln).add (hb.value.mul (hya.div ha.value hv.ne')))
    · have hnot : ¬b.dependsOn name = true := fun h => hexponent (dependsOn_iff.1 h)
      rw [if_neg hnot, hda] at hrule
      refine ⟨_, hrule, ?_⟩
      rw [hb.single_eq_zero hexponent, mul_zero, add_zero]
      exact (hb.value.mul (ha.value.power (hb.value.sub (yields_num 1)))).mul hya
  free slopes h := by
    obtain ⟨hfa, hfb⟩ := List.forall_mem_append.1 h
    rw [LinearMap.add_apply, LinearMap.smul_apply, LinearMap.smul_apply, ha.free slopes hfa,
      hb.free slopes hfb, smul_zero, smul_zero, add_zero]

theorem builtin {f : Builtin K} (hf : f.check = .ok ()) (ha : Gradient depth env a v A)
    (hpos : f = .exp ∨ 0 < v) :
    Gradient depth env (.apply (.builtin f) [a]) (f.value v) (f.slope v • A) where
  value := ha.value.builtin hf
  moving hmoving k := by
    have hyields := (ha.moving hmoving k).builtin (Builtin.check_map hf)
    rw [Builtin.value_jet hf] at hyields
    exact hyields
  derivative {name} hname := by
    obtain ⟨da, hda, hya⟩ := ha.exists_derivative name
    have hrule := Expr.derivative.eq_def name (.apply (.builtin f) [a])
    rw [if_neg (not_not_dependsOn hname)] at hrule
    dsimp only at hrule
    rw [hf, hda] at hrule
    exact ⟨_, hrule, (ha.value.derivativeAt hf hpos).mul hya⟩
  free slopes h := by
    have hfree : ∀ name ∈ a.freeNames, slopes name = 0 := fun name hname =>
      h name (mem_freeNames_apply.2 (.inr ⟨a, List.mem_singleton_self a, hname⟩))
    rw [LinearMap.smul_apply, ha.free slopes hfree, smul_zero]

/-- A composition changes as its expansion does. -/
theorem comp {inner outer : Func K} {args : List (Expr K)} {expanded : Expr K}
    (hexpanded : (Func.comp inner outer).expand args = .ok expanded)
    (h : Gradient depth env expanded v A) :
    Gradient depth env (.apply (.comp inner outer) args) v A where
  value := by
    show Expr.outcome _ _ _ _ = _
    rw [outcome_comp, hexpanded]
    exact h.value
  moving hmoving k := by
    have hmap : (Func.comp (inner.map inl) (outer.map inl)).expand (args.map (Expr.map inl)) =
        .ok (expanded.map (inl : K → DualNumber K)) :=
      Func.expand_map (fun _ => Builtin.check_map) hexpanded
    show Expr.outcome (.apply (.comp (inner.map inl) (outer.map inl)) (mapList inl args)) _ _ _ = _
    rw [outcome_comp, mapList_eq, hmap]
    exact h.moving hmoving k
  derivative {name} hname := by
    obtain ⟨de, hde, hyields⟩ := h.exists_derivative name
    refine ⟨de, ?_, hyields⟩
    rw [Expr.derivative.eq_def, if_neg (not_not_dependsOn hname)]
    dsimp only
    split
    · rename_i heq
      cases hexpanded.symm.trans heq
      exact hde
    · rename_i heq
      cases hexpanded.symm.trans heq
  free slopes hslopes := by
    simp only [mem_freeNames_apply] at hslopes
    exact h.free slopes <| (hereditary_freeNames fun n => slopes n = 0).expand hexpanded
      (fun n hn => hslopes n (.inl hn)) fun a ha n hn => hslopes n (.inr ⟨a, ha, hn⟩)

end Gradient

end Expr

end ZeroSet
