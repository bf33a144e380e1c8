import ZeroSet.Proofs.RealValue
import ZeroSet.Proofs.Rewriting
import ZeroSet.Expr.Powers
import ZeroSet.Scalar.Binary64

/-!
# Unrolled powers

Unrolling writes powers with small natural exponents as products of equal factors.  Whether a power
is unrolled is decided on its exponent as it stands, before the exponent is unrolled itself; an
exponent that is not a literal but becomes one leaves a power behind that could be unrolled.  Where
that does not happen, no power is left behind, and unrolling again changes nothing.

The values stay the same.  A body that is a first power of a vector literal becomes that literal,
and a composition is then fed with its elements; but the first power of a vector has no value, so
that only a composition that never looks at what it is fed with takes notice.

* `Expr.isUnrolled` — no power with a small natural exponent occurs in an expression.
* `Expr.exponentsSettled` — no exponent becomes a small natural by unrolling it.
* `Expr.isUnrolled_unrollPowers_iff` — unrolling leaves no power behind exactly if that is so, and
  exactly then a second pass changes nothing.
* `Expr.unrollsInStep` — compositions are fed with as many components after unrolling as before.
* `Expr.evaluate_unrollPowers` — unrolling keeps real values.
-/

namespace ZeroSet

variable {K : Type} [Scalar K]

/-! ## What unrolling leaves behind -/

/-- Whether the expression is a literal for a natural number up to the largest exponent that is
unrolled. -/
def Expr.isSmallNatural (e : Expr K) : Bool :=
  e.asNumber?.any fun v => (List.range (maxUnrolledPower + 1)).any fun n => v == Scalar.ofNat n

mutual

/-- Whether no power with a small natural exponent occurs in an expression or in the functions it
applies. -/
def Expr.isUnrolled : Expr K → Bool
  | .num _ => true
  | .var _ => true
  | .vec items => Expr.isUnrolledList items
  | .interval lo hi => lo.isUnrolled && hi.isUnrolled
  | .neg a => a.isUnrolled
  | .binary _ a b => a.isUnrolled && b.isUnrolled
  | .power a b => !b.isSmallNatural && a.isUnrolled && b.isUnrolled
  | .apply f args => f.isUnrolled && Expr.isUnrolledList args

/-- Whether no power with a small natural exponent occurs in a list of expressions. -/
def Expr.isUnrolledList : List (Expr K) → Bool
  | [] => true
  | e :: es => e.isUnrolled && Expr.isUnrolledList es

/-- Whether no power with a small natural exponent occurs in the bodies of a function. -/
def Func.isUnrolled : Func K → Bool
  | .custom _ _ body => body.isUnrolled
  | .comp inner outer => inner.isUnrolled && outer.isUnrolled
  | .builtin _ => true

end

mutual

/-- Whether no exponent in an expression or in the functions it applies becomes a small natural by
unrolling it.  The base of a power with the exponent zero does not matter, since it is dropped. -/
def Expr.exponentsSettled : Expr K → Bool
  | .num _ => true
  | .var _ => true
  | .vec items => Expr.exponentsSettledList items
  | .interval lo hi => lo.exponentsSettled && hi.exponentsSettled
  | .neg a => a.exponentsSettled
  | .binary _ a b => a.exponentsSettled && b.exponentsSettled
  | .power a b =>
    match b.naturalExponent? with
    | some 0 => true
    | some _ => a.exponentsSettled
    | none => !b.unrollPowers.isSmallNatural && a.exponentsSettled && b.exponentsSettled
  | .apply f args => f.exponentsSettled && Expr.exponentsSettledList args

/-- Whether no exponent in a list of expressions becomes a small natural by unrolling it. -/
def Expr.exponentsSettledList : List (Expr K) → Bool
  | [] => true
  | e :: es => e.exponentsSettled && Expr.exponentsSettledList es

/-- Whether no exponent in the bodies of a function becomes a small natural by unrolling it. -/
def Func.exponentsSettled : Func K → Bool
  | .custom _ _ body => body.exponentsSettled
  | .comp inner outer => inner.exponentsSettled && outer.exponentsSettled
  | .builtin _ => true

end

namespace Expr

/-- The exponents whose powers are unrolled are the small naturals. -/
theorem isSome_naturalExponent? (e : Expr K) : e.naturalExponent?.isSome = e.isSmallNatural := by
  cases e with
  | num v => exact List.isSome_find?
  | _ => rfl

theorem isUnrolled_repeatedProduct (a : Expr K) :
    ∀ n, (a.repeatedProduct (n + 1)).isUnrolled = a.isUnrolled
  | 0 => rfl
  | n + 1 => by
    show ((a.repeatedProduct (n + 1)).isUnrolled && a.isUnrolled) = _
    rw [isUnrolled_repeatedProduct a n, Bool.and_self]

end Expr

mutual

/-- Unrolling leaves a power behind exactly where an exponent only becomes a small natural by
unrolling it. -/
theorem Expr.isUnrolled_unrollPowers : ∀ e : Expr K, e.unrollPowers.isUnrolled = e.exponentsSettled
  | .num _ => rfl
  | .var _ => rfl
  | .vec items => Expr.isUnrolledList_unrollPowersList items
  | .interval lo hi => by
    rw [Expr.unrollPowers, Expr.isUnrolled, lo.isUnrolled_unrollPowers, hi.isUnrolled_unrollPowers,
      Expr.exponentsSettled]
  | .neg a => a.isUnrolled_unrollPowers
  | .binary _ a b => by
    rw [Expr.unrollPowers, Expr.isUnrolled, a.isUnrolled_unrollPowers, b.isUnrolled_unrollPowers,
      Expr.exponentsSettled]
  | .power a b => by
    rw [Expr.unrollPowers, Expr.exponentsSettled]
    cases b.naturalExponent? with
    | none =>
      show (!b.unrollPowers.isSmallNatural && a.unrollPowers.isUnrolled &&
        b.unrollPowers.isUnrolled) = _
      rw [a.isUnrolled_unrollPowers, b.isUnrolled_unrollPowers]
    | some n =>
      cases n with
      | zero => rfl
      | succ n => exact (Expr.isUnrolled_repeatedProduct _ n).trans a.isUnrolled_unrollPowers
  | .apply f args => by
    rw [Expr.unrollPowers, Expr.isUnrolled, f.isUnrolled_unrollPowers,
      Expr.isUnrolledList_unrollPowersList args, Expr.exponentsSettled]

theorem Expr.isUnrolledList_unrollPowersList : ∀ es : List (Expr K),
    Expr.isUnrolledList (Expr.unrollPowersList es) = Expr.exponentsSettledList es
  | [] => rfl
  | e :: es => by
    rw [Expr.unrollPowersList, Expr.isUnrolledList, e.isUnrolled_unrollPowers,
      Expr.isUnrolledList_unrollPowersList es, Expr.exponentsSettledList]

theorem Func.isUnrolled_unrollPowers : ∀ f : Func K, f.unrollPowers.isUnrolled = f.exponentsSettled
  | .custom _ _ body => body.isUnrolled_unrollPowers
  | .comp inner outer => by
    rw [Func.unrollPowers, Func.isUnrolled, inner.isUnrolled_unrollPowers,
      outer.isUnrolled_unrollPowers, Func.exponentsSettled]
  | .builtin _ => rfl

end

mutual

/-- Where no power is left to be unrolled, unrolling changes nothing. -/
theorem Expr.unrollPowers_of_isUnrolled : ∀ {e : Expr K}, e.isUnrolled = true → e.unrollPowers = e
  | .num _, _ => rfl
  | .var _, _ => rfl
  | .vec items, h => congrArg Expr.vec (Expr.unrollPowersList_of_isUnrolled h)
  | .interval lo hi, h => by
    obtain ⟨hlo, hhi⟩ := Bool.and_eq_true_iff.1 h
    rw [Expr.unrollPowers, Expr.unrollPowers_of_isUnrolled hlo, Expr.unrollPowers_of_isUnrolled hhi]
  | .neg a, h => congrArg Expr.neg (Expr.unrollPowers_of_isUnrolled (e := a) h)
  | .binary _ a b, h => by
    obtain ⟨ha, hb⟩ := Bool.and_eq_true_iff.1 h
    rw [Expr.unrollPowers, Expr.unrollPowers_of_isUnrolled ha, Expr.unrollPowers_of_isUnrolled hb]
  | .power a b, h => by
    obtain ⟨h, hb⟩ := Bool.and_eq_true_iff.1 h
    obtain ⟨hexponent, ha⟩ := Bool.and_eq_true_iff.1 h
    have hnone : b.naturalExponent? = none := by
      rw [← Option.not_isSome_iff_eq_none, Expr.isSome_naturalExponent?]
      simpa using hexponent
    rw [Expr.unrollPowers, hnone]
    dsimp only
    rw [Expr.unrollPowers_of_isUnrolled ha, Expr.unrollPowers_of_isUnrolled hb]
  | .apply f args, h => by
    obtain ⟨hf, hargs⟩ := Bool.and_eq_true_iff.1 h
    rw [Expr.unrollPowers, Func.unrollPowers_of_isUnrolled hf,
      Expr.unrollPowersList_of_isUnrolled hargs]

theorem Expr.unrollPowersList_of_isUnrolled : ∀ {es : List (Expr K)},
    Expr.isUnrolledList es = true → Expr.unrollPowersList es = es
  | [], _ => rfl
  | e :: es, h => by
    obtain ⟨he, hes⟩ := Bool.and_eq_true_iff.1 h
    rw [Expr.unrollPowersList, Expr.unrollPowers_of_isUnrolled he,
      Expr.unrollPowersList_of_isUnrolled hes]

theorem Func.unrollPowers_of_isUnrolled : ∀ {f : Func K}, f.isUnrolled = true → f.unrollPowers = f
  | .custom name params _, h =>
    congrArg (Func.custom name params) (Expr.unrollPowers_of_isUnrolled h)
  | .comp inner outer, h => by
    obtain ⟨hinner, houter⟩ := Bool.and_eq_true_iff.1 h
    rw [Func.unrollPowers, Func.unrollPowers_of_isUnrolled hinner,
      Func.unrollPowers_of_isUnrolled houter]
  | .builtin _, _ => rfl

end

/-- How many powers are nested in the bases of an expression. -/
def Expr.baseDepth : Expr K → Nat
  | .power a _ => a.baseDepth + 1
  | _ => 0

theorem Expr.baseDepth_unrollPowers_le : ∀ e : Expr K, e.unrollPowers.baseDepth ≤ e.baseDepth
  | .power a b => by
    have ha := baseDepth_unrollPowers_le a
    rw [unrollPowers]
    cases b.naturalExponent? with
    | none => exact Nat.succ_le_succ ha
    | some n =>
      match n with
      | 0 => exact Nat.zero_le _
      | 1 => exact ha.trans (Nat.le_succ _)
      | _ + 2 => exact Nat.zero_le _
  | .num _ => Nat.le_refl 0
  | .var _ => Nat.le_refl 0
  | .vec _ => Nat.le_refl 0
  | .interval _ _ => Nat.le_refl 0
  | .neg _ => Nat.le_refl 0
  | .binary _ _ _ => Nat.le_refl 0
  | .apply _ _ => Nat.le_refl 0

mutual

/-- Where unrolling changes nothing, there is no power to be unrolled. -/
theorem Expr.isUnrolled_of_unrollPowers : ∀ {e : Expr K}, e.unrollPowers = e → e.isUnrolled = true
  | .num _, _ => rfl
  | .var _, _ => rfl
  | .vec items, h => by
    injection h with hitems
    exact Expr.isUnrolledList_of_unrollPowersList hitems
  | .interval lo hi, h => by
    injection h with hlo hhi
    exact Bool.and_eq_true_iff.2
      ⟨Expr.isUnrolled_of_unrollPowers hlo, Expr.isUnrolled_of_unrollPowers hhi⟩
  | .neg a, h => by
    injection h with ha
    exact Expr.isUnrolled_of_unrollPowers (e := a) ha
  | .binary _ a b, h => by
    injection h with _ ha hb
    exact Bool.and_eq_true_iff.2
      ⟨Expr.isUnrolled_of_unrollPowers ha, Expr.isUnrolled_of_unrollPowers hb⟩
  | .power a b, h => by
    rw [Expr.unrollPowers] at h
    cases hexponent : b.naturalExponent? with
    | none =>
      rw [hexponent] at h
      injection h with ha hb
      have hsmall : b.isSmallNatural = false := by
        rw [← Expr.isSome_naturalExponent?, hexponent]
        rfl
      rw [Expr.isUnrolled, hsmall, Expr.isUnrolled_of_unrollPowers ha,
        Expr.isUnrolled_of_unrollPowers hb]
      rfl
    | some n =>
      rw [hexponent] at h
      match n with
      | 0 => cases h
      | 1 =>
        -- the base would be nested one power deeper than it is
        have hdeeper : a.unrollPowers.baseDepth = a.baseDepth + 1 := congrArg Expr.baseDepth h
        have hdepth := a.baseDepth_unrollPowers_le
        omega
      | _ + 2 => cases h
  | .apply f args, h => by
    injection h with hf hargs
    exact Bool.and_eq_true_iff.2
      ⟨Func.isUnrolled_of_unrollPowers hf, Expr.isUnrolledList_of_unrollPowersList hargs⟩

theorem Expr.isUnrolledList_of_unrollPowersList : ∀ {es : List (Expr K)},
    Expr.unrollPowersList es = es → Expr.isUnrolledList es = true
  | [], _ => rfl
  | e :: es, h => by
    injection h with he hes
    exact Bool.and_eq_true_iff.2
      ⟨Expr.isUnrolled_of_unrollPowers he, Expr.isUnrolledList_of_unrollPowersList hes⟩

theorem Func.isUnrolled_of_unrollPowers : ∀ {f : Func K}, f.unrollPowers = f → f.isUnrolled = true
  | .custom _ _ body, h => by
    injection h with _ _ hbody
    exact Expr.isUnrolled_of_unrollPowers (e := body) hbody
  | .comp inner outer, h => by
    injection h with hinner houter
    exact Bool.and_eq_true_iff.2
      ⟨Func.isUnrolled_of_unrollPowers hinner, Func.isUnrolled_of_unrollPowers houter⟩
  | .builtin _, _ => rfl

end

namespace Expr

/-- Unrolling leaves no power with a small natural exponent behind exactly if no exponent becomes
one only by unrolling it, and exactly then unrolling again changes nothing. -/
theorem isUnrolled_unrollPowers_iff (e : Expr K) :
    (e.unrollPowers.isUnrolled = true ↔ e.exponentsSettled = true) ∧
      (e.unrollPowers.unrollPowers = e.unrollPowers ↔ e.exponentsSettled = true) := by
  rw [← e.isUnrolled_unrollPowers]
  exact ⟨Iff.rfl, isUnrolled_of_unrollPowers, unrollPowers_of_isUnrolled⟩

/-- Powers of powers, in an argument, in a body and in an exponent. -/
def nestedPowers : Expr Float :=
  .apply (.custom "f" ["u"] (.power (.power (.var "u") (.num 2)) (.num 3)))
    [.power (.power (.var "x") (.num 2)) (.power (.var "y") (.num 2))]

theorem isUnrolled_unrollPowers_iff_nestedPowers :
    nestedPowers.exponentsSettled = true ∧ nestedPowers.unrollPowers.isUnrolled = true ∧
      nestedPowers.unrollPowers.unrollPowers = nestedPowers.unrollPowers := by
  have hsettled : nestedPowers.exponentsSettled = true := by decide +kernel
  obtain ⟨hleft, hagain⟩ := isUnrolled_unrollPowers_iff nestedPowers
  exact ⟨hsettled, hleft.2 hsettled, hagain.2 hsettled⟩

/-- A square whose exponent is a power itself. -/
def squareByPower : Expr Float := .power (.var "x") (.power (.num 2) (.num 1))

/-- The exponent becomes a literal only when it is unrolled, and so a second pass still finds a
power to unroll. -/
theorem unrollPowers_squareByPower :
    squareByPower.unrollPowers.isUnrolled = false ∧
      squareByPower.unrollPowers = .power (.var "x") (.num 2) ∧
      squareByPower.unrollPowers.unrollPowers = .var "x" * .var "x" :=
  ⟨by decide +kernel, rfl, rfl⟩

end Expr

/-! ## Functions that are unrolled -/

theorem Expr.unrollPowersList_eq_map : ∀ es : List (Expr K),
    Expr.unrollPowersList es = es.map Expr.unrollPowers
  | [] => rfl
  | e :: es => by rw [unrollPowersList, unrollPowersList_eq_map es, List.map_cons]

/-- Unrolling rewrites expressions along with the functions they apply. -/
def unrolling : Rewriting K where
  onExpr := Expr.unrollPowers
  onFunc := Func.unrollPowers
  inBody _ body := body.unrollPowers
  apply f args := by rw [Expr.unrollPowers, Expr.unrollPowersList_eq_map]
  custom _ _ _ := rfl
  comp _ _ := rfl
  builtin _ := rfl
  vec params items := by rw [Expr.unrollPowers, Expr.unrollPowersList_eq_map]

/-- In a composition the inner function has the components of a vector literal after unrolling only
if it has them before, unless the outer function evaluates what it is fed with. -/
def Func.unrollsInStep (_bound : List String) (inner outer : Func K) : Bool :=
  outer.isStrict || inner.unrollPowers.isVector == inner.isVector

/-- Whether all compositions in an expression are fed with as many components after unrolling as
before, or look at what they are fed with. -/
def Expr.unrollsInStep (e : Expr K) : Bool := e.allCompositions Func.unrollsInStep []

theorem inherited_unrollsInStep (bound : List String) :
    Inherited (fun e : Expr K => e.allCompositions Func.unrollsInStep bound = true)
      fun f => f.allCompositions Func.unrollsInStep bound = true := by
  refine inherited_allCompositions (fun {bound inner outer g index} hg h => ?_) bound
  rcases Bool.or_eq_true_iff.1 h with hstrict | hsame
  · exact Bool.or_eq_true_iff.2 (.inl (Func.isStrict_component hg hstrict))
  · exact Bool.or_eq_true_iff.2 (.inr hsame)

/-- A vector literal for a body stays one. -/
theorem Func.isVector_unrollPowers : ∀ {f : Func K}, f.isVector = true →
    f.unrollPowers.isVector = true
  | .custom _ _ body, h => by
    cases body with
    | vec items => rfl
    | _ => cases h
  | .comp _ outer, h => isVector_unrollPowers (f := outer) h

/-! ## Unrolling and vector literals -/

section

variable {depth : Nat} {env : Env K} {x : K}

theorem Expr.Yields.items? : ∀ {e : Expr K}, e.Yields depth env x → e.items? = none
  | .vec items, h => by
    rw [Expr.Yields, Expr.outcome_vec] at h
    cases h
  | .num _, _ => rfl
  | .var _, _ => rfl
  | .interval _ _, _ => rfl
  | .neg _, _ => rfl
  | .binary _ _ _, _ => rfl
  | .power _ _, _ => rfl
  | .apply _ _, _ => rfl

/-- What has a real value does not become a vector literal. -/
theorem Expr.Yields.items?_unrollPowers : ∀ {e : Expr K} {x : K}, e.Yields depth env x →
    e.unrollPowers.items? = none
  | .vec _, _, h => by cases h.items?
  | .power a b, _, h => by
    obtain ⟨y, _, hy, -, -⟩ := h.exists_power
    rw [Expr.unrollPowers]
    cases b.naturalExponent? with
    | none => rfl
    | some n =>
      -- only the first power is not a product
      match n with
      | 0 => rfl
      | 1 => exact hy.items?_unrollPowers
      | _ + 2 => rfl
  | .num _, _, _ => rfl
  | .var _, _, _ => rfl
  | .interval _ _, _, _ => rfl
  | .neg _, _, _ => rfl
  | .binary _ _ _, _, _ => rfl
  | .apply _ _, _, _ => rfl

theorem Expr.Yields.exists_expanded {inner outer : Func K} {args : List (Expr K)}
    (h : (apply (.comp inner outer) args).Yields depth env x) :
    ∃ mid, inner.applyComponents args = .ok mid ∧ (apply outer mid).Yields depth env x := by
  rw [Yields, outcome_comp] at h
  obtain ⟨expanded, hexpanded, h⟩ := bind_eq_ok.1 h
  obtain ⟨mid, hmid, hexpanded⟩ := bind_eq_ok.1 hexpanded
  exact ⟨mid, hmid, (outcome_of_expand hexpanded).trans h⟩

/-- A function that returns a real value keeps its number of components. -/
theorem Expr.Yields.keepsVector : ∀ {f : Func K} {args : List (Expr K)},
    (apply f args).Yields depth env x → unrolling.KeepsVector f
  | .custom name params body, args, h => by
    obtain ⟨-, xs, -, hbody⟩ := h.exists_custom
    show body.unrollPowers.items?.isSome = body.items?.isSome
    rw [hbody.items?_unrollPowers, hbody.items?]
  | .builtin b, args, h => rfl
  | .comp inner outer, args, h => by
    obtain ⟨mid, -, h⟩ := h.exists_expanded
    exact keepsVector (f := outer) h

/-- Where a composition with a real value is in step, so is every inner function along it. -/
theorem Expr.Yields.keepsInner {bound : List String} : ∀ {f : Func K} {args : List (Expr K)},
    (apply f args).Yields depth env x → f.allCompositions Func.unrollsInStep bound = true →
      unrolling.KeepsInner f
  | .custom _ _ _, _, _, _ => trivial
  | .builtin _, _, _, _ => trivial
  | .comp inner outer, args, h, hf => by
    obtain ⟨hhere, -, houter⟩ := Func.allCompositions_comp.1 hf
    obtain ⟨mid, hmid, h⟩ := h.exists_expanded
    refine ⟨?_, keepsInner h houter⟩
    rcases Bool.or_eq_true_iff.1 hhere with hstrict | hsame
    · -- what the outer function evaluates is the inner one, unless that has a literal for its body
      cases hvector : inner.isVector with
      | true => exact (Func.isVector_unrollPowers hvector).trans hvector.symm
      | false =>
        have hdim : 0 < inner.dim := by
          rw [Func.dim_of_isVector_eq_false hvector]
          exact Nat.one_pos
        obtain ⟨g, hg, -, happlied⟩ := Func.exists_of_applyComponents hmid hdim
        cases (Func.component_of_isVector_eq_false hvector).symm.trans hg
        obtain ⟨w, hw⟩ := exists_outcome_of_isStrict hstrict h _ happlied
        obtain ⟨y, rfl⟩ := real_of_outcome hw
        exact Yields.keepsVector hw
    · exact beq_iff_eq.1 hsame

end

/-! ## Unrolling keeps real values -/

section

variable {K : Type} [ExactScalar K]

theorem eq_natCast_of_naturalUpTo {limit n : ℕ} {x : K}
    (h : Scalar.naturalUpTo limit x = some n) : x = n := by
  have hequal := List.find?_some h
  rwa [ExactScalar.beq_eq_true, ExactScalar.ofNat_eq_natCast] at hequal

/-- A number that is natural is recognised. -/
theorem naturalUpTo_natCast {limit n : ℕ} (h : n ≤ limit) :
    Scalar.naturalUpTo limit (n : K) = some n := by
  rw [Scalar.naturalUpTo, List.find?_range_eq_some]
  refine ⟨?_, List.mem_range.2 (Nat.lt_succ_of_le h), fun m hm => ?_⟩
  · rw [ExactScalar.beq_eq_true, ExactScalar.ofNat_eq_natCast]
  · rw [Bool.not_eq_true', Bool.eq_false_iff, ne_eq, ExactScalar.beq_eq_true,
      ExactScalar.ofNat_eq_natCast, Nat.cast_inj]
    omega

namespace Expr

/-- Exponents that are unrolled are literals for the number of factors. -/
theorem eq_num_of_naturalExponent? {e : Expr K} {n : ℕ} (h : e.naturalExponent? = some n) :
    e = .num (n : K) := by
  cases e with
  | num v => rw [eq_natCast_of_naturalUpTo h]
  | _ => cases h

theorem unrollPowers_power {a : Expr K} {n : ℕ} (hn : n ≤ maxUnrolledPower) :
    (power a (.num (n : K))).unrollPowers = a.unrollPowers.repeatedProduct n := by
  have hexponent : (num (n : K)).naturalExponent? = some n := naturalUpTo_natCast hn
  rw [unrollPowers, hexponent]

end Expr

end

namespace Expr

variable {K : Type} [PowerScalar K] {depth : ℕ} {env : Env K} {e a : Expr K} {x : K}

/-- A product of equal factors has the value of the power. -/
theorem Yields.repeatedProduct (ha : a.Yields depth env x) (n : ℕ) :
    (a.repeatedProduct n).Yields depth env (x ^ n) := by
  -- the product of no factors and that of one are no special cases of the step
  induction n using Nat.twoStepInduction with
  | zero =>
    rw [pow_zero]
    exact yields_num 1
  | one =>
    rw [pow_one]
    exact ha
  | more n _ ih =>
    rw [pow_succ]
    exact ih.mul ha

/-- Unrolling keeps a real value, in the environment and inside functions. -/
theorem Yields.unrollPowers {bound : List String} (h : e.Yields depth env x)
    (he : e.allCompositions Func.unrollsInStep bound = true) :
    e.unrollPowers.Yields depth env x := by
  induction e using expansionInduction generalizing env x bound with
  | num _ => exact h
  | var _ => exact h
  | vec items _ => cases h.items?
  | interval lo hi _ _ =>
    rw [Yields, outcome_interval] at h
    cases h
  | neg a ih =>
    obtain ⟨y, hy, rfl⟩ := h.exists_neg
    exact (ih hy he).neg
  | binary op a b iha ihb =>
    obtain ⟨ha, hb⟩ := Bool.and_eq_true_iff.1 he
    obtain ⟨y, z, hy, hz, hvalue⟩ := h.exists_binary
    exact (iha hy ha).binary (ihb hz hb) hvalue
  | power a b iha ihb =>
    obtain ⟨ha, hb⟩ := Bool.and_eq_true_iff.1 he
    obtain ⟨y, z, hy, hz, rfl⟩ := h.exists_power
    rw [Expr.unrollPowers]
    cases hexponent : b.naturalExponent? with
    | none => exact (iha hy ha).power (ihb hz hb)
    | some n =>
      rw [eq_num_of_naturalExponent? hexponent] at hz
      have hpow : Scalar.pow y (n : K) = y ^ n := PowerScalar.pow_natCast y n
      rw [hz.unique (yields_num _), hpow]
      exact (iha hy ha).repeatedProduct n
  | builtin f args ih =>
    rw [allCompositions, Bool.and_eq_true, allCompositionsList_iff] at he
    obtain ⟨arg, rfl⟩ := h.exists_argument
    obtain ⟨hcheck, y, hy, rfl⟩ := h.exists_builtin
    exact (ih arg (List.mem_singleton_self arg) hy (he.2 arg (List.mem_singleton_self arg))).builtin
      hcheck
  | custom f params body args ihargs ihbody =>
    rw [allCompositions, Bool.and_eq_true, allCompositionsList_iff] at he
    obtain ⟨hlength, xs, hxs, hbody⟩ := h.exists_custom
    have hargs : List.Forall₂ (Yields depth env) (args.map Expr.unrollPowers) xs := by
      rw [List.forall₂_map_left_iff]
      refine List.Forall₂.imp ?_ ((List.forall₂_and_left args xs).2 ⟨fun _ ha => ha, hxs⟩)
      intro a y h
      exact ihargs a h.1 h.2 (he.2 a h.1)
    rw [List.zip_map_right] at hbody
    rw [Expr.unrollPowers, Func.unrollPowers, unrollPowersList_eq_map]
    exact yields_custom hargs ((List.length_map ..).trans hlength) (ihbody hbody he.1)
  | comp inner outer args ih =>
    rw [allCompositions, Bool.and_eq_true, allCompositionsList_iff] at he
    have hcomm : (Func.comp inner.unrollPowers outer.unrollPowers).expand
        (args.map Expr.unrollPowers) =
          ((Func.comp inner outer).expand args).map Expr.unrollPowers :=
      Rewriting.expand_onFunc (h.keepsInner he.1) args
    rw [Yields, outcome_comp] at h
    obtain ⟨expanded, hexpanded, h⟩ := bind_eq_ok.1 h
    rw [Expr.unrollPowers, Func.unrollPowers, unrollPowersList_eq_map, Yields, outcome_comp, hcomm,
      hexpanded]
    exact ih expanded hexpanded h ((inherited_unrollsInStep bound).expand hexpanded he.1 he.2)

/-- Unrolling keeps the real value of an expression, whatever is bound. -/
theorem evaluate_unrollPowers {v : Value K} (he : e.unrollsInStep = true)
    (h : (e.evaluate .real).value env = .ok v) :
    (e.unrollPowers.evaluate .real).value env = .ok v := by
  rw [value_evaluate] at h ⊢
  obtain ⟨x, rfl⟩ := real_of_outcome h
  exact Yields.unrollPowers h he

/-- Powers in an argument and in the bodies of both functions of a composition. -/
noncomputable def composedPowers : Expr ℝ :=
  .apply (.comp (.custom "g" ["u"] (.power (.var "u") (.num (2 : ℕ))))
    (.custom "h" ["v"] (.power (.var "v") (.num (3 : ℕ))))) [.power (.num (2 : ℕ)) (.num (2 : ℕ))]

theorem evaluate_composedPowers :
    (composedPowers.evaluate .real).value .empty = .ok (.real 4096) := by
  rw [value_evaluate, composedPowers, outcome_comp]
  show (Expr.apply (.custom "h" ["v"] _) [.apply (.custom "g" ["u"] _) [_]]).outcome .real 1 _ = _
  simp [outcome_custom, outcome_power, outcome_var, outcome_num, Env.enter, Env.empty,
    Bindings.putAll, Value.toExpr, bind, Except.bind, pure, Except.pure, Value.asReal]
  show ((2 ^ (2 : ℝ)) ^ (2 : ℝ)) ^ (3 : ℝ) = (4096 : ℝ)
  norm_num

theorem evaluate_unrollPowers_composedPowers :
    composedPowers.unrollsInStep = true ∧
      (composedPowers.evaluate .real).value .empty = .ok (.real 4096) ∧
      (composedPowers.unrollPowers.evaluate .real).value .empty = .ok (.real 4096) := by
  have hstep : composedPowers.unrollsInStep = true := rfl
  exact ⟨hstep, evaluate_composedPowers, evaluate_unrollPowers hstep evaluate_composedPowers⟩

/-- What stands behind a function without components is not looked at, although it is the first
power of a vector. -/
noncomputable def unseenPower : Expr ℝ :=
  .apply (.comp (.custom "f" ["x"] (.power (.vec [.num 1, .num (2 : ℕ)]) (.num 1)))
    (.comp (.custom "g" ["u"] (.var "u"))
      (.comp (.custom "h" ["v"] (.vec [])) (.custom "c" [] (.num (5 : ℕ)))))) [.num 1]

theorem evaluate_unrollPowers_unseenPower :
    (unseenPower.evaluate .real).value .empty = .ok (.real 5) ∧
      (unseenPower.unrollPowers.evaluate .real).value .empty =
        .error (.dimensionMismatch 2 1) := by
  constructor
  · rw [value_evaluate, unseenPower, outcome_comp]
    show (Expr.apply (.custom "c" [] (.num ((5 : ℕ) : ℝ))) []).outcome .real 1 _ = _
    rw [outcome_custom, if_neg (by decide), Nat.cast_ofNat]
    exact outcome_num 5
  · have hfirst : (Expr.power (.vec [.num 1, .num ((2 : ℕ) : ℝ)]) (.num 1)).unrollPowers =
        .vec [.num 1, .num ((2 : ℕ) : ℝ)] := by
      rw [← Nat.cast_one]
      exact unrollPowers_power (by decide)
    rw [value_evaluate, unseenPower, Expr.unrollPowers, Func.unrollPowers, Func.unrollPowers,
      hfirst, outcome_comp]
    rfl

end Expr

end ZeroSet
