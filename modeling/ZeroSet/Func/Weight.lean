import ZeroSet.Func.Basic

/-!
# A measure that expanding decreases

Evaluating and differentiating an application of a composition go on with its expansion,
which is a larger tree: the arguments are repeated for every component of the inner
function.  `Expr.weight` is a measure that takes this into account.  The weight of an
application grows with the weight of its arguments as the function dictates, and a
composition weighs more than what it expands to (`weight_expand_lt`).
-/

namespace ZeroSet

variable {K : Type}

mutual

/-- The weight of an expression. -/
def Expr.weight : Expr K → Nat
  | .num _ => 1
  | .var _ => 1
  | .vec items => 1 + Expr.weightList items
  | .interval lo hi => 1 + lo.weight + hi.weight
  | .neg a => 1 + a.weight
  | .binary _ a b => 1 + a.weight + b.weight
  | .power a b => 1 + a.weight + b.weight
  | .apply f args => f.weight (Expr.weightList args)

/-- The sum of the weights in a list. -/
def Expr.weightList : List (Expr K) → Nat
  | [] => 0
  | e :: es => e.weight + Expr.weightList es

/-- The weight of an application to arguments of weight `n` in all. -/
def Func.weight : Func K → Nat → Nat
  | .custom _ _ body, n => 1 + body.weight + n
  | .comp inner outer, n => 1 + outer.weight (inner.dim * inner.weight n)
  | .builtin _, n => 1 + n

end

theorem Func.weight_pos (f : Func K) (n : Nat) : 0 < f.weight n := by
  cases f <;> simp only [Func.weight] <;> omega

theorem Expr.weight_pos (e : Expr K) : 0 < e.weight := by
  cases e with
  | apply f args => simpa only [Expr.weight] using f.weight_pos _
  | _ =>
    simp only [Expr.weight]
    omega

theorem Func.weight_mono : ∀ (f : Func K) {m n : Nat}, m ≤ n → f.weight m ≤ f.weight n
  | .custom _ _ _, _, _, h => by simp only [Func.weight]; omega
  | .builtin _, _, _, h => by simp only [Func.weight]; omega
  | .comp inner outer, m, n, h => by
    have := outer.weight_mono (Nat.mul_le_mul_left inner.dim (inner.weight_mono h))
    simp only [Func.weight]
    omega

theorem Expr.weight_le_weightList {e : Expr K} {es : List (Expr K)} (h : e ∈ es) :
    e.weight ≤ Expr.weightList es := by
  induction es with
  | nil => cases h
  | cons a as ih =>
    simp only [Expr.weightList]
    rcases List.mem_cons.1 h with rfl | h
    · omega
    · have := ih h
      omega

theorem Expr.weight_le_of_items {body item : Expr K} {items : List (Expr K)}
    (h : body.items? = some items) (hitem : item ∈ items) : item.weight ≤ body.weight := by
  cases body with
  | vec es =>
    cases h
    have := Expr.weight_le_weightList hitem
    simp only [Expr.weight]
    omega
  | _ => cases h

/-- A component weighs no more than the function it is a component of. -/
theorem Func.weight_component : ∀ (f : Func K) {index : Nat} {g : Func K},
    f.component index = .ok g → ∀ n, g.weight n ≤ f.weight n
  | .comp inner outer, index, g, h, n => by
    simp only [component, bind, Except.bind] at h
    split at h
    · cases h
    · rename_i outer' houter
      cases h
      have := outer.weight_component houter (inner.dim * inner.weight n)
      simp only [Func.weight]
      omega
  | .builtin b, index, g, h, n => by
    simp only [component] at h
    split at h
    · cases h; exact Nat.le_refl _
    · cases h
  | .custom name params body, index, g, h, n => by
    simp only [component] at h
    split at h
    · rename_i items hitems
      split at h
      · rename_i item hitem
        cases h
        have := Expr.weight_le_of_items hitems (List.mem_of_getElem? hitem)
        simp only [Func.weight]
        omega
      · cases h
    · split at h
      · cases h; exact Nat.le_refl _
      · cases h

/-- A list built step by step from elements of bounded weight has bounded weight. -/
theorem Expr.weightList_mapM_le {step : Nat → Except (EvalError K) (Expr K)} {bound : Nat}
    (hstep : ∀ i e, step i = .ok e → e.weight ≤ bound) :
    ∀ {indices : List Nat} {es : List (Expr K)}, indices.mapM step = .ok es →
      Expr.weightList es ≤ indices.length * bound
  | [], es, h => by
    simp only [List.mapM_nil, pure, Except.pure] at h
    cases h
    simp [Expr.weightList]
  | i :: is, es, h => by
    rw [List.mapM_cons] at h
    simp only [bind, Except.bind, pure, Except.pure] at h
    split at h
    · cases h
    · rename_i e he
      split at h
      · cases h
      · rename_i rest hrest
        cases h
        have h₁ := hstep i e he
        have h₂ := Expr.weightList_mapM_le hstep hrest
        simp only [Expr.weightList, List.length_cons, Nat.add_mul, Nat.one_mul]
        omega

variable [Scalar K]

theorem Func.eq_apply_of_apply {f : Func K} {args : List (Expr K)} {e : Expr K}
    (h : f.apply args = .ok e) : e = .apply f args := by
  unfold Func.apply at h
  split at h
  · cases h
  · split at h
    · simp only [bind, Except.bind, pure, Except.pure] at h
      split at h
      · cases h
      · cases h; rfl
    · cases h; rfl

theorem Func.weightList_applyComponents_le {f : Func K} {args es : List (Expr K)}
    (h : f.applyComponents args = .ok es) :
    Expr.weightList es ≤ f.dim * f.weight (Expr.weightList args) := by
  have hstep : ∀ i e, (do let g ← f.component i; g.apply args) = Except.ok e →
      e.weight ≤ f.weight (Expr.weightList args) := by
    intro i e he
    simp only [bind, Except.bind] at he
    split at he
    · cases he
    · rename_i g hg
      rw [Func.eq_apply_of_apply he]
      exact f.weight_component hg _
  simpa using Expr.weightList_mapM_le hstep h

/-- An expansion weighs no more than the application it expands. -/
theorem Func.weight_expand_le : ∀ (f : Func K) {args : List (Expr K)} {e : Expr K},
    f.expand args = .ok e → e.weight ≤ f.weight (Expr.weightList args)
  | .comp inner outer, args, e, h => by
    simp only [expand, bind, Except.bind] at h
    split at h
    · cases h
    · rename_i mid hmid
      have h₁ := outer.weight_expand_le h
      have h₂ := outer.weight_mono (inner.weightList_applyComponents_le hmid)
      simp only [Func.weight]
      omega
  | .builtin b, args, e, h => by
    cases Func.eq_apply_of_apply h
    exact Nat.le_refl _
  | .custom name params body, args, e, h => by
    cases Func.eq_apply_of_apply h
    exact Nat.le_refl _

/-- Expanding a composition makes an application lighter. -/
theorem Func.weight_expand_lt {inner outer : Func K} {args : List (Expr K)} {e : Expr K}
    (h : (Func.comp inner outer).expand args = .ok e) :
    e.weight < (Expr.apply (.comp inner outer) args).weight := by
  simp only [expand, bind, Except.bind] at h
  split at h
  · cases h
  · rename_i mid hmid
    have h₁ := outer.weight_expand_le h
    have h₂ := outer.weight_mono (inner.weightList_applyComponents_le hmid)
    simp only [Expr.weight, Func.weight]
    omega

end ZeroSet
