import ZeroSet.Proofs.Nodewise
import ZeroSet.Proofs.StoredForms

/-!
# Numbers that a pass puts into a tree

A pass of simplification folds a power or a built-in only if its value is finite, but it folds sums,
differences, products and quotients of two literals whatever their value is.  Where these stay
finite, finite literals stay finite, and a simplified tree can be stored and read back.

* `Expr.literals` — the number literals of an expression.
* `Treewise.numbers` — what holds of all numbers in a tree is a property of its nodes.
* `Expr.depth_encode_le` — simplifying makes no tree deeper.
* `Expr.simplify_finite` — literals stay finite, and the tree is read back.
-/

namespace ZeroSet

variable {K : Type}

/-! ## Literals -/

mutual

/-- The number literals in an expression, those in the bodies of applied functions included. -/
def Expr.literals : Expr K → List K
  | .num v => [v]
  | .var _ => []
  | .vec items => Expr.literalsList items
  | .interval lo hi => lo.literals ++ hi.literals
  | .neg a => a.literals
  | .binary _ a b => a.literals ++ b.literals
  | .power a b => a.literals ++ b.literals
  | .apply f args => f.literals ++ Expr.literalsList args

/-- The number literals in some expressions. -/
def Expr.literalsList : List (Expr K) → List K
  | [] => []
  | e :: es => e.literals ++ Expr.literalsList es

/-- The number literals in a function. -/
def Func.literals : Func K → List K
  | .custom _ _ body => body.literals
  | .comp inner outer => inner.literals ++ outer.literals
  | .builtin _ => []

end

theorem Expr.mem_literalsList {es : List (Expr K)} {x : K} :
    x ∈ literalsList es ↔ ∃ e ∈ es, x ∈ e.literals := by
  induction es with
  | nil => simp [literalsList]
  | cons e es ih => simp [literalsList, ih]

theorem Expr.mem_scalarsList {es : List (Expr K)} {x : K} :
    x ∈ scalarsList es ↔ ∃ e ∈ es, x ∈ e.scalars := by
  induction es with
  | nil => simp [scalarsList]
  | cons e es ih => simp [scalarsList, ih]

/-- What holds of all numbers in a tree holds of the numbers in its nodes, however the numbers of
functions are counted. -/
theorem Treewise.numbers {onExpr : Expr K → List K} {onFunc : Func K → List K} (p : K → Prop)
    (vec : ∀ items x, x ∈ onExpr (.vec items) ↔ ∃ e ∈ items, x ∈ onExpr e)
    (interval : ∀ lo hi, onExpr (.interval lo hi) = onExpr lo ++ onExpr hi)
    (neg : ∀ a, onExpr (.neg a) = onExpr a)
    (binary : ∀ op a b, onExpr (.binary op a b) = onExpr a ++ onExpr b)
    (power : ∀ a b, onExpr (.power a b) = onExpr a ++ onExpr b)
    (apply : ∀ f args x, x ∈ onExpr (.apply f args) ↔ x ∈ onFunc f ∨ ∃ a ∈ args, x ∈ onExpr a) :
    Treewise (fun e => ∀ x ∈ onExpr e, p x) fun f => ∀ x ∈ onFunc f, p x where
  vec hitems he x hx := by
    obtain ⟨d, hd, hx⟩ := (vec _ x).1 hx
    obtain ⟨e, he', hkept⟩ := hitems d hd
    exact hkept (fun y hy => he y ((vec _ y).2 ⟨e, he', hy⟩)) x hx
  interval := by simp only [interval, List.forall_mem_append, implies_true]
  neg := by simp only [neg, implies_true]
  binary := by simp only [binary, List.forall_mem_append, implies_true]
  power := by simp only [power, List.forall_mem_append, implies_true]
  apply := by
    intro f args
    constructor
    · intro h
      exact ⟨fun x hx => h x ((apply f args x).2 (.inl hx)),
        fun a ha x hx => h x ((apply f args x).2 (.inr ⟨a, ha, hx⟩))⟩
    · intro h x hx
      rcases (apply f args x).1 hx with hx | ⟨a, ha, hx⟩
      · exact h.1 x hx
      · exact h.2 a ha x hx

theorem treewise_literals (p : K → Prop) :
    Treewise (fun e => ∀ x ∈ e.literals, p x) fun f => ∀ x ∈ f.literals, p x :=
  .numbers p (fun _ _ => Expr.mem_literalsList) (fun _ _ => rfl) (fun _ => rfl) (fun _ _ _ => rfl)
    (fun _ _ => rfl) fun f args x => by
      rw [Expr.literals, List.mem_append, Expr.mem_literalsList]

theorem treewise_scalars (p : K → Prop) :
    Treewise (fun e => ∀ x ∈ e.scalars, p x) fun f => ∀ x ∈ f.scalars, p x :=
  .numbers p (fun _ _ => Expr.mem_scalarsList) (fun _ _ => rfl) (fun _ => rfl) (fun _ _ _ => rfl)
    (fun _ _ => rfl) fun f args x => by rw [Expr.scalars, List.mem_append, Expr.mem_scalarsList]

/-! ## Depth -/

namespace Expr

variable [Decimal K]

theorem depth_num (v : K) : (num v).encode.depth = 1 := by
  have hscalar : (Json.ofScalar v).depth = 0 := by
    rw [Json.ofScalar]
    split <;> rfl
  rw [encode, Json.depth_choice, hscalar]

theorem depth_neg (a : Expr K) : (neg a).encode.depth = a.encode.depth + 2 := by
  rw [encode, Json.depth_choice, Json.depth_record_singleton]

theorem depth_binary (op : BinOp) (a b : Expr K) :
    (binary op a b).encode.depth = max a.encode.depth b.encode.depth + 2 := by
  rw [encode, Json.depth_choice, Json.depth_record_pair]

theorem depth_power (a b : Expr K) :
    (power a b).encode.depth = max a.encode.depth b.encode.depth + 2 := by
  rw [encode, Json.depth_choice, Json.depth_record_pair]

theorem depth_interval (a b : Expr K) :
    (interval a b).encode.depth = max a.encode.depth b.encode.depth + 2 := by
  rw [encode, Json.depth_choice, Json.depth_record_pair]

theorem depth_vec (items : List (Expr K)) :
    (vec items).encode.depth = Json.depthItems (encodeList items) + 2 := by
  rw [encode, Json.depth_choice, Json.depth_array]

theorem depth_apply (f : Func K) (args : List (Expr K)) :
    (apply f args).encode.depth =
      max f.encode.depth (Json.depthItems (encodeList args) + 1) + 2 := by
  rw [encode, Json.depth_choice, Json.depth_record_pair, Json.depth_array]

theorem depth_builtin (f : Builtin K) (a : Expr K) :
    a.encode.depth + 3 ≤ (apply (.builtin f) [a]).encode.depth := by
  rw [depth_apply, encodeList, encodeList, Json.depthItems, Json.depthItems]
  omega

theorem depthItems_le {es ds : List (Expr K)}
    (h : List.Forall₂ (fun e d => d.encode.depth ≤ e.encode.depth) es ds) :
    Json.depthItems (encodeList ds) ≤ Json.depthItems (encodeList es) := by
  induction h with
  | nil => exact Nat.le_refl _
  | cons hd _ ih =>
    simp only [encodeList, Json.depthItems]
    omega

variable [Scalar K]

/-- What a rule makes of a node is no deeper than the node. -/
theorem depth_le_of_step {e d : Expr K} (h : Rule.Step e d) :
    d.encode.depth ≤ e.encode.depth := by
  induction h with
  | unchanged => exact Nat.le_refl _
  | zero_sub _ _ ih =>
    rw [depth_neg] at ih
    rw [depth_binary]
    omega
  | foldedBuiltin =>
    rename_i f x _ _
    have := depth_builtin f (num x)
    rw [depth_num] at this ⊢
    omega
  | exp_ln a =>
    have hln := depth_builtin .ln a
    have hexp := depth_builtin .exp (ln a)
    simp only [exp, ln] at hln hexp ⊢
    omega
  | ln_exp a =>
    have hexp := depth_builtin .exp a
    have hln := depth_builtin .ln (exp a)
    simp only [exp, ln] at hln hexp ⊢
    omega
  | exp_mul_ln a b =>
    have hln := depth_builtin .ln a
    have hexp := depth_builtin .exp (binary .mul b (ln a))
    simp only [exp, ln, depth_binary, depth_power] at hln hexp ⊢
    omega
  | exp_ln_mul a b =>
    have hln := depth_builtin .ln a
    have hexp := depth_builtin .exp (binary .mul (ln a) b)
    simp only [exp, ln, depth_binary, depth_power] at hln hexp ⊢
    omega
  | _ =>
    simp only [depth_num, depth_neg, depth_binary, depth_power]
    omega

/-- Simplifying makes no tree deeper. -/
theorem depth_encode_le {e d : Expr K} (h : e.simplify = .ok d) :
    d.encode.depth ≤ e.encode.depth := by
  refine simplifyInduction (R := fun e d => d.encode.depth ≤ e.encode.depth)
    (fun _ => Nat.le_refl _) (fun _ => Nat.le_refl _) (fun hitems => ?_) (fun hlo hhi => ?_)
    (fun _ ha hstep => ?_) (fun _ _ ha hb hstep => ?_) (fun _ _ ha hb hstep => ?_)
    (fun hargs hstep => ?_) h
  · rw [depth_vec, depth_vec]
    exact Nat.add_le_add_right (depthItems_le hitems) 2
  · rw [depth_interval, depth_interval]
    omega
  · refine (depth_le_of_step hstep).trans ?_
    rw [depth_neg, depth_neg]
    omega
  · refine (depth_le_of_step hstep).trans ?_
    rw [depth_binary, depth_binary]
    omega
  · refine (depth_le_of_step hstep).trans ?_
    rw [depth_power, depth_power]
    omega
  · refine (depth_le_of_step hstep).trans ?_
    have := depthItems_le hargs
    rw [depth_apply, depth_apply]
    omega

end Expr

/-! ## Finite numbers -/

section

variable [Scalar K] {e d : Expr K}

/-- The value of any two literals that the pass folds under an operator is finite. -/
def Expr.FoldsFinitely (e : Expr K) : Prop := e.FoldsInto fun v => Scalar.isFinite v = true

/-- A property of finite numbers is kept where folding stays finite. -/
theorem Treewise.isFinite_of_simplify {onExpr : Expr K → List K} {onFunc : Func K → List K}
    (H : Treewise (fun e => ∀ x ∈ onExpr e, Scalar.isFinite x = true)
      fun f => ∀ x ∈ onFunc f, Scalar.isFinite x = true)
    (num : ∀ v, onExpr (.num v) = [v]) (hzero : Scalar.isFinite (0 : K) = true)
    (hone : Scalar.isFinite (1 : K) = true) (hfolds : e.FoldsFinitely)
    (he : ∀ x ∈ onExpr e, Scalar.isFinite x = true) (h : e.simplify = .ok d) :
    ∀ x ∈ onExpr d, Scalar.isFinite x = true := by
  have hnum : ∀ v, Scalar.isFinite v = true → ∀ x ∈ onExpr (.num v), Scalar.isFinite x = true := by
    intro v hv
    rw [num]
    exact List.forall_mem_singleton.2 hv
  refine H.simplify (fun v hv => hnum v ?_) hnum hfolds he h
  rcases hv with rfl | rfl | hv
  · exact hzero
  · exact hone
  · exact hv

end

namespace Expr

/-- If the pass folds no sum, difference, product or quotient of literals into a value that is not
finite, then finite literals stay finite; and if the parameters of built-ins are finite as well,
then the simplified tree is written and read back, unless the tree was nested too deeply before. -/
theorem simplify_finite {e d : Expr Float} (hfolds : e.FoldsFinitely) (h : e.simplify = .ok d) :
    ((∀ x ∈ e.literals, Scalar.isFinite x = true) → ∀ x ∈ d.literals, Scalar.isFinite x = true) ∧
    ((∀ x ∈ e.scalars, Scalar.isFinite x = true) → (∀ x ∈ d.scalars, Json.Faithful x) →
      e.encode.depth ≤ Stored.maxDepth → Stored.read? (Stored.write d) = some d) := by
  have hzero : Scalar.isFinite (0 : Float) = true := by decide +kernel
  have hone : Scalar.isFinite (1 : Float) = true := by decide +kernel
  refine ⟨fun he => ?_, fun he hfaithful hdepth => ?_⟩
  · exact (treewise_literals _).isFinite_of_simplify (fun _ => rfl) hzero hone hfolds he h
  · have hfinite : ∀ x ∈ d.scalars, Scalar.isFinite x = true :=
      (treewise_scalars _).isFinite_of_simplify (fun _ => rfl) hzero hone hfolds he h
    rw [Stored.read?_write_of_isWritten (d.isWritten_encode fun x hx => (hfaithful x hx).isWritten)]
    exact d.decode_encode Stored.maxDepth
      (fun x hx => (hfaithful x hx).asScalar?_ofScalar (hfinite x hx))
      ((depth_encode_le h).trans hdepth)

/-- The product `(2 - 0.5) * exp(ln(x))`. -/
def halvesOfX : Expr Float := (num 2 - num 0.5) * exp (ln (var "x"))

/-- It is simplified to `1.5 * x`, which is read back. -/
theorem simplify_finite_halvesOfX :
    halvesOfX.FoldsFinitely ∧ halvesOfX.simplify = .ok (num (2 - 0.5) * var "x") ∧
      (∀ x ∈ (num (2 - 0.5) * var "x" : Expr Float).literals, Scalar.isFinite x = true) ∧
      Stored.read? (Stored.write (num (2 - 0.5) * var "x" : Expr Float)) =
        some (num (2 - 0.5) * var "x" : Expr Float) := by
  have hfolds : halvesOfX.FoldsFinitely := by
    refine .binary (.binary (.num _) (.num _) ?_) (.apply ?_) ?_
    · rintro x y v hx hy hv
      cases hx
      cases hy
      cases hv
      decide +kernel
    · refine List.forall_mem_singleton.2 (.apply (List.forall_mem_singleton.2 (.var "x")))
    · intro x y v _ hy
      cases hy
  have hsimplify : halvesOfX.simplify = .ok (num (2 - 0.5) * var "x") := by
    have hzero : ((2 : Float) - 0.5 == 0) = false := by decide +kernel
    have hone : ((2 : Float) - 0.5 == 1) = false := by decide +kernel
    show Except.ok (Rule.mul (num (2 - 0.5)) (var "x")) = _
    simp only [Rule.mul, isNumber, hzero, hone]
    rfl
  obtain ⟨hliterals, hstored⟩ := simplify_finite hfolds hsimplify
  have hnumbers : ∀ x ∈ (num (2 - 0.5) * var "x" : Expr Float).scalars, Json.Faithful x ∧
      Scalar.isFinite x = true := faithful_of_isFinite (by decide +kernel)
  exact ⟨hfolds, hsimplify, hliterals (by decide +kernel),
    hstored (by decide +kernel) (fun x hx => (hnumbers x hx).1) (by decide +kernel)⟩

/-- The sum of two large literals is folded into an infinity, and the tree is not read back. -/
theorem simplify_overflows :
    (∀ x ∈ (num 1e308 + num 1e308 : Expr Float).literals, Scalar.isFinite x = true) ∧
      (num 1e308 + num 1e308 : Expr Float).simplify = .ok (num (1e308 + 1e308)) ∧
      Scalar.isFinite (1e308 + 1e308 : Float) = false ∧
      (Stored.read? (Stored.write (num (1e308 + 1e308) : Expr Float)) : Option (Expr Float)) =
        none := by
  have hnull : Json.ofScalar (1e308 + 1e308 : Float) = .null := by
    have hinfinite : (1e308 + 1e308 : Float) = 1 / 0 := by decide +kernel
    rw [hinfinite]
    rfl
  refine ⟨by decide +kernel, rfl, by decide +kernel, ?_⟩
  rw [Stored.read?_write_of_isWritten]
  · exact decode_eq_none _ _ ⟨_, List.mem_singleton_self _, hnull⟩
  · refine isWritten_encode _ (List.forall_mem_singleton.2 ?_)
    rw [hnull]
    exact .null

end Expr

end ZeroSet
