import ZeroSet.Proofs.FreeNames
import ZeroSet.Scalar.Binary64

/-!
# Simplifying makes progress

Every rule of simplification that changes a node leaves fewer nodes than it found, also where it
builds a node of its own: `a + -b` becomes `a - b` and `exp(b * ln(a))` becomes `a ^ b`.  A pass
therefore either returns the tree it was given or a smaller one, and repeated passes come to rest.

* `Expr.ReducesTo` — what a tree may become: itself or a smaller tree.
* `Expr.ReducesTo.step` — what one rule makes of a node.
* `Expr.simplifyRounds` — repeated passes.
* `Expr.simplify_progresses` — a pass makes progress or nothing at all, mentions no new name, fails
  only on a division by zero, and after as many rounds as there are nodes nothing is left to do.
-/

namespace ZeroSet

variable {K : Type}

namespace Expr

/-! ## Smaller trees -/

/-- The second tree is the first one, node for node, or has fewer nodes. -/
def ReducesTo (e d : Expr K) : Prop := d = e ∨ d.size < e.size

theorem size_pos (e : Expr K) : 0 < e.size := by
  cases e with
  | num _ => exact Nat.one_pos
  | var _ => exact Nat.one_pos
  | _ =>
    rw [size]
    omega

namespace ReducesTo

variable {a a' b b' d e f : Expr K}

theorem refl (e : Expr K) : e.ReducesTo e := .inl rfl

theorem size_le (h : e.ReducesTo d) : d.size ≤ e.size := by
  rcases h with rfl | h
  · exact Nat.le_refl _
  · exact h.le

theorem trans (hed : e.ReducesTo d) (hdf : d.ReducesTo f) : e.ReducesTo f := by
  rcases hdf with rfl | hdf
  · exact hed
  · exact .inr (hdf.trans_le hed.size_le)

theorem neg (ha : a.ReducesTo a') : (Expr.neg a).ReducesTo (.neg a') := by
  rcases ha with rfl | ha
  · exact refl _
  · refine .inr ?_
    rw [size, size]
    omega

theorem interval (ha : a.ReducesTo a') (hb : b.ReducesTo b') :
    (Expr.interval a b).ReducesTo (.interval a' b') := by
  have hale := ha.size_le
  have hble := hb.size_le
  rcases ha with rfl | ha
  · rcases hb with rfl | hb
    · exact refl _
    · refine .inr ?_
      rw [size, size]
      omega
  · refine .inr ?_
    rw [size, size]
    omega

theorem binary {op : BinOp} (ha : a.ReducesTo a') (hb : b.ReducesTo b') :
    (Expr.binary op a b).ReducesTo (.binary op a' b') := by
  rcases interval ha hb with h | h
  · obtain ⟨rfl, rfl⟩ := Expr.interval.inj h
    exact refl _
  · exact .inr h

theorem power (ha : a.ReducesTo a') (hb : b.ReducesTo b') :
    (Expr.power a b).ReducesTo (.power a' b') := by
  rcases interval ha hb with h | h
  · obtain ⟨rfl, rfl⟩ := Expr.interval.inj h
    exact refl _
  · exact .inr h

/-- Trees that are reduced one by one are all what they were, or there are fewer nodes in all. -/
theorem list {es ds : List (Expr K)} (h : List.Forall₂ ReducesTo es ds) :
    ds = es ∨ sizeList ds < sizeList es := by
  induction h with
  | nil => exact .inl rfl
  | cons hd _ ih =>
    have hle := hd.size_le
    rcases ih with rfl | ih
    · rcases hd with rfl | hd
      · exact .inl rfl
      · refine .inr ?_
        rw [sizeList, sizeList]
        omega
    · refine .inr ?_
      rw [sizeList, sizeList]
      omega

theorem vec {es ds : List (Expr K)} (h : List.Forall₂ ReducesTo es ds) :
    (Expr.vec es).ReducesTo (.vec ds) := by
  rcases list h with rfl | h
  · exact refl _
  · refine .inr ?_
    rw [size, size]
    omega

theorem apply {f : Func K} {es ds : List (Expr K)} (h : List.Forall₂ ReducesTo es ds) :
    (Expr.apply f es).ReducesTo (.apply f ds) := by
  rcases list h with rfl | h
  · exact refl _
  · refine .inr ?_
    rw [size, size]
    omega

/-- Every rule of simplification that changes the node costs a node. -/
theorem step [Scalar K] (h : Rule.Step e d) : e.ReducesTo d := by
  induction h with
  | unchanged => exact refl _
  | zero_sub _ _ ih =>
    -- the sign costs one node, and the minuend goes
    have hle := ih.size_le
    refine .inr ?_
    simp only [size] at hle ⊢
    omega
  | sub_self =>
    rename_i a b _ _
    have := a.size_pos
    refine .inr ?_
    simp only [size]
    omega
  | _ =>
    refine .inr ?_
    simp only [Expr.exp, Expr.ln, size, sizeList]
    omega

end ReducesTo

/-! ## A pass -/

variable [Scalar K]

/-- A pass returns the tree it was given or one with fewer nodes. -/
theorem reducesTo_of_simplify {e d : Expr K} (h : e.simplify = .ok d) : e.ReducesTo d :=
  simplifyInduction (fun _ => .refl _) (fun _ => .refl _) .vec .interval
    (fun _ ha hstep => ha.neg.trans (.step hstep))
    (fun _ _ ha hb hstep => (ha.binary hb).trans (.step hstep))
    (fun _ _ ha hb hstep => (ha.power hb).trans (.step hstep))
    (fun hargs hstep => (ReducesTo.apply hargs).trans (.step hstep)) h

/-- A pass fails only on a division by a literal zero. -/
theorem eq_divisionByZero_of_simplify {e : Expr K} {err : EvalError K}
    (h : e.simplify = .error err) : err = .divisionByZero := by
  have hlist : ∀ {es : List (Expr K)}, (∀ a ∈ es, a.simplify = .error err → err = .divisionByZero) →
      simplifyList es = .error err → err = .divisionByZero := by
    intro es hes h
    rw [simplifyList_eq_mapM] at h
    obtain ⟨a, ha, h⟩ := exists_error_of_mapM h
    exact hes a ha h
  induction e using treeInduction with
  | num v => cases h
  | var name => cases h
  | vec items ih =>
    rcases bind_eq_error.1 h with h | ⟨_, _, h⟩
    · exact hlist ih h
    · cases h
  | interval lo hi ihlo ihhi =>
    rcases bind_eq_error.1 h with h | ⟨_, _, h⟩
    · exact ihlo h
    · rcases bind_eq_error.1 h with h | ⟨_, _, h⟩
      · exact ihhi h
      · cases h
  | neg a ih =>
    rcases bind_eq_error.1 h with h | ⟨_, _, h⟩
    · exact ih h
    · cases h
  | binary op a b iha ihb =>
    rcases bind_eq_error.1 h with h | ⟨_, _, h⟩
    · exact iha h
    · rcases bind_eq_error.1 h with h | ⟨_, _, h⟩
      · exact ihb h
      · exact Rule.eq_divisionByZero_of_binary h
  | power a b iha ihb =>
    rcases bind_eq_error.1 h with h | ⟨_, _, h⟩
    · exact iha h
    · rcases bind_eq_error.1 h with h | ⟨_, _, h⟩
      · exact ihb h
      · cases h
  | apply f args ih =>
    rcases bind_eq_error.1 h with h | ⟨_, _, h⟩
    · exact hlist ih h
    · cases h

/-! ## Repeated passes -/

/-- The expression after a number of passes, one on what the other returned. -/
def simplifyRounds : Nat → Expr K → Except (EvalError K) (Expr K)
  | 0, e => .ok e
  | n + 1, e => e.simplify >>= simplifyRounds n

theorem simplifyRounds_of_fixed {d : Expr K} (h : d.simplify = .ok d) (n : Nat) :
    d.simplifyRounds n = .ok d := by
  induction n with
  | zero => rfl
  | succ n ih =>
    rw [simplifyRounds, h]
    exact ih

/-- Each round that changes the tree costs a node. -/
theorem simplifyRounds_ends {n : Nat} {e : Expr K} (h : e.size ≤ n) :
    e.simplifyRounds n = .error .divisionByZero ∨
      ∃ d, e.simplifyRounds n = .ok d ∧ d.simplify = .ok d := by
  induction n generalizing e with
  | zero => exact absurd (h.trans_lt e.size_pos) (lt_irrefl _)
  | succ n ih =>
    cases hsimplify : e.simplify with
    | error err =>
      cases eq_divisionByZero_of_simplify hsimplify
      refine .inl ?_
      rw [simplifyRounds, hsimplify]
      rfl
    | ok d =>
      rcases reducesTo_of_simplify hsimplify with rfl | hlt
      · exact .inr ⟨d, simplifyRounds_of_fixed hsimplify _, hsimplify⟩
      · have := ih (e := d) (by omega)
        rw [simplifyRounds, hsimplify]
        exact this

/-- A pass returns the tree it was given, node for node, or one with fewer nodes; it puts no name
into the tree that was not free there; it fails only on a division by zero.  Repeated passes
therefore meet a division by zero or come to rest, within as many rounds as the tree has nodes. -/
theorem simplify_progresses (e : Expr K) :
    (∀ d, e.simplify = .ok d →
      (d = e ∨ d.size < e.size) ∧ ∀ name ∈ d.freeNames, name ∈ e.freeNames) ∧
    (∀ err, e.simplify = .error err → err = .divisionByZero) ∧
    ∀ n, e.size ≤ n → e.simplifyRounds n = .error .divisionByZero ∨
      ∃ d, e.simplifyRounds n = .ok d ∧ d.simplify = .ok d :=
  ⟨fun _ h => ⟨reducesTo_of_simplify h, over_simplify (fun _ hname => hname) h⟩,
    fun _ h => eq_divisionByZero_of_simplify h, fun _ h => simplifyRounds_ends h⟩

/-- The exponential `exp(y * ln(x - -z))`. -/
def disguisedPower : Expr Float := exp (var "y" * ln (var "x" - -var "z"))

/-- One pass turns it into `(x + z) ^ y`, with five of its eight nodes. -/
theorem simplify_progresses_disguisedPower :
    disguisedPower.simplify = .ok (power (var "x" + var "z") (var "y")) ∧
      (power (var "x" + var "z") (var "y") : Expr Float).size < disguisedPower.size ∧
      "z" ∈ disguisedPower.freeNames ∧
      (disguisedPower.simplifyRounds 8 = .error .divisionByZero ∨
        ∃ d, disguisedPower.simplifyRounds 8 = .ok d ∧ d.simplify = .ok d) := by
  have hpass : disguisedPower.simplify = .ok (power (var "x" + var "z") (var "y")) := rfl
  obtain ⟨hprogress, -, hrounds⟩ := simplify_progresses disguisedPower
  obtain ⟨hshrinks, hnames⟩ := hprogress _ hpass
  exact ⟨hpass, hshrinks.resolve_left (by rintro ⟨⟩), hnames "z" (by decide), hrounds 8 (by decide)⟩

end Expr

end ZeroSet
