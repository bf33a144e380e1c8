import ZeroSet.Proofs.Nodewise
import ZeroSet.Expr.Powers

/-!
# Rewriting an expression adds no name

The names of a field are checked once, when a surface is built of it.  What is made of the field
afterwards mentions no other name: not its derivatives, in which bodies of functions have been
differentiated and compositions expanded, not what is left of these after simplifying, and not
the field with its powers unrolled.

* `Expr.Over` — the expressions over a set of names.
* `Expr.over_derivative` — the derivatives of an expression over a set are over it too.
* `Expr.over_simplify`, `Expr.over_unrollPowers` — the simplified and the unrolled expression.
-/

namespace ZeroSet

variable {K : Type} {S : String → Prop}

/-! ## Expressions over a set of names -/

/-- The expression mentions names of the set only. -/
def Expr.Over (S : String → Prop) (e : Expr K) : Prop := ∀ n ∈ e.freeNames, S n

/-- The function takes names of the set only from outside. -/
def Func.Over (S : String → Prop) (f : Func K) : Prop := ∀ n ∈ f.freeNames, S n

namespace Func

@[simp] theorem over_builtin (b : Builtin K) : (builtin b).Over S := by
  simp [Over, freeNames]

@[simp] theorem over_comp {inner outer : Func K} :
    (comp inner outer).Over S ↔ inner.Over S ∧ outer.Over S := by
  simp [Over, freeNames, or_imp, forall_and]

/-- Inside a function the parameters belong to the set as well. -/
@[simp] theorem over_custom {name : String} {params : List String} {body : Expr K} :
    (custom name params body).Over S ↔ body.Over fun n => n ∈ params ∨ S n := by
  simp only [Over, Expr.Over, mem_freeNames_custom, and_imp]
  exact forall₂_congr fun n _ => Classical.or_iff_not_imp_left.symm

end Func

namespace Expr

@[simp] theorem over_num (v : K) : (num v).Over S := by
  simp [Over, freeNames]

@[simp] theorem over_var {name : String} : (var name : Expr K).Over S ↔ S name := by
  simp [Over, freeNames]

@[simp] theorem over_vec {items : List (Expr K)} :
    (vec items).Over S ↔ ∀ e ∈ items, e.Over S := by
  simp only [Over, freeNames, mem_freeNamesList]
  constructor
  · intro h e he n hn
    exact h n ⟨e, he, hn⟩
  · rintro h n ⟨e, he, hn⟩
    exact h e he n hn

@[simp] theorem over_interval {lo hi : Expr K} :
    (interval lo hi).Over S ↔ lo.Over S ∧ hi.Over S := by
  simp [Over, freeNames, or_imp, forall_and]

@[simp] theorem over_neg {a : Expr K} : (neg a).Over S ↔ a.Over S := by
  simp [Over, freeNames]

@[simp] theorem over_binary {op : BinOp} {a b : Expr K} :
    (binary op a b).Over S ↔ a.Over S ∧ b.Over S := by
  simp [Over, freeNames, or_imp, forall_and]

@[simp] theorem over_power {a b : Expr K} : (power a b).Over S ↔ a.Over S ∧ b.Over S := by
  simp [Over, freeNames, or_imp, forall_and]

@[simp] theorem over_apply {f : Func K} {args : List (Expr K)} :
    (apply f args).Over S ↔ f.Over S ∧ ∀ a ∈ args, a.Over S := by
  rw [← over_vec]
  simp only [Over, Func.Over, freeNames, List.forall_mem_append]

@[simp] theorem over_product {a b : Expr K} : (a * b).Over S ↔ a.Over S ∧ b.Over S :=
  over_binary

end Expr

/-! ## Differentiating and simplifying -/

theorem nodewise_over : Nodewise (K := K) (Expr.Over S) (Func.Over S) where
  num := Expr.over_num
  vec hitems h := by
    rw [Expr.over_vec] at h ⊢
    intro d hd
    obtain ⟨e, he, hkeep⟩ := hitems d hd
    exact hkeep (h e he)
  interval := Expr.over_interval
  neg := Expr.over_neg
  binary := Expr.over_binary
  power := Expr.over_power
  apply := Expr.over_apply

theorem derivable_over [Scalar K] : Derivable (K := K) Expr.Over Func.Over where
  nodewise _ := nodewise_over
  inherited S := (hereditary_freeNames S).inherited
  builtin _ := Func.over_builtin
  custom hf _ hbody := Func.over_custom.2 (hbody _ (Func.over_custom.1 hf))

namespace Expr

variable [Scalar K] {a d e : Expr K}

/-- A derivative mentions no more names than the expression. -/
theorem over_derivative {name : String} (he : e.Over S) (h : e.derivative name = .ok d) :
    d.Over S := derivable_over.derivative he h

/-- A simplified expression mentions no more names than the expression. -/
theorem over_simplify (he : e.Over S) (h : e.simplify = .ok d) : d.Over S :=
  nodewise_over.simplify he h

/-! ## Unrolling powers -/

theorem over_repeatedProduct (ha : a.Over S) : ∀ n, (a.repeatedProduct n).Over S
  | 0 => over_num 1
  | 1 => ha
  | n + 2 => over_product.2 ⟨over_repeatedProduct ha (n + 1), ha⟩

end Expr

section

variable [Scalar K]

mutual

/-- Unrolling powers adds no name. -/
theorem Expr.over_unrollPowers : ∀ {e : Expr K} {S : String → Prop}, e.Over S →
    e.unrollPowers.Over S
  | .num v, S, h => h
  | .var name, S, h => h
  | .vec items, S, h => Expr.over_vec.2 (Expr.over_unrollPowersList (Expr.over_vec.1 h))
  | .interval lo hi, S, h => by
    obtain ⟨hlo, hhi⟩ := Expr.over_interval.1 h
    exact Expr.over_interval.2 ⟨Expr.over_unrollPowers hlo, Expr.over_unrollPowers hhi⟩
  | .neg a, S, h => Expr.over_neg.2 (Expr.over_unrollPowers (Expr.over_neg.1 h))
  | .binary op a b, S, h => by
    obtain ⟨ha, hb⟩ := Expr.over_binary.1 h
    exact Expr.over_binary.2 ⟨Expr.over_unrollPowers ha, Expr.over_unrollPowers hb⟩
  | .power a b, S, h => by
    obtain ⟨ha, hb⟩ := Expr.over_power.1 h
    have ha := Expr.over_unrollPowers ha
    rw [Expr.unrollPowers]
    split
    · exact Expr.over_repeatedProduct ha _
    · exact Expr.over_power.2 ⟨ha, Expr.over_unrollPowers hb⟩
  | .apply f args, S, h => by
    obtain ⟨hf, hargs⟩ := Expr.over_apply.1 h
    exact Expr.over_apply.2 ⟨Func.over_unrollPowers hf, Expr.over_unrollPowersList hargs⟩

/-- Unrolling the powers of a list of expressions adds no name. -/
theorem Expr.over_unrollPowersList : ∀ {es : List (Expr K)} {S : String → Prop},
    (∀ e ∈ es, e.Over S) → ∀ e ∈ Expr.unrollPowersList es, e.Over S
  | [], S, h => h
  | e :: es, S, h => by
    obtain ⟨he, hes⟩ := List.forall_mem_cons.1 h
    exact List.forall_mem_cons.2 ⟨Expr.over_unrollPowers he, Expr.over_unrollPowersList hes⟩

/-- Unrolling the powers in the bodies of a function adds no name. -/
theorem Func.over_unrollPowers : ∀ {f : Func K} {S : String → Prop}, f.Over S →
    f.unrollPowers.Over S
  | .custom name params body, S, h =>
    Func.over_custom.2 (Expr.over_unrollPowers (Func.over_custom.1 h))
  | .comp inner outer, S, h => by
    obtain ⟨hi, ho⟩ := Func.over_comp.1 h
    exact Func.over_comp.2 ⟨Func.over_unrollPowers hi, Func.over_unrollPowers ho⟩
  | .builtin b, S, h => h

end

end

end ZeroSet
