import ZeroSet.Proofs.UnrolledPowers
import ZeroSet.Proofs.SurvivingLeaves

/-!
# Rational fields

Fields that are made of numbers, coordinates, the four operations and powers with literal natural
exponents.  No function is applied in them, so no coordinate is captured, and unrolling their
powers leaves their values alone.  The root of such a field at a point of a ray is therefore a root
of what the search along the ray goes over, and it cannot be overlooked.

* `Expr.IsRational` — the fields.
* `Surface.value_intervalForm` — along a ray the searched field has the value at the point.
* `Surface.Built.lo_le_root` — a root yields a leaf that does not start behind it.
-/

namespace ZeroSet

/-! ## Rational expressions -/

namespace Expr

/-- Numbers, coordinates, the four operations and powers with literal natural exponents that are
small enough to be unrolled. -/
inductive IsRational {K : Type} [ExactScalar K] : Expr K → Prop
  /-- A number. -/
  | num (value : K) : IsRational (.num value)
  /-- A coordinate. -/
  | coordinate (axis : Axis) : IsRational (.var axis.name)
  /-- A negated expression. -/
  | neg {a : Expr K} (ha : IsRational a) : IsRational (.neg a)
  /-- A sum, a difference, a product or a quotient. -/
  | binary (op : BinOp) {a b : Expr K} (ha : IsRational a) (hb : IsRational b) :
    IsRational (.binary op a b)
  /-- A power. -/
  | power {a : Expr K} (ha : IsRational a) {n : ℕ} (hn : n ≤ maxUnrolledPower) :
    IsRational (.power a (.num n))

section

variable {K : Type} [ExactScalar K] {e : Expr K}

/-- No other names are mentioned than those of coordinates. -/
theorem IsRational.mem_names_of_mem_freeNames (h : e.IsRational) {name : String}
    (hname : name ∈ e.freeNames) : name ∈ Axis.names := by
  induction h with
  | num _ => cases hname
  | coordinate axis =>
    rw [freeNames, List.mem_singleton] at hname
    rw [hname]
    cases axis <;> decide
  | neg _ ih => exact ih hname
  | binary _ _ _ iha ihb => exact (List.mem_append.1 hname).elim iha ihb
  | power _ _ ih =>
    rcases List.mem_append.1 hname with hname | hname
    · exact ih hname
    · cases hname

/-- Where no function is applied, nothing is captured. -/
theorem IsRational.uncaptured (h : e.IsRational) : e.uncaptured [] = true := by
  induction h with
  | num _ => rfl
  | coordinate _ => simp [Expr.uncaptured]
  | neg _ ih => exact ih
  | binary _ _ _ iha ihb => exact Bool.and_eq_true_iff.2 ⟨iha, ihb⟩
  | power _ _ ih => exact Bool.and_eq_true_iff.2 ⟨ih, rfl⟩

/-- No composition is applied. -/
theorem IsRational.unrollsInStep (h : e.IsRational) : e.unrollsInStep = true := by
  induction h with
  | num _ => rfl
  | coordinate _ => rfl
  | neg _ ih => exact ih
  | binary _ _ _ iha ihb => exact Bool.and_eq_true_iff.2 ⟨iha, ihb⟩
  | power _ _ ih => exact Bool.and_eq_true_iff.2 ⟨ih, rfl⟩

end

end Expr

/-! ## Roots along rays -/

namespace Surface

section

variable {K : Type} [ExactScalar K]

/-- With the distance for the ray parameter, the environment along a ray is that of the point. -/
theorem onRay_alongRay (ray : Ray K) (t : K) :
    Env.OnRay ray t [] ((alongRay ray).enter [(rayParameter, .num t)])
      (atPoint (ray.pointAt t)) where
  resolving_along := rfl
  resolving_point := rfl
  params _ hname := by cases hname
  coordinate axis _ := by cases axis <;> exact ⟨rfl, rfl⟩
  parameter _ := rfl

end

variable {K : Type} [PowerScalar K] {s : Surface K} {ray : Ray K} {best t x : K}

/-- Where a rational field has a value at a point of a ray, what is searched along the ray has the
same value at that distance. -/
theorem Built.value_intervalForm (hs : s.Built) (hfield : s.field.IsRational)
    (h : s.valueAt (ray.pointAt t) = .ok x) :
    s.intervalForm.evaluateReal.value ((alongRay ray).enter [(rayParameter, .num t)]) = .ok x := by
  have hpoint : s.field.Yields 4 (atPoint (ray.pointAt t)) x := Expr.evaluateReal_eq_ok.1 h
  have halong : s.field.Yields 5 ((alongRay ray).enter [(rayParameter, .num t)]) x :=
    (Expr.outcome_onRay (d := 3) (k := 3) (onRay_alongRay ray t)
      (fun _ hname => .inr (hfield.mem_names_of_mem_freeNames hname))
      hfield.uncaptured).trans hpoint
  rw [hs.intervalForm]
  exact Expr.evaluateReal_eq_ok.2 (halong.unrollPowers hfield.unrollsInStep)

/-- A root of a rational field at a point of a ray that is not passed over yields a leaf along the
ray that does not start behind the root. -/
theorem Built.lo_le_root (hs : s.Built) (hfield : s.field.IsRational) {leaf? : Option (Interval K)}
    (h : s.findLeaf ray best = .ok leaf?)
    (hnear : s.settings.epsilon + s.settings.rootTolerance ≤ t) (hbest : t ≤ best)
    (hmax : t ≤ s.settings.maxDistance) (hroot : s.valueAt (ray.pointAt t) = .ok 0) :
    ∃ leaf, leaf? = some leaf ∧ leaf.lo ≤ t := by
  obtain ⟨⟨_, effort⟩, hfound, h⟩ := bind_eq_ok.1 h
  cases h
  obtain ⟨htolerance, hepsilon⟩ := Bisection.limits_of_ofSettings hs.finder
  have hlimits := hs.finder_eq
  have hlo : s.finder.epsilon + s.finder.rootTolerance ≤ t := by
    rw [hlimits]
    exact hnear
  have hhi : t ≤ min best s.finder.maxDistance := by
    rw [hlimits]
    exact le_min hbest hmax
  rw [Bisection.value_findLeafWithin, if_pos (by linarith)] at hfound
  have hfinds := Bisection.finds_of_search (Bisection.length_window_lt hs.finder _) hfound
  exact hfinds.lo_le_root ⟨show (0 : K) ≤ t by linarith, hhi⟩ hlo
    (hs.value_intervalForm hfield hroot)

end Surface

end ZeroSet
