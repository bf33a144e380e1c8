import ZeroSet.Proofs.BoundNames
import ZeroSet.Proofs.Frame
import ZeroSet.Proofs.RayParameter
import ZeroSet.Shape.Leaf

/-!
# Surfaces never lack a binding

The names of a field are checked when a surface is built of it.  This one check is enough for all
that the surface is asked for later: its gradient and the form that is searched mention no other
names, and both at a point and along a ray every coordinate is bound, along a ray to an expression
in the ray parameter, which the search binds to a cell.

* `Surface.Constructed` — the surfaces that are built of fields and of functions.
* `Surface.Constructed.over` — everything such a surface evaluates is over the coordinates.
* `Bisection.avoids_findRoot`, … — a search avoids the errors its enclosures avoid.
* `Surface.avoids_aboutMeaning` — no surface fails for what a name stands for, or for the kind of a
  value.
-/

namespace ZeroSet

variable {K : Type}

/-! ## Environments of numbers and of expressions in one number -/

/-- What a list binds is one of its pairs. -/
theorem Env.mem_of_get?_ofList {pairs : List (String × Expr K)} {n : String} {e : Expr K}
    (h : (Env.ofList pairs).bindings.get? n = some e) : (n, e) ∈ pairs := by
  by_cases hmem : n ∈ pairs.map Prod.fst
  · obtain ⟨e', hpair, hget⟩ := Bindings.get?_putAll_of_mem hmem
    cases h.symm.trans (hget .empty)
    exact hpair
  · cases h.symm.trans (Bindings.get?_putAll_of_notMem hmem)

/-- No name leads back to itself if bindings mention names of literals only. -/
theorem Bindings.acyclic_of_isLiteral {b : Bindings K}
    (h : ∀ m n, b.Refers m n → ∃ e, b.get? n = some e ∧ e.isLiteral = true) : b.Acyclic := by
  classical
  refine acyclic_of_rank
    (fun n => if ∃ e, b.get? n = some e ∧ e.isLiteral = true then 0 else 1) ?_
  intro m n hedge
  have hm : ¬∃ e, b.get? m = some e ∧ e.isLiteral = true := by
    -- a literal mentions no name
    rintro ⟨e, hget, he⟩
    obtain ⟨e', hget', hn⟩ := hedge
    cases hget.symm.trans hget'
    rw [Expr.freeNames_of_isLiteral he] at hn
    cases hn
  rw [if_pos (h m n hedge), if_neg hm]
  exact Nat.one_pos

namespace Surface

/-- At a point a coordinate stands for a number, and nothing else is bound. -/
theorem exists_of_get?_atPoint {p : Vec3 K} {n : String} {e : Expr K}
    (h : (atPoint p).bindings.get? n = some e) : ∃ v, e = .num v := by
  obtain ⟨axis, -, haxis⟩ := List.mem_map.1 (Env.mem_of_get?_ofList h)
  cases haxis
  exact ⟨_, rfl⟩

theorem acyclic_atPoint (p : Vec3 K) : (atPoint p).bindings.Acyclic := by
  refine Bindings.acyclic_of_isLiteral ?_
  rintro m n ⟨e, hget, hn⟩
  obtain ⟨v, rfl⟩ := exists_of_get?_atPoint hget
  cases hn

/-- At a point all coordinates are supplied. -/
theorem supplies_atPoint (p : Vec3 K) : (atPoint p).Supplies fun n => n ∈ Axis.names := by
  intro n hn
  obtain ⟨axis, -, rfl⟩ := List.mem_map.1 hn
  refine ⟨.num (p.get axis), ?_, Expr.over_num _⟩
  cases axis <;> rfl

/-- The environment in which the search encloses a field over a cell. -/
def inCell (ray : Ray K) (cell : Interval K) : Env K :=
  (alongRay ray).enter [(rayParameter, .intervalOf cell.lo cell.hi)]

theorem get?_inCell_rayParameter (ray : Ray K) (cell : Interval K) :
    (inCell ray cell).bindings.get? rayParameter = some (.intervalOf cell.lo cell.hi) := rfl

/-- Any other name stands in a cell for what it stands for along the ray. -/
theorem exists_of_get?_inCell {ray : Ray K} {cell : Interval K} {n : String} {e : Expr K}
    (hn : n ≠ rayParameter) (h : (inCell ray cell).bindings.get? n = some e) :
    ∃ axis, e = ray.coordinate axis := by
  have hmem : n ∉ [(rayParameter, Expr.intervalOf cell.lo cell.hi)].map Prod.fst := by
    simpa using hn
  have hget : (alongRay ray).bindings.get? n = some e := by
    rw [← h]
    exact (Bindings.get?_putAll_of_notMem hmem).symm
  obtain ⟨axis, -, haxis⟩ := List.mem_map.1 (Env.mem_of_get?_ofList hget)
  cases haxis
  exact ⟨axis, rfl⟩

theorem over_coordinate {S : String → Prop} (ray : Ray K) (axis : Axis) (h : S rayParameter) :
    (ray.coordinate axis).Over S := by
  exact Expr.over_binary.2
    ⟨Expr.over_num _, Expr.over_product.2 ⟨Expr.over_var.2 h, Expr.over_num _⟩⟩

theorem acyclic_inCell (ray : Ray K) (cell : Interval K) : (inCell ray cell).bindings.Acyclic := by
  refine Bindings.acyclic_of_isLiteral ?_
  rintro m n ⟨e, hget, hn⟩
  by_cases hm : m = rayParameter
  · subst hm
    cases (get?_inCell_rayParameter ray cell).symm.trans hget
    cases hn
  · obtain ⟨axis, rfl⟩ := exists_of_get?_inCell hm hget
    -- a coordinate mentions nothing but the ray parameter
    have hparameter := over_coordinate (S := fun n => n = rayParameter) ray axis rfl n hn
    rw [hparameter]
    exact ⟨_, get?_inCell_rayParameter ray cell, rfl⟩

/-- In a cell the coordinates and the ray parameter are supplied. -/
theorem supplies_inCell (ray : Ray K) (cell : Interval K) :
    (inCell ray cell).Supplies fun n => n ∈ Axis.names ∨ n = rayParameter := by
  rintro n (hn | rfl)
  · obtain ⟨axis, -, rfl⟩ := List.mem_map.1 hn
    refine ⟨ray.coordinate axis, ?_, over_coordinate ray axis (.inr rfl)⟩
    cases axis <;> rfl
  · refine ⟨_, get?_inCell_rayParameter ray cell, ?_⟩
    simp [Expr.intervalOf]

end Surface

/-! ## Searches -/

namespace Bisection

variable [Scalar K] {bad : EvalError K → Prop} {b : Bisection K} {g : Expr K} {name : String}
  {env : Env K}

/-- A search avoids the errors that the enclosures over all cells avoid. -/
theorem avoids_search (h : ∀ cell, Avoids bad ((enclose g name cell).value env))
    (budget depth : Nat) (cell : Interval K) (effort : Effort) :
    Avoids bad (Evaluation.value ((b.search g name budget depth cell).run effort) env) := by
  induction budget generalizing depth cell effort with
  | zero =>
    rw [value_search]
    refine (h cell).bind fun enclosure _ => ?_
    split
    · exact .ok _
    · exact .ok _
  | succ budget ih =>
    rw [value_search]
    refine (h cell).bind fun enclosure _ => ?_
    split
    · dsimp only
      split
      · exact .ok _
      · refine (ih _ _ _).bind fun result _ => ?_
        rcases result with ⟨_ | leaf, effort⟩
        · exact ih _ _ _
        · exact .ok _
    · exact .ok _

theorem avoids_findLeafWithin (h : ∀ cell, Avoids bad ((enclose g name cell).value env))
    (far : K) : Avoids bad ((b.findLeafWithin g name far).value env) := by
  rw [findLeafWithin]
  split
  · exact avoids_search h _ _ _ _
  · exact .ok _

theorem avoids_findRoot (h : ∀ cell, Avoids bad ((enclose g name cell).value env)) :
    Avoids bad ((b.findRoot g name).value env) := by
  rw [findRoot, findLeaf, Evaluation.value_bind (tidy_findLeafWithin b g name _)]
  exact (avoids_findLeafWithin h _).bind fun _ _ => .ok _

end Bisection

/-! ## Surfaces -/

namespace Surface

variable [Scalar K]

/-- The surfaces that are built of a field or of a function, with any settings, whatever look they
are given afterwards. -/
inductive Constructed : Surface K → Prop where
  /-- A surface of a field. -/
  | ofField {field : Expr K} {settings : Settings K} {ids ids' : IdSupply} {s : Surface K} :
    (build field settings).run.run ids = (.ok s, ids') → Constructed s
  /-- A surface of a function of the coordinates. -/
  | ofFunction {f : Func K} {settings : Settings K} {ids ids' : IdSupply} {s : Surface K} :
    (ofFunction f settings).run.run ids = (.ok s, ids') → Constructed s
  /-- The same surface with another look. -/
  | withMaterial {s : Surface K} (material : Material K) :
    Constructed s → Constructed { s with material }

/-- All that a surface evaluates is over the coordinates. -/
structure OverCoordinates (s : Surface K) : Prop where
  /-- The field mentions coordinates only. -/
  field : s.field.Over fun n => n ∈ Axis.names
  /-- So does the form of the field that is searched. -/
  intervalForm : s.intervalForm.Over fun n => n ∈ Axis.names
  /-- So do the components of the gradient. -/
  gradient : ∀ axis, (s.gradient.get axis).Over fun n => n ∈ Axis.names

theorem over_slope {S : String → Prop} {field e : Expr K} {axis : Axis} (hfield : field.Over S)
    (h : slope field axis = .ok e) : e.Over S := by
  obtain ⟨d, hd, h⟩ := bind_eq_ok.1 h
  exact Expr.over_simplify (Expr.over_derivative hfield hd) h

theorem overCoordinates_of_build {field : Expr K} {settings : Settings K} {ids ids' : IdSupply}
    {s : Surface K} (h : (build field settings).run.run ids = (.ok s, ids')) :
    s.OverCoordinates := by
  obtain ⟨finder, gx, gy, gz, -, hstray, hgx, hgy, hgz, rfl, -⟩ := build_eq_ok.1 h
  have hfield : field.Over fun n => n ∈ Axis.names := by
    intro n hn
    exact mem_names_of_strayNames hstray hn
  refine ⟨hfield, Expr.over_unrollPowers hfield, ?_⟩
  intro axis
  cases axis with
  | x => exact over_slope hfield hgx
  | y => exact over_slope hfield hgy
  | z => exact over_slope hfield hgz

theorem Constructed.over {s : Surface K} (hs : s.Constructed) : s.OverCoordinates := by
  induction hs with
  | ofField h => exact overCoordinates_of_build h
  | ofFunction h =>
    rw [Surface.ofFunction] at h
    split at h
    · obtain ⟨field, -, h⟩ := Building.lift_bind_eq_ok.1 h
      exact overCoordinates_of_build h
    · cases h
  | withMaterial material _ ih => exact ⟨ih.field, ih.intervalForm, ih.gradient⟩

/-! ## What a surface is asked for -/

section

variable {s : Surface K} (hs : s.OverCoordinates)

/-- An expression over the coordinates is evaluated at a point without trouble about names. -/
theorem avoids_atPoint {e : Expr K} (he : e.Over fun n => n ∈ Axis.names) (p : Vec3 K) :
    Avoids EvalError.AboutMeaning (e.evaluateReal.value (atPoint p)) :=
  Expr.evaluateReal_avoids_aboutMeaning rfl (acyclic_atPoint p) (supplies_atPoint p) he

/-- So it is over a cell. -/
theorem avoids_enclose {e : Expr K} (he : e.Over fun n => n ∈ Axis.names) (ray : Ray K)
    (cell : Interval K) :
    Avoids EvalError.AboutMeaning
      ((Bisection.enclose e rayParameter cell).value (alongRay ray)) := by
  rw [Bisection.enclose, Evaluation.value_within]
  refine Expr.evaluateInterval_avoids_aboutMeaning rfl (acyclic_inCell ray cell)
    (supplies_inCell ray cell) ?_
  intro n hn
  exact .inl (he n hn)

include hs

theorem avoids_valueAt (p : Vec3 K) : Avoids EvalError.AboutMeaning (s.valueAt p) :=
  avoids_atPoint hs.field p

theorem avoids_gradientAt (p : Vec3 K) : Avoids EvalError.AboutMeaning (s.gradientAt p) := by
  have htidy : ∀ e : Expr K, e.evaluateReal.Tidy := by
    intro e
    exact .bind (Expr.tidy_evaluate e .real) fun _ => .lift _
  rw [gradientAt, Evaluation.value_bind (htidy _)]
  refine (avoids_atPoint (hs.gradient .x) p).bind fun gx _ => ?_
  rw [Evaluation.value_bind (htidy _)]
  refine (avoids_atPoint (hs.gradient .y) p).bind fun gy _ => ?_
  rw [Evaluation.value_bind (htidy _)]
  exact (avoids_atPoint (hs.gradient .z) p).bind fun gz _ => .ok _

theorem avoids_normalAt (p : Vec3 K) : Avoids EvalError.AboutMeaning (s.normalAt p) :=
  (avoids_gradientAt hs p).bind fun _ _ => .ok _

theorem avoids_refine (ray : Ray K) (leaf : Interval K) (steps : Nat) (t : K) :
    Avoids EvalError.AboutMeaning (s.refine ray leaf steps t) := by
  induction steps generalizing t with
  | zero => exact .ok t
  | succ steps ih =>
    rw [refine]
    refine (avoids_valueAt hs _).bind fun value _ => ?_
    refine (avoids_gradientAt hs _).bind fun gradient _ => ?_
    dsimp only
    split
    · exact ih _
    · exact .ok t

theorem avoids_distance? (ray : Ray K) (best : K) :
    Avoids EvalError.AboutMeaning (s.distance? ray best) := by
  have hleaf : Avoids EvalError.AboutMeaning (s.findLeaf ray best) :=
    (Bisection.avoids_findLeafWithin (avoids_enclose hs.intervalForm ray) best).bind
      fun _ _ => .ok _
  refine hleaf.bind fun leaf? _ => ?_
  cases leaf? with
  | none => exact .ok none
  | some leaf => exact (avoids_refine hs ray leaf _ _).bind fun _ _ => .ok _

end

/-- No surface that was built fails for a name that is not bound or that leads back to itself, nor
for a value of the wrong kind, whatever functions its field applies: not at a point, not along a
ray, and not when it is met and shaded. -/
theorem avoids_aboutMeaning {s : Surface K} (hs : s.Constructed) :
    (∀ p, Avoids EvalError.AboutMeaning (s.valueAt p)) ∧
      (∀ p, Avoids EvalError.AboutMeaning (s.gradientAt p)) ∧
      (∀ p, Avoids EvalError.AboutMeaning (s.normalAt p)) ∧
      (∀ ray, Avoids EvalError.AboutMeaning (s.findRoot ray)) ∧
      (∀ ray best, Avoids EvalError.AboutMeaning ((Leaf.surface s).intersect ray best)) ∧
      ∀ hit, Avoids EvalError.AboutMeaning ((Leaf.surface s).shading hit) := by
  have hover := hs.over
  refine ⟨avoids_valueAt hover, avoids_gradientAt hover, avoids_normalAt hover, ?_, ?_, ?_⟩
  · intro ray
    exact Bisection.avoids_findRoot (avoids_enclose hover.intervalForm ray)
  · intro ray best
    refine (avoids_distance? hover ray best).bind fun t? _ => ?_
    cases t? with
    | none => exact .ok _
    | some t => exact .ok _
  · intro hit
    have hpoint : Avoids EvalError.AboutMeaning hit.getPoint := by
      unfold Hit.getPoint
      split
      · exact .ok _
      · exact .error fun hbad => hbad
    exact hpoint.bind fun point _ => (avoids_normalAt hover point).bind fun _ _ => .ok _

/-- Not even a function whose parameter hides the ray parameter, in which the coordinates are
expressions, makes a surface look for a name in vain. -/
theorem avoids_aboutMeaning_captured :
    ∃ s ids, (build (planeField "t") ⟨10, 5, 1, 0⟩).run.run .fresh = (.ok s, ids) ∧
      Avoids EvalError.AboutMeaning (s.gradientAt ⟨3, 2, 1⟩) ∧
      Avoids EvalError.AboutMeaning
        ((Leaf.surface s).intersect ⟨⟨0, 0, 0⟩, ⟨1, 0, 0⟩⟩ 8) := by
  obtain ⟨s, ids, hbuild⟩ := exists_build_planeField "t" (by decide)
  obtain ⟨-, hgradient, -, -, hintersect, -⟩ := avoids_aboutMeaning (.ofField hbuild)
  exact ⟨s, ids, hbuild, hgradient _, hintersect _ _⟩

end Surface

end ZeroSet
