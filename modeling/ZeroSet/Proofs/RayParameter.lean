import ZeroSet.Proofs.Exact
import ZeroSet.Proofs.Expansion
import ZeroSet.Shape.Surface

/-!
# Reading a field along a ray

The coordinates of a field are looked up by name where they are read, and along a ray they stand
for expressions in the ray parameter.  A function whose parameter has the name of the ray
parameter therefore changes what the coordinates mean inside its body.  Where that does not
happen, the field along a ray is the field at the points of the ray.

* `Expr.uncaptured` — no coordinate is read where a parameter hides the ray parameter.
* `Env.OnRay` — the two environments in which the field is read, inside any number of functions.
* `Expr.outcome_onRay` — an expression has the same outcome in both.
* `Surface.value_alongRay` — along a ray and at a point, a surface has the same values.
-/

namespace ZeroSet

/-! ## Capture -/

section

variable {K : Type}

/-- The names of the coordinates. -/
def Axis.names : List String := Axis.all.map Axis.name

mutual

/-- Whether no coordinate is read where a parameter has the name of the ray parameter.  The
parameters of the functions around the expression are `hidden`. -/
def Expr.uncaptured (hidden : List String) : Expr K → Bool
  | .num _ => true
  | .var name => name ∈ hidden || name ∉ Axis.names || Surface.rayParameter ∉ hidden
  | .vec items => Expr.uncapturedList hidden items
  | .interval lo hi => lo.uncaptured hidden && hi.uncaptured hidden
  | .neg a => a.uncaptured hidden
  | .binary _ a b => a.uncaptured hidden && b.uncaptured hidden
  | .power a b => a.uncaptured hidden && b.uncaptured hidden
  | .apply f args => f.uncaptured hidden && Expr.uncapturedList hidden args

/-- Whether no expression of a list reads a captured coordinate. -/
def Expr.uncapturedList (hidden : List String) : List (Expr K) → Bool
  | [] => true
  | e :: es => e.uncaptured hidden && Expr.uncapturedList hidden es

/-- Whether no body of a function reads a captured coordinate. -/
def Func.uncaptured (hidden : List String) : Func K → Bool
  | .custom _ params body => body.uncaptured (params ++ hidden)
  | .comp inner outer => inner.uncaptured hidden && outer.uncaptured hidden
  | .builtin _ => true

end

theorem Expr.uncapturedList_iff {hidden : List String} {es : List (Expr K)} :
    Expr.uncapturedList hidden es = true ↔ ∀ e ∈ es, e.uncaptured hidden = true := by
  induction es with
  | nil => simp [uncapturedList]
  | cons e es ih => simp [uncapturedList, ih]

theorem hereditary_uncaptured (hidden : List String) :
    Hereditary (fun e : Expr K => e.uncaptured hidden = true)
      fun f => f.uncaptured hidden = true where
  apply hf hargs := by
    simp only [Expr.uncaptured, Bool.and_eq_true, Expr.uncapturedList_iff]
    exact ⟨hf, hargs⟩
  comp := by simp only [Func.uncaptured, Bool.and_eq_true, implies_true]
  item hitem h := by
    simp only [Func.uncaptured, Expr.uncaptured, Expr.uncapturedList_iff] at h ⊢
    exact h _ hitem

end

/-! ## Along the ray and at a point of it -/

/-- The affine expression that a coordinate stands for along a ray. -/
def Ray.coordinate {K : Type} (ray : Ray K) (axis : Axis) : Expr K :=
  .num (ray.origin.get axis) + .var Surface.rayParameter * .num (ray.direction.get axis)

section

variable {K : Type} [Scalar K]

/-- What the environments along a ray and at its point at distance `s` have in common inside
functions with the parameters `hidden`. -/
structure Env.OnRay (ray : Ray K) (s : K) (hidden : List String) (along point : Env K) :
    Prop where
  /-- Coordinates are never read while they are being resolved. -/
  resolving_along : along.resolving = []
  /-- Nothing at a point is an expression to be resolved further. -/
  resolving_point : point.resolving = []
  /-- A parameter stands for the same number in both. -/
  params : ∀ name ∈ hidden, ∃ v, along.bindings.get? name = some (.num v) ∧
    point.bindings.get? name = some (.num v)
  /-- A coordinate stands for its expression in the ray parameter, and for its value there. -/
  coordinate : ∀ axis : Axis, axis.name ∉ hidden →
    along.bindings.get? axis.name = some (ray.coordinate axis) ∧
      point.bindings.get? axis.name = some (.num ((ray.pointAt s).get axis))
  /-- The ray parameter stands for the distance. -/
  parameter : Surface.rayParameter ∉ hidden →
    along.bindings.get? Surface.rayParameter = some (.num s)

/-- Entering a function hides its parameters. -/
theorem Env.OnRay.enter {ray : Ray K} {s : K} {hidden : List String} {along point : Env K}
    (h : OnRay ray s hidden along point) {params : List String} {xs : List K}
    (hlength : xs.length = params.length) :
    OnRay ray s (params ++ hidden) (along.enter (params.zip (xs.map .num)))
      (point.enter (params.zip (xs.map .num))) where
  resolving_along := by simp [Env.enter, h.resolving_along]
  resolving_point := by simp [Env.enter, h.resolving_point]
  params name hname := by
    by_cases hmem : name ∈ params
    · obtain ⟨x, hx⟩ := Env.get?_enter_of_mem hlength hmem
      exact ⟨x, hx along, hx point⟩
    · rw [Env.get?_enter_of_notMem hmem, Env.get?_enter_of_notMem hmem]
      exact h.params name ((List.mem_append.1 hname).resolve_left hmem)
  coordinate axis hname := by
    rw [List.mem_append, not_or] at hname
    rw [Env.get?_enter_of_notMem hname.1, Env.get?_enter_of_notMem hname.1]
    exact h.coordinate axis hname.2
  parameter hname := by
    rw [List.mem_append, not_or] at hname
    rw [Env.get?_enter_of_notMem hname.1]
    exact h.parameter hname.2

end

namespace Expr

variable {K : Type} [ExactScalar K] {ray : Ray K} {s : K} {hidden : List String}
  {along point : Env K} {d k : Nat}

/-- A coordinate that is not captured has the value it has at the point. -/
theorem outcome_coordinate (axis : Axis) (hresolving : along.resolving = [])
    (hparameter : along.bindings.get? Surface.rayParameter = some (.num s)) :
    (ray.coordinate axis).outcome .real (d + 1)
        { along with resolving := axis.name :: along.resolving } =
      .ok (.real ((ray.pointAt s).get axis)) := by
  have hname : Surface.rayParameter ∉ axis.name :: along.resolving := by
    rw [hresolving]
    cases axis <;> decide
  have hvalue : ray.origin.get axis + s * ray.direction.get axis = (ray.pointAt s).get axis := by
    rw [mul_comm]
    cases axis <;> rfl
  show (binary .add (num _) (binary .mul (var _) (num _))).outcome .real _ _ = _
  rw [outcome_binary, outcome_binary, outcome_num, outcome_num, outcome_var, if_neg hname]
  dsimp only
  rw [hparameter]
  dsimp only
  rw [outcome_num, ← hvalue]
  rfl

/-- An expression over the coordinates that captures none of them has the same outcome along a
ray as at the point on it. -/
theorem outcome_onRay {e : Expr K} (henv : Env.OnRay ray s hidden along point)
    (hfree : ∀ name ∈ e.freeNames, name ∈ hidden ∨ name ∈ Axis.names)
    (he : e.uncaptured hidden = true) :
    e.outcome .real (d + 2) along = e.outcome .real (k + 1) point := by
  -- along the ray a coordinate leads to the ray parameter, hence the further step there
  induction e using expansionInduction generalizing hidden along point with
  | num v => rw [outcome_num, outcome_num]
  | var name =>
    rw [outcome_var, outcome_var, henv.resolving_along, henv.resolving_point,
      if_neg List.not_mem_nil, if_neg List.not_mem_nil]
    by_cases hhidden : name ∈ hidden
    · obtain ⟨v, halong, hpoint⟩ := henv.params name hhidden
      rw [halong, hpoint]
      dsimp only
      rw [outcome_num, outcome_num]
    · -- the name is a coordinate that is read where the ray parameter is not hidden
      have hmem := (hfree name (List.mem_singleton_self name)).resolve_left hhidden
      have hparameter : Surface.rayParameter ∉ hidden := by
        simpa [uncaptured, hhidden, hmem] using he
      obtain ⟨axis, -, rfl⟩ := List.mem_map.1 hmem
      obtain ⟨halong, hpoint⟩ := henv.coordinate axis hhidden
      rw [halong, hpoint]
      dsimp only
      rw [outcome_num, ← henv.resolving_along]
      exact outcome_coordinate axis henv.resolving_along (henv.parameter hparameter)
  | vec items _ => rw [outcome_vec, outcome_vec, if_neg (by decide), if_neg (by decide)]
  | interval lo hi _ _ =>
    rw [outcome_interval, outcome_interval, if_neg (by decide), if_neg (by decide)]
  | neg a ih => rw [outcome_neg, outcome_neg, ih henv hfree he]
  | binary op a b iha ihb =>
    simp only [uncaptured, Bool.and_eq_true] at he
    obtain ⟨hfa, hfb⟩ := List.forall_mem_append.1 hfree
    rw [outcome_binary, outcome_binary, iha henv hfa he.1, ihb henv hfb he.2]
  | power a b iha ihb =>
    simp only [uncaptured, Bool.and_eq_true] at he
    obtain ⟨hfa, hfb⟩ := List.forall_mem_append.1 hfree
    rw [outcome_power, outcome_power, iha henv hfa he.1, ihb henv hfb he.2]
  | builtin b args ih =>
    simp only [uncaptured, Func.uncaptured, Bool.true_and, uncapturedList_iff] at he
    simp only [mem_freeNames_apply] at hfree
    rw [outcome_builtin, outcome_builtin]
    congr 1
    funext _
    rcases args with _ | ⟨a, _ | ⟨_, _⟩⟩
    · rfl
    · have ha := List.mem_singleton_self a
      dsimp only
      rw [ih a ha henv (fun n hn => hfree n (.inr ⟨a, ha, hn⟩)) (he a ha)]
    · rfl
  | custom f params body args ihargs ihbody =>
    simp only [uncaptured, Func.uncaptured, Bool.and_eq_true, uncapturedList_iff] at he
    simp only [mem_freeNames_apply, Func.mem_freeNames_custom] at hfree
    have hargs : ∀ a ∈ args,
        a.outcome .real (d + 2) along = a.outcome .real (k + 1) point :=
      fun a ha => ihargs a ha henv (fun n hn => hfree n (.inr ⟨a, ha, hn⟩)) (he.2 a ha)
    rw [outcome_custom, outcome_custom, mapM_congr hargs]
    split
    · rfl
    · rename_i hlength
      rcases hvalues : args.mapM fun a => a.outcome .real (k + 1) point with err | values
      · rw [hvalues]
        rfl
      · rw [hvalues]
        obtain ⟨xs, rfl⟩ := reals_of_outcomes hvalues
        have hxs : xs.length = params.length := by
          have := (mapM_eq_ok.1 hvalues).length_eq
          rw [List.length_map] at this
          omega
        have hexprs : (xs.map Value.real).map Value.toExpr = xs.map .num := by
          rw [List.map_map]
          rfl
        show body.outcome .real _ (along.enter (params.zip ((xs.map Value.real).map _))) =
          body.outcome .real _ (point.enter (params.zip ((xs.map Value.real).map _)))
        rw [hexprs]
        refine ihbody (henv.enter hxs) (fun n hn => ?_) he.1
        by_cases hparam : n ∈ params
        · exact .inl (List.mem_append_left _ hparam)
        · exact (hfree n (.inl ⟨hn, hparam⟩)).imp_left (List.mem_append_right _)
  | comp inner outer args ih =>
    rw [outcome_comp, outcome_comp]
    cases hexpanded : (Func.comp inner outer).expand args with
    | error err => rfl
    | ok expanded =>
      refine ih expanded hexpanded henv ?_ ?_
      · simp only [mem_freeNames_apply] at hfree
        exact (hereditary_freeNames fun n => n ∈ hidden ∨ n ∈ Axis.names).expand hexpanded
          (fun n hn => hfree n (.inl hn)) (fun a ha n hn => hfree n (.inr ⟨a, ha, hn⟩))
      · simp only [uncaptured, Bool.and_eq_true, uncapturedList_iff] at he
        exact (hereditary_uncaptured hidden).expand hexpanded he.1 he.2

end Expr

/-! ## Surfaces along rays -/

/-- A step of a construction that issues no number. -/
theorem Building.lift_bind_eq_ok {K α β : Type} {x : Except (EvalError K) α}
    {f : α → Building K β} {b : β} {ids ids' : IdSupply} :
    ((liftM x : Building K α) >>= f).run.run ids = (.ok b, ids') ↔
      ∃ a, x = .ok a ∧ (f a).run.run ids = (.ok b, ids') := by
  cases x with
  | error err =>
    constructor
    · intro h
      cases h
    · rintro ⟨a, h, -⟩
      cases h
  | ok a =>
    constructor
    · exact fun h => ⟨a, rfl, h⟩
    · rintro ⟨_, ha, h⟩
      cases ha
      exact h

namespace Surface

/-- A field that a surface is built of mentions the coordinates only. -/
theorem mem_names_of_strayNames {K : Type} {field : Expr K} (h : strayNames field = [])
    {name : String} (hname : name ∈ field.freeNames) : name ∈ Axis.names := by
  by_contra hstranger
  have hmem : name ∈ strayNames field :=
    List.mem_filter.2 ⟨Expr.mem_distinctNames.2 hname, by simpa [Axis.names] using hstranger⟩
  rw [h] at hmem
  cases hmem

section

variable {K : Type} [Scalar K]

/-- What it takes to build a surface, and what comes out. -/
theorem build_eq_ok {field : Expr K} {settings : Settings K} {ids ids' : IdSupply}
    {surface : Surface K} :
    (build field settings).run.run ids = (.ok surface, ids') ↔
      ∃ finder gx gy gz, Bisection.ofSettings settings = .ok finder ∧ strayNames field = [] ∧
        slope field .x = .ok gx ∧ slope field .y = .ok gy ∧ slope field .z = .ok gz ∧
        surface = ⟨⟨ids.issued⟩, field, field.unrollPowers, ⟨gx, gy, gz⟩, settings, finder,
          .standard⟩ ∧ ids' = ⟨ids.issued + 1⟩ := by
  constructor
  · intro h
    rw [build] at h
    obtain ⟨finder, hfinder, h⟩ := Building.lift_bind_eq_ok.1 h
    dsimp only at h
    split at h
    · rename_i hstray
      obtain ⟨gx, hx, h⟩ := Building.lift_bind_eq_ok.1 h
      obtain ⟨gy, hy, h⟩ := Building.lift_bind_eq_ok.1 h
      obtain ⟨gz, hz, h⟩ := Building.lift_bind_eq_ok.1 h
      cases h
      exact ⟨finder, gx, gy, gz, hfinder, List.isEmpty_iff.1 hstray, hx, hy, hz, rfl, rfl⟩
    · cases h
  · rintro ⟨finder, gx, gy, gz, hfinder, hstray, hx, hy, hz, rfl, rfl⟩
    rw [build]
    refine Building.lift_bind_eq_ok.2 ⟨finder, hfinder, ?_⟩
    dsimp only
    rw [if_pos (List.isEmpty_iff.2 hstray)]
    exact Building.lift_bind_eq_ok.2 ⟨gx, hx, Building.lift_bind_eq_ok.2 ⟨gy, hy,
      Building.lift_bind_eq_ok.2 ⟨gz, hz, rfl⟩⟩⟩

end

section

variable {K : Type} [ExactScalar K]

/-- If no function in the field of a surface captures a coordinate, the field along a ray has
the same outcome at every distance as the field at the point of the ray there. -/
theorem value_alongRay {field : Expr K} {settings : Settings K} {ids ids' : IdSupply}
    {surface : Surface K} (hbuild : (build field settings).run.run ids = (.ok surface, ids'))
    (hfield : field.uncaptured [] = true) (ray : Ray K) (s : K) :
    surface.field.evaluateReal.value ((alongRay ray).enter [(rayParameter, .num s)]) =
      surface.valueAt (ray.pointAt s) := by
  obtain ⟨_, _, _, _, -, hstray, -, -, -, rfl, -⟩ := build_eq_ok.1 hbuild
  have henv : Env.OnRay ray s [] ((alongRay ray).enter [(rayParameter, .num s)])
      (atPoint (ray.pointAt s)) := by
    refine ⟨rfl, rfl, fun name hname => ?_, fun axis _ => ?_, fun _ => rfl⟩
    · cases hname
    · cases axis
      · exact ⟨rfl, rfl⟩
      · exact ⟨rfl, rfl⟩
      · exact ⟨rfl, rfl⟩
  rw [valueAt, Expr.value_evaluateReal, Expr.value_evaluateReal]
  refine congrArg (· >>= Value.asReal) (Expr.outcome_onRay (d := 3) (k := 3) henv ?_ hfield)
  exact fun _ hn => .inr (mem_names_of_strayNames hstray hn)

end

/-- The field `x - 1`, where a function subtracts its parameter from the coordinate. -/
def planeField (param : String) : Expr ℝ :=
  .apply (.custom "f" [param] (.binary .sub (.var "x") (.var param))) [.num 1]

/-- Whatever the parameter is called, a surface is built of the field. -/
theorem exists_build_planeField (param : String) (hparam : param ∉ Axis.names) :
    ∃ surface ids,
      (build (planeField param) ⟨10, 5, 1, 0⟩).run.run .fresh = (.ok surface, ids) := by
  have hfinder : Bisection.ofSettings (⟨10, 5, 1, 0⟩ : Settings ℝ) = .ok ⟨10, 5, 1⟩ := by
    simp [Bisection.ofSettings, Settings.check, Settings.checkLimit, bind, Except.bind, pure,
      Except.pure]
    norm_num
  have hx : "x" ≠ param := by
    rintro rfl
    exact hparam (by decide)
  have hfree : (planeField param).freeNames = ["x"] := by
    simp [planeField, Expr.freeNames, Expr.freeNamesList, Func.freeNames, hx]
  have hstray : strayNames (planeField param) = [] := by
    rw [strayNames, Expr.distinctNames, hfree]
    rfl
  have hslope : ∀ axis, ∃ e, slope (planeField param) axis = .ok e := by
    intro axis
    cases axis with
    | x =>
      refine ⟨.apply (.custom "f" [param] (.num 1 - .num 0)) [.num 1], ?_⟩
      simp [planeField, slope, Expr.derivative, Expr.chainTerms, Expr.dependsOn, Expr.freeNames,
        Expr.freeNamesList, Func.freeNames, Axis.name, bind, Except.bind, pure, Except.pure, hx]
      rfl
    | _ =>
      refine ⟨.num 0, ?_⟩
      rw [slope, Expr.derivative.eq_def, Expr.dependsOn, hfree]
      rfl
  obtain ⟨gx, hgx⟩ := hslope .x
  obtain ⟨gy, hgy⟩ := hslope .y
  obtain ⟨gz, hgz⟩ := hslope .z
  exact ⟨_, _, build_eq_ok.2 ⟨_, gx, gy, gz, hfinder, hstray, hgx, hgy, hgz, rfl, rfl⟩⟩

/-- A parameter with a name of its own captures nothing. -/
theorem value_alongRay_plane :
    ∃ surface ids, (build (planeField "u") ⟨10, 5, 1, 0⟩).run.run .fresh = (.ok surface, ids) ∧
      surface.field.evaluateReal.value
          ((alongRay ⟨⟨0, 0, 0⟩, ⟨1, 0, 0⟩⟩).enter [(rayParameter, .num 5)]) =
        surface.valueAt (Ray.pointAt ⟨⟨0, 0, 0⟩, ⟨1, 0, 0⟩⟩ 5) := by
  obtain ⟨surface, ids, hbuild⟩ := exists_build_planeField "u" (by decide)
  exact ⟨surface, ids, hbuild, value_alongRay hbuild (by decide) _ _⟩

/-- With a parameter that has the name of the ray parameter, the field `x - 1` vanishes all along
the ray. -/
theorem value_alongRay_captured :
    ∃ surface ids, (build (planeField "t") ⟨10, 5, 1, 0⟩).run.run .fresh = (.ok surface, ids) ∧
      surface.field.evaluateReal.value
          ((alongRay ⟨⟨0, 0, 0⟩, ⟨1, 0, 0⟩⟩).enter [(rayParameter, .num 5)]) = .ok 0 ∧
      surface.valueAt (Ray.pointAt ⟨⟨0, 0, 0⟩, ⟨1, 0, 0⟩⟩ 5) = .ok 4 := by
  obtain ⟨surface, ids, hbuild⟩ := exists_build_planeField "t" (by decide)
  obtain ⟨_, _, _, _, -, -, -, -, -, rfl, -⟩ := build_eq_ok.1 hbuild
  refine ⟨_, ids, hbuild, ?_, ?_⟩
  · have hadd : ∀ a b : Expr ℝ, a + b = .binary .add a b := fun _ _ => rfl
    have hmul : ∀ a b : Expr ℝ, a * b = .binary .mul a b := fun _ _ => rfl
    rw [Expr.value_evaluateReal]
    show Expr.outcome (planeField "t") .real 5 _ >>= _ = _
    simp [planeField, Expr.outcome_custom, Expr.outcome_binary, Expr.outcome_var,
      Expr.outcome_num, alongRay, Env.enter, Env.ofList, Bindings.putAll, Value.toExpr, Axis.all,
      Axis.name, rayParameter, hadd, hmul, bind, Except.bind, pure, Except.pure]
    show Except.ok ((0 : ℝ) + 1 * 1 - 1) = .ok 0
    norm_num
  · rw [valueAt, Expr.value_evaluateReal]
    show Expr.outcome (planeField "t") .real 4 _ >>= _ = _
    simp [planeField, Expr.outcome_custom, Expr.outcome_binary, Expr.outcome_var,
      Expr.outcome_num, atPoint, Env.enter, Env.ofList, Bindings.putAll, Value.toExpr, Axis.all,
      Axis.name, bind, Except.bind, pure, Except.pure]
    show Except.ok ((0 : ℝ) + 1 * 5 - 1) = .ok 4
    norm_num

end Surface

end ZeroSet
