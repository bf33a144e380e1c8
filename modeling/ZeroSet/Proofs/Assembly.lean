import ZeroSet.Proofs.FartherBounds

/-!
# Shapes that are put together

Shapes are built with numbers from one supply, which goes on counting when a shape is refused.
Leaves can be copied, and a copy has the number of its original; scenes and axes cannot.  So a
number may well occur more than once among the shapes at hand, but only that of a leaf that was
copied, and the scene that a hit is passed on by is never taken for the leaf that was hit.

* `Assembly` — all ways to come by shapes: building, being refused, copying leaves, changing
  settings, adding to scenes and throwing away.
* `IdSupply.Accounts` — which numbers may be used more than once.
* `Assembly.attributes_hits` — whatever is put together, hits are attributed to the leaves that
  were hit.
* `Assembly.copies_share_number` — a copy has the number of its original, and where a bound cuts
  the window of a surface, a trace tells another point.
-/

namespace ZeroSet

variable {K : Type}

/-! ## The numbers in a shape -/

namespace Shape

mutual

/-- The numbers of a shape and of all its parts. -/
def ids : Shape K → List ShapeId
  | leaf l => [l.id]
  | scene id _ members => id :: idsOfAll members
  | axes id frame rods => id :: frame :: rods.map Rod.id

/-- The numbers of some shapes and of all their parts. -/
def idsOfAll : List (Shape K) → List ShapeId
  | [] => []
  | s :: ss => s.ids ++ idsOfAll ss

end

mutual

/-- The numbers of the scenes and axes in a shape, which are not those of leaves. -/
def frames : Shape K → List ShapeId
  | leaf _ => []
  | scene id _ members => id :: framesOfAll members
  | axes id frame _ => [id, frame]

/-- The numbers of the scenes and axes in some shapes. -/
def framesOfAll : List (Shape K) → List ShapeId
  | [] => []
  | s :: ss => s.frames ++ framesOfAll ss

end

theorem idsOfAll_eq_flatMap (ss : List (Shape K)) : idsOfAll ss = ss.flatMap ids := by
  induction ss with
  | nil => rfl
  | cons s ss ih => simp [idsOfAll, ih]

theorem framesOfAll_eq_flatMap (ss : List (Shape K)) : framesOfAll ss = ss.flatMap frames := by
  induction ss with
  | nil => rfl
  | cons s ss ih => simp [framesOfAll, ih]

/-- A leaf of a shape is one of its parts. -/
theorem id_mem_ids {l : Leaf K} {s : Shape K} (h : l ∈ s.leaves) : l.id ∈ s.ids := by
  induction s using memberInduction with
  | leaf l' =>
    simp only [leaves, List.mem_singleton] at h
    simp [ids, h]
  | scene id guard members ih =>
    rw [leaves] at h
    obtain ⟨m, hm, hl⟩ := mem_leavesOfAll.1 h
    rw [ids, idsOfAll_eq_flatMap]
    exact List.mem_cons_of_mem _ (List.mem_flatMap.2 ⟨m, hm, ih m hm hl⟩)
  | axes id frame rods =>
    rw [leaves] at h
    obtain ⟨r, hr, rfl⟩ := List.mem_map.1 h
    have hid : r.id ∈ rods.map Rod.id := List.mem_map_of_mem hr
    simp [ids, Leaf.id, hid]

theorem id_mem_idsOfAll {l : Leaf K} {ss : List (Shape K)} (h : l ∈ leavesOfAll ss) :
    l.id ∈ idsOfAll ss := by
  obtain ⟨s, hs, hl⟩ := mem_leavesOfAll.1 h
  rw [idsOfAll_eq_flatMap]
  exact List.mem_flatMap.2 ⟨s, hs, id_mem_ids hl⟩

/-- A scene of a shape is one of its parts, and so are axes. -/
theorem frames_subset_ids (s : Shape K) : s.frames ⊆ s.ids := by
  induction s using memberInduction with
  | leaf l => simp [frames]
  | scene id guard members ih =>
    rw [frames, ids, framesOfAll_eq_flatMap, idsOfAll_eq_flatMap]
    refine List.cons_subset_cons _ fun i hi => ?_
    obtain ⟨m, hm, him⟩ := List.mem_flatMap.1 hi
    exact List.mem_flatMap.2 ⟨m, hm, ih m hm him⟩
  | axes id frame rods =>
    intro i hi
    rw [frames, List.mem_pair] at hi
    rcases hi with rfl | rfl <;> simp [ids]

theorem framesOfAll_subset_idsOfAll (ss : List (Shape K)) : framesOfAll ss ⊆ idsOfAll ss := by
  rw [framesOfAll_eq_flatMap, idsOfAll_eq_flatMap]
  intro i hi
  obtain ⟨s, hs, his⟩ := List.mem_flatMap.1 hi
  exact List.mem_flatMap.2 ⟨s, hs, frames_subset_ids s his⟩

end Shape

/-! ## Building -/

section

variable [Scalar K] {α : Type}

/-- What is built has the next number and uses it up; what is refused uses none up. -/
def Building.IssuesOne (b : Building K α) (id : α → ShapeId) : Prop :=
  ∀ supply, (∃ err, b.run.run supply = (.error err, supply)) ∨
    ∃ a, id a = ⟨supply.issued⟩ ∧ b.run.run supply = (.ok a, ⟨supply.issued + 1⟩)

namespace Building.IssuesOne

variable {id : α → ShapeId}

omit [Scalar K] in
theorem throw (err : EvalError K) : IssuesOne (throw err : Building K α) id := by
  intro supply
  exact .inl ⟨err, rfl⟩

omit [Scalar K] in
theorem issue {make : ShapeId → α} (h : ∀ i, id (make i) = i) :
    IssuesOne (do return make (← (IdSupply.issue : StateM _ _)) : Building K α) id := by
  intro supply
  exact .inr ⟨_, h _, rfl⟩

omit [Scalar K] in
theorem lift {β : Type} {x : Except (EvalError K) β} {f : β → Building K α}
    (h : ∀ b, IssuesOne (f b) id) : IssuesOne ((liftM x : Building K β) >>= f) id := by
  intro supply
  cases x with
  | error err => exact .inl ⟨err, rfl⟩
  | ok b => exact h b supply

end Building.IssuesOne

theorem Sphere.issuesOne_build (center : Vec3 K) (radius : K) :
    (Sphere.build center radius).IssuesOne Sphere.id := by
  unfold Sphere.build
  split
  · exact .issue fun _ => rfl
  · exact .throw _

theorem Plane.issuesOne_build (point normal : Vec3 K) :
    (Plane.build point normal).IssuesOne Plane.id := by
  unfold Plane.build
  split
  · exact .issue fun _ => rfl
  · exact .throw _

theorem Rod.issuesOne_build (axis : Nat) (length thickness : K) :
    (Rod.build axis length thickness).IssuesOne Rod.id := by
  unfold Rod.build
  split
  · exact .throw _
  · split
    · exact .issue fun _ => rfl
    · exact .throw _

theorem Surface.issuesOne_build (field : Expr K) (settings : Settings K) :
    (Surface.build field settings).IssuesOne Surface.id := by
  unfold Surface.build
  refine .lift fun finder => ?_
  dsimp only
  split
  · exact .lift fun gx => .lift fun gy => .lift fun gz => .issue fun _ => rfl
  · exact .throw _

theorem Surface.issuesOne_ofFunction (f : Func K) (settings : Settings K) :
    (Surface.ofFunction f settings).IssuesOne Surface.id := by
  unfold Surface.ofFunction
  split
  · exact .lift fun field => issuesOne_build field settings
  · exact .throw _

/-- What can be asked for. -/
inductive Plan (K : Type) where
  /-- A sphere. -/
  | sphere (center : Vec3 K) (radius : K)
  /-- A plane. -/
  | plane (point normal : Vec3 K)
  /-- A rod on its own. -/
  | rod (axis : Nat) (length thickness : K)
  /-- The surface of a field. -/
  | surface (field : Expr K) (settings : Settings K)
  /-- The surface of a function. -/
  | surfaceOf (f : Func K) (settings : Settings K)
  /-- Coordinate axes. -/
  | axes (length thickness : K)
  /-- A scene without members. -/
  | scene

/-- Building what a plan asks for. -/
def Plan.build : Plan K → Building K (Shape K)
  | sphere center radius => (fun s => .leaf (.sphere s)) <$> Sphere.build center radius
  | plane point normal => (fun p => .leaf (.plane p)) <$> Plane.build point normal
  | rod axis length thickness => (fun r => .leaf (.rod r)) <$> Rod.build axis length thickness
  | surface field settings => (fun s => .leaf (.surface s)) <$> Surface.build field settings
  | surfaceOf f settings => (fun s => .leaf (.surface s)) <$> Surface.ofFunction f settings
  | axes length thickness => Shape.buildAxes length thickness
  | scene => Scene.toShape <$> (Scene.build : StateM _ _)

/-- The numbers that are issued while a supply goes from one state to another. -/
def IdSupply.between (before after : IdSupply) : List ShapeId :=
  (List.range' before.issued (after.issued - before.issued)).map ShapeId.mk

/-- The numbers of what is built and of its parts are those that building it has used up, in order.
A refusal may use numbers up as well. -/
def Building.Numbers (b : Building K (Shape K)) : Prop :=
  ∀ supply, supply.issued ≤ (b.run.run supply).2.issued ∧
    ∀ s, (b.run.run supply).1 = .ok s → s.ids = supply.between (b.run.run supply).2

omit [Scalar K] in
theorem Building.run_map_leaf (b : Building K α) (make : α → Leaf K) (supply : IdSupply) :
    ((fun a => Shape.leaf (make a)) <$> b).run.run supply =
      ((b.run.run supply).1.map fun a => .leaf (make a), (b.run.run supply).2) := by
  rw [ExceptT.run_map, StateT.run_map]
  rfl

omit [Scalar K] in
/-- A leaf has the one number that building it has used up. -/
theorem Building.IssuesOne.numbers {b : Building K α} {id : α → ShapeId} (h : b.IssuesOne id)
    {make : α → Leaf K} (hid : ∀ a, (make a).id = id a) :
    Building.Numbers ((fun a => .leaf (make a)) <$> b) := by
  intro supply
  rw [run_map_leaf]
  rcases h supply with ⟨err, herr⟩ | ⟨a, ha, hok⟩
  · rw [herr]
    refine ⟨le_refl _, fun s hs => ?_⟩
    cases hs
  · rw [hok]
    refine ⟨Nat.le_succ _, fun s hs => ?_⟩
    cases hs
    simp [Shape.ids, hid, ha, IdSupply.between]

/-- The rod that is built along an axis. -/
def Rod.along (id : ShapeId) (axis : Axis) (length thickness : K) : Rod K :=
  ⟨id, (Vec3.splat (-thickness)).set axis 0, (Vec3.splat thickness).set axis length,
    .ambient ((0 : Vec3 K).set axis 1)⟩

namespace Shape

variable {length thickness : K}

/-- Axes use up five numbers: their own, that of the scene of the rods and those of the rods. -/
theorem run_buildAxes (h : (decide (0 < length) && decide (0 < thickness)) = true)
    (supply : IdSupply) :
    (buildAxes length thickness).run.run supply =
      (.ok (.axes ⟨supply.issued⟩ ⟨supply.issued + 1⟩
        [.along ⟨supply.issued + 2⟩ .x length thickness,
          .along ⟨supply.issued + 3⟩ .y length thickness,
          .along ⟨supply.issued + 4⟩ .z length thickness]), ⟨supply.issued + 5⟩) := by
  simp only [buildAxes, Rod.build, Axis.ofNat?, h, if_true]
  rfl

/-- Axes that are refused have used up two numbers. -/
theorem run_buildAxes_refused (h : ¬(decide (0 < length) && decide (0 < thickness)) = true)
    (supply : IdSupply) :
    (buildAxes length thickness).run.run supply =
      (.error (.invalidConstruction (.rodExtent length thickness)), ⟨supply.issued + 2⟩) := by
  simp only [buildAxes, Rod.build, Axis.ofNat?, h]
  rfl

theorem numbers_buildAxes (length thickness : K) : (buildAxes length thickness).Numbers := by
  intro supply
  by_cases h : (decide (0 < length) && decide (0 < thickness)) = true
  · rw [run_buildAxes h]
    refine ⟨Nat.le_add_right _ _, fun s hs => ?_⟩
    cases hs
    simp [ids, Rod.along, IdSupply.between, List.range'_succ]
  · rw [run_buildAxes_refused h]
    refine ⟨Nat.le_add_right _ _, fun s hs => ?_⟩
    cases hs

end Shape

theorem Plan.numbers_build (plan : Plan K) : plan.build.Numbers := by
  cases plan with
  | sphere center radius => exact (Sphere.issuesOne_build center radius).numbers fun _ => rfl
  | plane point normal => exact (Plane.issuesOne_build point normal).numbers fun _ => rfl
  | rod axis length thickness =>
    exact (Rod.issuesOne_build axis length thickness).numbers fun _ => rfl
  | surface field settings =>
    exact (Surface.issuesOne_build field settings).numbers fun _ => rfl
  | surfaceOf f settings => exact (Surface.issuesOne_ofFunction f settings).numbers fun _ => rfl
  | axes length thickness => exact Shape.numbers_buildAxes length thickness
  | scene =>
    intro supply
    refine ⟨Nat.le_succ _, fun s hs => ?_⟩
    cases hs
    show [⟨supply.issued⟩] = supply.between ⟨supply.issued + 1⟩
    simp [IdSupply.between]

/-- Whatever is built has positive guards. -/
theorem Plan.guarded_of_build [DistanceScale K] {plan : Plan K} {supply supply' : IdSupply}
    {s : Shape K} (h : plan.build.run.run supply = (.ok s, supply')) : s.Guarded := by
  have hleaf : ∀ {α : Type} {b : Building K α} {make : α → Leaf K},
      ((fun a => Shape.leaf (make a)) <$> b).run.run supply = (.ok s, supply') → s.Guarded := by
    intro α b make h
    rw [Building.run_map_leaf, Prod.mk.injEq] at h
    obtain ⟨a, -, rfl⟩ := map_eq_ok.1 h.1
    exact .leaf _
  cases plan with
  | axes length thickness =>
    rw [build] at h
    by_cases hextent : (decide (0 < length) && decide (0 < thickness)) = true
    · rw [Shape.run_buildAxes hextent] at h
      cases h
      exact .axes DistanceScale.defaultEpsilon_pos
    · rw [Shape.run_buildAxes_refused hextent] at h
      cases h
  | scene =>
    cases h
    exact .scene DistanceScale.defaultEpsilon_pos fun m hm => by cases hm
  | _ => exact hleaf h

/-! ## Histories of building -/

/-- The same shape with settings of its own changed: its look, how it is intersected, its guard. -/
inductive Restyled : Shape K → Shape K → Prop where
  /-- A sphere with another look, intersected another way. -/
  | sphere (s : Sphere K) (method : SphereMethod) (material : Material K) :
    Restyled (.leaf (.sphere s)) (.leaf (.sphere { s with method, material }))
  /-- A plane with another look. -/
  | plane (p : Plane K) (material : Material K) :
    Restyled (.leaf (.plane p)) (.leaf (.plane { p with material }))
  /-- A surface with another look. -/
  | surface (s : Surface K) (material : Material K) :
    Restyled (.leaf (.surface s)) (.leaf (.surface { s with material }))
  /-- A scene with another guard. -/
  | scene {s t : Scene K} {guard : K} : s.withGuard guard = .ok t → Restyled s.toShape t.toShape

theorem Restyled.ids_eq {s t : Shape K} (h : Restyled s t) : t.ids = s.ids := by
  cases h with
  | scene h =>
    obtain ⟨-, -, rfl⟩ := Scene.withGuard_eq_ok.1 h
    rfl
  | _ => rfl

theorem Restyled.frames_eq {s t : Shape K} (h : Restyled s t) : t.frames = s.frames := by
  cases h with
  | scene h =>
    obtain ⟨-, -, rfl⟩ := Scene.withGuard_eq_ok.1 h
    rfl
  | _ => rfl

theorem Restyled.guarded {s t : Shape K} (h : Restyled s t) (hs : s.Guarded) : t.Guarded := by
  cases h with
  | scene h =>
    obtain ⟨-, hguard, rfl⟩ := Scene.withGuard_eq_ok.1 h
    cases hs with
    | scene _ hmembers => exact .scene hguard hmembers
  | _ => exact .leaf _

/-- What a history of building with one supply has led to: the state of the supply, the shapes at
hand, which are those that have not become part of another one, and the numbers of the leaves that
have been copied. -/
inductive Assembly : IdSupply → List (Shape K) → List ShapeId → Prop where
  /-- Nothing has been built. -/
  | start : Assembly .fresh [] []
  /-- A shape is built. -/
  | build {supply supply' : IdSupply} {shapes : List (Shape K)} {copied : List ShapeId}
    (plan : Plan K) {s : Shape K} :
    Assembly supply shapes copied → plan.build.run.run supply = (.ok s, supply') →
      Assembly supply' (s :: shapes) copied
  /-- A shape is refused. -/
  | refuse {supply supply' : IdSupply} {shapes : List (Shape K)} {copied : List ShapeId}
    (plan : Plan K) {err : EvalError K} :
    Assembly supply shapes copied → plan.build.run.run supply = (.error err, supply') →
      Assembly supply' shapes copied
  /-- A number is taken for something else. -/
  | issue {supply : IdSupply} {shapes : List (Shape K)} {copied : List ShapeId} :
    Assembly supply shapes copied → Assembly (IdSupply.issue.run supply).2 shapes copied
  /-- A leaf is copied, its number included. -/
  | copy {supply : IdSupply} {shapes : List (Shape K)} {copied : List ShapeId} {l : Leaf K} :
    Assembly supply (.leaf l :: shapes) copied →
      Assembly supply (.leaf l :: .leaf l :: shapes) (l.id :: copied)
  /-- A shape is given other settings. -/
  | restyle {supply : IdSupply} {shapes : List (Shape K)} {copied : List ShapeId}
    {s t : Shape K} :
    Assembly supply (s :: shapes) copied → Restyled s t → Assembly supply (t :: shapes) copied
  /-- A shape becomes the last member of a scene. -/
  | add {supply : IdSupply} {shapes : List (Shape K)} {copied : List ShapeId} {scene : Scene K}
    {member : Shape K} :
    Assembly supply (scene.toShape :: member :: shapes) copied →
      Assembly supply ((scene.add member).toShape :: shapes) copied
  /-- A shape is thrown away. -/
  | discard {supply : IdSupply} {shapes : List (Shape K)} {copied : List ShapeId}
    {s : Shape K} :
    Assembly supply (s :: shapes) copied → Assembly supply shapes copied
  /-- The shapes at hand have no order. -/
  | reorder {supply : IdSupply} {shapes shapes' : List (Shape K)} {copied : List ShapeId} :
    Assembly supply shapes copied → shapes.Perm shapes' → Assembly supply shapes' copied

/-- Which of the numbers in use may be used more than once: those of leaves that have been copied,
none of a scene or of axes.  All of them have been issued. -/
structure IdSupply.Accounts (supply : IdSupply) (used frames copied : List ShapeId) : Prop where
  /-- What is used more than once is the number of a leaf that has been copied. -/
  repeated : ∀ i, 1 < used.count i → i ∈ copied ∧ i ∉ frames
  /-- The number has been issued. -/
  issued : ∀ i ∈ used, i.number < supply.issued

namespace IdSupply

variable {supply supply' : IdSupply} {used used' frames frames' copied : List ShapeId}

omit [Scalar K] in
theorem mem_between {i : ShapeId} (h : i ∈ supply.between supply') :
    supply.issued ≤ i.number ∧ i.number < supply'.issued := by
  unfold between at h
  obtain ⟨n, hn, rfl⟩ := List.mem_map.1 h
  have := List.mem_range'_1.1 hn
  show supply.issued ≤ n ∧ n < supply'.issued
  omega

omit [Scalar K] in
theorem nodup_between : (supply.between supply').Nodup := by
  refine List.Nodup.map ?_ List.nodup_range'
  intro m n h
  exact congrArg ShapeId.number h

omit [Scalar K] in
/-- The numbers issued next can be used as well. -/
theorem Accounts.between_append (h : supply.Accounts used frames copied)
    (hle : supply.issued ≤ supply'.issued) (hframes : frames' ⊆ supply.between supply') :
    supply'.Accounts (supply.between supply' ++ used) (frames' ++ frames) copied := by
  constructor
  · intro i hi
    rw [List.count_append] at hi
    have hnew : i ∉ supply.between supply' := by
      intro hmem
      have hfresh : used.count i = 0 :=
        List.count_eq_zero.2 fun hused => ((mem_between hmem).1.trans_lt (h.issued i hused)).false
      have honce : (supply.between supply').count i ≤ 1 :=
        List.nodup_iff_count_le_one.1 nodup_between i
      omega
    rw [List.count_eq_zero.2 hnew, zero_add] at hi
    obtain ⟨hcopied, hi⟩ := h.repeated i hi
    refine ⟨hcopied, fun hmem => ?_⟩
    rcases List.mem_append.1 hmem with hmem | hmem
    · exact hnew (hframes hmem)
    · exact hi hmem
  · intro i hi
    rcases List.mem_append.1 hi with hi | hi
    · exact (mem_between hi).2
    · exact (h.issued i hi).trans_le hle

omit [Scalar K] in
/-- The number of a leaf can be used once more. -/
theorem Accounts.copy {i : ShapeId} (h : supply.Accounts (i :: used) frames copied)
    (hframes : frames ⊆ used) : supply.Accounts (i :: i :: used) frames (i :: copied) := by
  constructor
  · intro j hj
    by_cases heq : j = i
    · subst heq
      refine ⟨List.mem_cons_self, fun hmem => ?_⟩
      -- otherwise it is used twice already
      have htwice : 1 < (j :: used).count j := by
        have := List.count_pos_iff.2 (hframes hmem)
        rw [List.count_cons_self]
        omega
      exact (h.repeated j htwice).2 hmem
    · rw [List.count_cons_of_ne (Ne.symm heq)] at hj
      obtain ⟨hcopied, hj⟩ := h.repeated j hj
      exact ⟨List.mem_cons_of_mem _ hcopied, hj⟩
  · intro j hj
    exact h.issued j (by simpa using hj)

omit [Scalar K] in
theorem Accounts.of_subperm (h : supply.Accounts used frames copied)
    (hused : used'.Subperm used) (hframes : frames' ⊆ frames) :
    supply.Accounts used' frames' copied := by
  constructor
  · intro i hi
    obtain ⟨hcopied, hi⟩ := h.repeated i (hi.trans_le (hused.count_le i))
    exact ⟨hcopied, fun hmem => hi (hframes hmem)⟩
  · intro i hi
    exact h.issued i (hused.subset hi)

omit [Scalar K] in
theorem Accounts.mono (h : supply.Accounts used frames copied)
    (hle : supply.issued ≤ supply'.issued) : supply'.Accounts used frames copied :=
  ⟨h.repeated, fun i hi => (h.issued i hi).trans_le hle⟩

end IdSupply

open Shape (idsOfAll framesOfAll)

namespace Assembly

variable {supply : IdSupply} {shapes : List (Shape K)} {copied : List ShapeId}

/-- Whatever has been built, refused, copied, put together and thrown away: only the numbers of
leaves that have been copied are used more than once. -/
theorem accounts (h : Assembly supply shapes copied) :
    supply.Accounts (idsOfAll shapes) (framesOfAll shapes) copied := by
  induction h with
  | start => exact ⟨fun i hi => by simp [idsOfAll] at hi, fun i hi => by cases hi⟩
  | @build supply supply' shapes copied plan s _ hrun ih =>
    obtain ⟨hle, hids⟩ := plan.numbers_build supply
    rw [hrun] at hle hids
    have hids : s.ids = supply.between supply' := hids s rfl
    rw [idsOfAll, framesOfAll, hids]
    exact ih.between_append hle (hids ▸ s.frames_subset_ids)
  | @refuse supply supply' _ _ plan _ _ hrun ih =>
    obtain ⟨hle, -⟩ := plan.numbers_build supply
    rw [hrun] at hle
    exact ih.mono hle
  | issue _ ih => exact ih.mono (Nat.le_succ _)
  | @copy _ shapes _ l _ ih => exact ih.copy (Shape.framesOfAll_subset_idsOfAll shapes)
  | restyle _ hrestyled ih =>
    rw [idsOfAll, framesOfAll, hrestyled.ids_eq, hrestyled.frames_eq]
    exact ih
  | @add _ shapes _ scene member _ ih =>
    simpa [idsOfAll, framesOfAll, Shape.idsOfAll_eq_flatMap, Shape.framesOfAll_eq_flatMap,
      Scene.toShape, Scene.add, Shape.ids, Shape.frames] using ih
  | discard _ ih =>
    rw [idsOfAll, framesOfAll] at ih
    exact ih.of_subperm (List.sublist_append_right _ _).subperm (List.subset_append_right _ _)
  | reorder _ hperm ih =>
    rw [Shape.idsOfAll_eq_flatMap, Shape.framesOfAll_eq_flatMap] at *
    exact ih.of_subperm (hperm.flatMap_right _).symm.subperm (hperm.flatMap_right _).symm.subset

/-- The shapes at hand have positive guards. -/
theorem guarded [DistanceScale K] (h : Assembly supply shapes copied) :
    ∀ s ∈ shapes, s.Guarded := by
  induction h with
  | start =>
    intro s hs
    cases hs
  | build plan _ hrun ih => exact List.forall_mem_cons.2 ⟨Plan.guarded_of_build hrun, ih⟩
  | refuse _ _ _ ih => exact ih
  | issue _ ih => exact ih
  | copy _ ih => exact List.forall_mem_cons.2 ⟨.leaf _, ih⟩
  | restyle _ hrestyled ih =>
    obtain ⟨hs, hshapes⟩ := List.forall_mem_cons.1 ih
    exact List.forall_mem_cons.2 ⟨hrestyled.guarded hs, hshapes⟩
  | add _ ih =>
    obtain ⟨hscene, hrest⟩ := List.forall_mem_cons.1 ih
    obtain ⟨hmember, hshapes⟩ := List.forall_mem_cons.1 hrest
    refine List.forall_mem_cons.2 ⟨?_, hshapes⟩
    cases hscene with
    | scene hguard hmembers =>
      refine .scene hguard fun m hm => ?_
      rcases List.mem_append.1 hm with hm | hm
      · exact hmembers m hm
      · rw [List.mem_singleton.1 hm]
        exact hmember
  | discard _ ih => exact (List.forall_mem_cons.1 ih).2
  | reorder _ hperm ih =>
    intro s hs
    exact ih s (hperm.mem_iff.2 hs)

/-- No leaf in a scene has the number of the scene. -/
theorem leaf_id_ne (h : Assembly supply shapes copied) {scene : Scene K} {leaf : Leaf K}
    (hscene : scene.toShape ∈ shapes) (hleaf : leaf ∈ scene.toShape.leaves) :
    leaf.id ≠ scene.id := by
  intro heq
  have hids : scene.toShape.ids.Sublist (idsOfAll shapes) := by
    rw [Shape.idsOfAll_eq_flatMap]
    exact List.sublist_flatten_of_mem (List.mem_map_of_mem hscene)
  have hframe : scene.id ∈ framesOfAll shapes := by
    rw [Shape.framesOfAll_eq_flatMap]
    exact List.mem_flatMap.2 ⟨_, hscene, List.mem_cons_self⟩
  have htwice : 1 < scene.toShape.ids.count scene.id := by
    have hmem : scene.id ∈ idsOfAll scene.members := heq ▸ Shape.id_mem_idsOfAll hleaf
    have := List.count_pos_iff.2 hmem
    show 1 < (scene.id :: idsOfAll scene.members).count scene.id
    rw [List.count_cons_self]
    omega
  exact (h.accounts.repeated _ (htwice.trans_le (hids.count_le _))).2 hframe

/-- Whatever has been built, refused, copied, put together and thrown away: all parts of the shapes
at hand have different numbers but for leaves that have been copied and their copies.  For a scene
among them and every ray and bound, a hit is one on a leaf of the scene, and the look the scene
gives to it is the one the leaf gives to it.  A trace tells the number of the leaf, that look and
the point of the ray at the distance of the hit, if the bound does not cut the window of a surface
or the scene reports the same without a bound. -/
theorem attributes_hits [DistanceScale K] (h : Assembly supply shapes copied) :
    (copied = [] → (shapes.flatMap Shape.ids).Nodup) ∧
      (∀ i, 1 < (shapes.flatMap Shape.ids).count i →
        i ∈ copied ∧ i ∉ shapes.flatMap Shape.frames) ∧
      ∀ scene : Scene K, scene.toShape ∈ shapes → ∀ ray best hit,
        scene.toShape.intersect ray best = .ok hit → hit.isHit = true →
          ∃ leaf ∈ scene.toShape.leaves, hit.IsOn ray leaf ∧
            scene.toShape.shading hit = leaf.shading hit ∧
            ((∀ t, .surface t ∈ scene.toShape.leaves → Scalar.UpTo t.finder.maxDistance best) ∨
                scene.toShape.intersect ray Scalar.infinity = .ok hit →
              ∀ shading, leaf.shading hit = .ok shading →
                scene.trace ray =
                  .ok (some ⟨hit.distance, ray.pointAt hit.distance, leaf.id, shading⟩)) := by
  have hrepeated : ∀ i, 1 < (shapes.flatMap Shape.ids).count i →
      i ∈ copied ∧ i ∉ shapes.flatMap Shape.frames := by
    rw [← Shape.idsOfAll_eq_flatMap, ← Shape.framesOfAll_eq_flatMap]
    exact h.accounts.repeated
  refine ⟨?_, hrepeated, ?_⟩
  · rintro rfl
    refine List.nodup_iff_count_le_one.2 fun i => not_lt.1 fun hi => ?_
    cases (hrepeated i hi).1
  · intro scene hscene ray best hit hintersect hhit
    have howner : hit.owner ≠ none := by
      intro hnone
      simp [Hit.isHit, hnone] at hhit
    obtain ⟨leaf, hleaf, hon⟩ := (Shape.isOn_of_intersect hintersect).resolve_left howner
    have hid : leaf.id ≠ scene.id := h.leaf_id_ne hscene hleaf
    refine ⟨leaf, hleaf, hon, Shape.sceneShading_eq hon.owner hid, ?_⟩
    intro hunbounded shading hlook
    refine Scene.trace_eq (hunbounded.elim (fun huncut => ?_) id) hon hlook
    exact Scene.intersect_infinity (h.guarded _ hscene) huncut hintersect howner

end Assembly

end

/-! ### Axes two scenes deep, and two lanterns -/

/-- Axes of length four. -/
def frameAxes : Shape Float :=
  .axes ⟨1⟩ ⟨2⟩ [.along ⟨3⟩ .x 4 0.5, .along ⟨4⟩ .y 4 0.5, .along ⟨5⟩ .z 4 0.5]

/-- A scene of axes. -/
def pavilion : Scene Float := ⟨⟨0⟩, defaultEpsilon, [frameAxes]⟩

/-- A ball above the first rod. -/
def lantern : Leaf Float := .sphere ⟨⟨8⟩, ⟨2, 0, 3⟩, 1, .quadratic, .standard⟩

/-- A scene that holds a lantern, a copy of it and the pavilion. -/
def courtyard : Scene Float :=
  ⟨⟨9⟩, defaultEpsilon, [.leaf lantern, .leaf lantern, pavilion.toShape]⟩

/-- The courtyard is put together although a sphere and other axes have been refused, the latter
after they had been given numbers. -/
theorem assembly_courtyard : Assembly ⟨10⟩ [courtyard.toShape] [⟨8⟩] := by
  have hsphere : (Plan.sphere 0 (0 : Float)).build.run.run ⟨1⟩ =
      (.error (.invalidConstruction (.sphereRadius 0)), ⟨1⟩) := by
    have h : ¬(Scalar.isFinite (0 : Float) && decide ((0 : Float) < 0)) = true := by
      decide +kernel
    simp only [Plan.build, Sphere.build, h]
    rfl
  have hlantern : (Plan.sphere ⟨2, 0, 3⟩ (1 : Float)).build.run.run ⟨8⟩ =
      (.ok (.leaf lantern), ⟨9⟩) := by
    have h : (Scalar.isFinite (1 : Float) && decide ((0 : Float) < 1)) = true := by
      decide +kernel
    simp only [Plan.build, Sphere.build, h, if_true]
    rfl
  have hbuilt := @Shape.run_buildAxes Float _ 4 0.5 (by decide +kernel) ⟨1⟩
  have hrefused := @Shape.run_buildAxes_refused Float _ 4 0 (by decide +kernel) ⟨6⟩
  have hinner : Assembly ⟨1⟩ [(⟨⟨0⟩, defaultEpsilon, []⟩ : Scene Float).toShape] [] :=
    .build .scene .start rfl
  have hparts : Assembly ⟨6⟩
      [frameAxes, (⟨⟨0⟩, defaultEpsilon, []⟩ : Scene Float).toShape] [] :=
    .build (.axes 4 0.5) (.refuse (.sphere 0 0) hinner hsphere) hbuilt
  have hpavilion : Assembly ⟨8⟩ [pavilion.toShape] [] :=
    .add (.reorder (.refuse (.axes 4 0) hparts hrefused) (.swap ..))
  have hlanterns : Assembly ⟨9⟩ [.leaf lantern, .leaf lantern, pavilion.toShape] [⟨8⟩] :=
    .copy (.build (.sphere ⟨2, 0, 3⟩ 1) hpavilion hlantern)
  exact .add (.add (.add (.build .scene hlanterns rfl)))

/-- Straight down onto the lanterns and the first rod. -/
def downward : Ray Float := ⟨⟨2, 0, 8⟩, ⟨0, 0, -1⟩⟩

/-- Under the bound five, a hit in the courtyard is one on a lantern, and a trace tells the number
that the two of them share. -/
theorem Assembly.attributes_hits_courtyard :
    (∀ i, 1 < courtyard.toShape.ids.count i → i = ⟨8⟩) ∧ ∃ hit leaf,
      courtyard.toShape.intersect downward 5 = .ok hit ∧ hit.isHit = true ∧
        leaf.id = ⟨8⟩ ∧ hit.IsOn downward leaf ∧
        courtyard.toShape.shading hit = leaf.shading hit ∧
        ∃ shading, courtyard.trace downward =
          .ok (some ⟨hit.distance, downward.pointAt hit.distance, ⟨8⟩, shading⟩) := by
  obtain ⟨-, hrepeated, hhits⟩ := attributes_hits assembly_courtyard
  refine ⟨fun i hi => List.mem_singleton.1 (hrepeated i (by simpa using hi)).1, ?_⟩
  have hrun : (match courtyard.toShape.intersect downward 5 with
      | .ok hit => hit.isHit && hit.owner.map Leaf.id == some ⟨8⟩
      | .error _ => false) = true := by
    decide +kernel
  split at hrun
  · rename_i hit hintersect
    simp only [Bool.and_eq_true, beq_iff_eq] at hrun
    obtain ⟨leaf, hleaf, hon, hshading, htrace⟩ :=
      hhits courtyard (List.mem_singleton_self _) downward 5 hit hintersect hrun.1
    have hid : leaf.id = ⟨8⟩ := by simpa [hon.owner] using hrun.2
    have hclosed : ∀ t, .surface t ∉ courtyard.toShape.leaves := by
      simp [courtyard, pavilion, frameAxes, lantern, Scene.toShape, Shape.leaves,
        Shape.leavesOfAll]
    obtain ⟨shading, hlook⟩ := hon.exists_shading fun t ht => hclosed t (ht ▸ hleaf)
    refine ⟨hit, leaf, hintersect, hrun.1, hid, hon, hshading, shading, ?_⟩
    rw [← hid]
    exact htrace (.inl fun t ht => absurd ht (hclosed t)) shading hlook
  · cases hrun

/-! ### A surface and its copy -/

/-- The plane through seven as an implicit surface that is searched coarsely. -/
def screen : Surface Float where
  id := ⟨0⟩
  field := .binary .sub (.var "x") (.num 7)
  intervalForm := .binary .sub (.var "x") (.num 7)
  gradient := ⟨.num (1 - 0), .num 0, .num 0⟩
  settings := ⟨10, 6, 1, 0⟩
  finder := ⟨10, 6, 1⟩
  material := .standard

/-- A scene that holds a screen and a copy of it. -/
def hall : Scene Float :=
  ⟨⟨1⟩, defaultEpsilon, [.leaf (.surface screen), .leaf (.surface screen)]⟩

/-- From the origin towards the screens. -/
def onward : Ray Float := ⟨⟨0, 0, 0⟩, ⟨1, 0, 0⟩⟩

theorem assembly_hall : Assembly ⟨2⟩ [hall.toShape] [⟨0⟩] := by
  have hscreen : (Plan.surface screen.field screen.settings).build.run.run .fresh =
      (.ok (.leaf (.surface screen)), ⟨1⟩) := by
    -- taking derivatives is by recursion on their weight
    with_unfolding_all rfl
  have hscreens : Assembly ⟨1⟩ [.leaf (.surface screen), .leaf (.surface screen)] [⟨0⟩] :=
    .copy (.build (.surface screen.field screen.settings) .start hscreen)
  exact .add (.add (.build .scene hscreens rfl))

/-- A copy has the number of its original, so that a scene can hold one number twice.  And where a
bound cuts the window of a surface, a trace does not tell the point that was hit under that bound:
under the bound eight, a screen is hit at distance four, and the trace tells distance five. -/
theorem Assembly.copies_share_number :
    Assembly ⟨2⟩ [hall.toShape] [⟨0⟩] ∧ ¬hall.toShape.ids.Nodup ∧
      ∃ near traced, hall.toShape.intersect onward 8 = .ok near ∧ near.isHit = true ∧
        (near.distance == 4) = true ∧ ((onward.pointAt near.distance).x == 4) = true ∧
        hall.trace onward = .ok (some traced) ∧
        (traced.distance == 5) = true ∧ (traced.point.x == 5) = true := by
  have hnear : (match hall.toShape.intersect onward 8 with
      | .ok near => near.isHit && near.distance == 4 && (onward.pointAt near.distance).x == 4
      | .error _ => false) = true := by
    decide +kernel
  have htraced : (match hall.trace onward with
      | .ok traced? => traced?.any fun traced => traced.distance == 5 && traced.point.x == 5
      | .error _ => false) = true := by
    decide +kernel
  refine ⟨assembly_hall, by decide, ?_⟩
  split at hnear
  · rename_i near hintersect
    split at htraced
    · rename_i traced? htrace
      obtain ⟨traced, rfl, hfive⟩ := (Option.any_eq_true _ _).1 htraced
      rw [Bool.and_eq_true, Bool.and_eq_true] at hnear
      rw [Bool.and_eq_true] at hfive
      exact ⟨near, traced, hintersect, hnear.1.1, hnear.1.2, hnear.2, htrace, hfive⟩
    · cases htraced
  · cases hnear

end ZeroSet
