import ZeroSet.Proofs.NestedScenes

/-!
# What a hit is attributed to

A scene passes hits on from its members, members of members included, and asks the leaf that was
hit how it looks.  It recognises itself by its number, so the look is that of the leaf if no leaf in
the scene has this number.

* `Shape.memberInduction` — what scenes take from their members holds of all shapes.
* `Shape.isOn_of_intersect` — what a shape reports is a hit on one of its leaves, or no hit.
* `Shape.sceneShading_eq`, `Scene.trace_eq` — the look that a scene gives to a hit, and what a trace
  tells of it.
-/

namespace ZeroSet

variable {K : Type}

/-! ## Shapes and their members -/

namespace Shape

/-- A property holds of every shape if a scene takes it from its members. -/
theorem memberInduction {P : Shape K → Prop} (leaf : ∀ l, P (.leaf l))
    (scene : ∀ id guard members, (∀ m ∈ members, P m) → P (.scene id guard members))
    (axes : ∀ id frame rods, P (.axes id frame rods)) (s : Shape K) : P s := by
  refine Shape.rec (motive_1 := P) (motive_2 := fun members => ∀ m ∈ members, P m)
    leaf scene axes ?nil ?cons s
  case nil =>
    intro m hm
    cases hm
  case cons =>
    intro m ms hm hms
    exact List.forall_mem_cons.2 ⟨hm, hms⟩

end Shape

/-! ## Hits on leaves -/

section

variable [Scalar K] {guard : K} {ray : Ray K}

/-- A hit on a leaf: the leaf is met by the ray at the distance, the point is the one there, and the
hit is attributed to the leaf. -/
structure Hit.IsOn (ray : Ray K) (leaf : Leaf K) (hit : Hit K) : Prop where
  /-- The leaf is met at the distance. -/
  met : ∃ bound, leaf.distance? ray bound = .ok (some hit.distance)
  /-- The point is the one of the ray at the distance. -/
  point : hit.point = some (ray.pointAt hit.distance)
  /-- The hit is attributed to the leaf. -/
  owner : hit.owner = some leaf

theorem Leaf.isOn_of_intersect {leaf : Leaf K} {best : K} {hit : Hit K}
    (h : leaf.intersect ray best = .ok hit) : hit.owner = none ∨ hit.IsOn ray leaf := by
  rcases Leaf.intersect_eq_ok.1 h with ⟨t, ht, rfl⟩ | ⟨-, rfl⟩
  · exact .inr ⟨⟨best, ht⟩, rfl, rfl⟩
  · exact .inl rfl

/-- A hit on a leaf that is not a surface has a look. -/
theorem Hit.IsOn.exists_shading {leaf : Leaf K} {hit : Hit K} (h : hit.IsOn ray leaf)
    (hleaf : ∀ s, leaf ≠ .surface s) : ∃ shading, leaf.shading hit = .ok shading := by
  rw [Leaf.shading, getPoint, h.point]
  cases leaf with
  | surface s => exact (hleaf s rfl).elim
  | _ => exact ⟨_, rfl⟩

namespace Shape

/-- What a shape reports is a hit on one of its leaves, or no hit. -/
theorem isOn_of_intersect {s : Shape K} {best : K} {hit : Hit K}
    (h : s.intersect ray best = .ok hit) :
    hit.owner = none ∨ ∃ leaf ∈ s.leaves, hit.IsOn ray leaf := by
  induction s using memberInduction generalizing best hit with
  | leaf l =>
    rw [intersect] at h
    rw [leaves]
    simpa using Leaf.isOn_of_intersect h
  | scene id guard members ih =>
    rw [intersect] at h
    rw [leaves]
    refine scan_induction (P := fun hit => hit.owner = none ∨ ∃ leaf ∈ _, hit.IsOn ray leaf)
      (.inl rfl) (fun m hm _ candidate _ hcandidate _ _ => ?_) h
    rcases ih m hm hcandidate with hnone | ⟨leaf, hleaf, hon⟩
    · exact .inl hnone
    · exact .inr ⟨leaf, mem_leavesOfAll.2 ⟨m, hm, hleaf⟩, hon⟩
  | axes id frame rods =>
    rw [intersect, ← scan_map_leaf] at h
    rw [leaves]
    refine scan_induction (P := fun hit => hit.owner = none ∨ ∃ leaf ∈ _, hit.IsOn ray leaf)
      (.inl rfl) (fun m hm _ candidate _ hcandidate _ _ => ?_) h
    obtain ⟨l, hl, rfl⟩ := List.mem_map.1 hm
    rw [intersect] at hcandidate
    rcases Leaf.isOn_of_intersect hcandidate with hnone | hon
    · exact .inl hnone
    · exact .inr ⟨l, hl, hon⟩

/-- A scene whose number no leaf in it has gives a hit the look of the leaf that was hit. -/
theorem sceneShading_eq {own : ShapeId} {hit : Hit K} {leaf : Leaf K}
    (howner : hit.owner = some leaf) (hid : leaf.id ≠ own) :
    sceneShading own hit = leaf.shading hit := by
  simp [sceneShading, howner, hid]

end Shape

/-- A trace tells what is hit without a bound. -/
theorem Scene.trace_eq {scene : Scene K} {hit : Hit K} {leaf : Leaf K} {shading : Shading K}
    (h : scene.toShape.intersect ray Scalar.infinity = .ok hit) (hon : hit.IsOn ray leaf)
    (hlook : leaf.shading hit = .ok shading) :
    scene.trace ray =
      .ok (some ⟨hit.distance, ray.pointAt hit.distance, leaf.id, shading⟩) := by
  simp [trace, h, bind, Except.bind, pure, Except.pure, hon.owner, hon.point, hlook]

end

end ZeroSet
