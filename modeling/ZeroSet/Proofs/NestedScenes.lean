import ZeroSet.Proofs.FloatOrder
import ZeroSet.Proofs.Outcome
import ZeroSet.Shape.Scene
import ZeroSet.Scalar.Binary64

/-!
# Nesting scenes changes nothing

A member of a scene is told the distance of the closest hit so far, and a member that is a scene
itself starts a scan of its own there, with no hit to begin with.  What the inner scan accepts, the
outer one accepts as well, and if the inner one accepts nothing it reports the distance it was
told, which the outer one does not take for a nearer hit.  So the inner scan might as well be the
outer one going on, and a tree of scenes is scanned like the list of its leaves.

All this takes of the numbers is that `<` is a strict order, as it is for floats.

* `Shape.scan_cons_eq_ok`, `Hit.closer_eq` — one step of a scan.
* `Shape.scan_induction` — what every step of a scan keeps.
* `Hit.Follows` — how a scan that starts anew keeps up with the one that goes on.
* `Leaf.scan_restart` — a scan that starts anew ends with the same hit.
* `Shape.Uniform` — trees of scenes that all have the same guard.
* `Shape.intersect_eq_scan_leaves` — a scene and the flat list of its leaves report the same.
-/

namespace ZeroSet

variable {K : Type} [Scalar K] {guard : K} {ray : Ray K}

/-! ## One step of a scan -/

theorem Hit.closer_eq (guard : K) (closest candidate : Hit K) :
    closest.closer guard candidate =
      if guard < candidate.distance ∧ candidate.distance < closest.distance then candidate
      else closest := by
  simp [closer]

/-- Of the two distances at which a ray gets into a shape and out of it, the first one that is far
enough away is taken. -/
theorem find?_ends (near far : K) :
    [near, far].find? (fun t => defaultEpsilon < t) =
      if defaultEpsilon < near then some near
      else if defaultEpsilon < far then some far else none := by
  by_cases hnear : defaultEpsilon < near
  · simp [hnear]
  · by_cases hfar : defaultEpsilon < far
    · simp [hnear, hfar]
    · simp [hnear, hfar]

/-- What is reported of a leaf: it is hit at a distance, or not at all. -/
theorem Leaf.intersect_eq_ok {leaf : Leaf K} {best : K} {hit : Hit K} :
    leaf.intersect ray best = .ok hit ↔
      (∃ t, leaf.distance? ray best = .ok (some t) ∧
        hit = ⟨t, some (ray.pointAt t), some leaf⟩) ∨
      leaf.distance? ray best = .ok none ∧ hit = .miss := by
  rw [intersect]
  constructor
  · intro h
    obtain ⟨t?, ht, h⟩ := bind_eq_ok.1 h
    cases t? with
    | none =>
      cases h
      exact .inr ⟨ht, rfl⟩
    | some t =>
      cases h
      exact .inl ⟨t, ht, rfl⟩
  · rintro (⟨t, ht, rfl⟩ | ⟨ht, rfl⟩)
    · rw [ht]
      rfl
    · rw [ht]
      rfl

namespace Shape

variable {s : Shape K} {ss : List (Shape K)} {closest hit : Hit K}

theorem scan_nil_eq_ok : scan guard ray [] closest = .ok hit ↔ closest = hit := by
  rw [scan, Except.ok.injEq]

theorem scan_cons_eq_ok :
    scan guard ray (s :: ss) closest = .ok hit ↔
      ∃ candidate, s.intersect ray closest.distance = .ok candidate ∧
        scan guard ray ss (closest.closer guard candidate) = .ok hit := by
  rw [scan, bind_eq_ok]

/-- A scan ends with a hit that has every property that it starts with and that accepting a
candidate keeps. -/
theorem scan_induction {P : Hit K → Prop} {members : List (Shape K)} {closest hit : Hit K}
    (hclosest : P closest)
    (haccept : ∀ m ∈ members, ∀ closest candidate, P closest →
      m.intersect ray closest.distance = .ok candidate → guard < candidate.distance →
        candidate.distance < closest.distance → P candidate)
    (h : scan guard ray members closest = .ok hit) : P hit := by
  induction members generalizing closest with
  | nil =>
    rw [← scan_nil_eq_ok.1 h]
    exact hclosest
  | cons m ms ih =>
    obtain ⟨candidate, hcandidate, hrest⟩ := scan_cons_eq_ok.1 h
    refine ih ?_ (fun m hm => haccept m (List.mem_cons_of_mem _ hm)) hrest
    rw [Hit.closer_eq]
    split
    · rename_i haccepted
      exact haccept m (List.mem_cons_self ..) _ _ hclosest hcandidate haccepted.1 haccepted.2
    · exact hclosest

/-- The rods of coordinate axes are scanned as the members of a scene are. -/
theorem scan_map_leaf (guard : K) (ray : Ray K) (ls : List (Leaf K)) (closest : Hit K) :
    scan guard ray (ls.map .leaf) closest = Leaf.scan guard ray ls closest := by
  induction ls generalizing closest with
  | nil => rw [List.map_nil, scan, Leaf.scan]
  | cons l ls ih =>
    rw [List.map_cons, scan, Leaf.scan, intersect]
    congr 1
    funext candidate
    exact ih _

omit [Scalar K] in
theorem mem_leavesOfAll {l : Leaf K} {ss : List (Shape K)} :
    l ∈ leavesOfAll ss ↔ ∃ s ∈ ss, l ∈ s.leaves := by
  induction ss with
  | nil => simp [leavesOfAll]
  | cons s ss ih => simp [leavesOfAll, ih]

end Shape

/-! ## Scans that start anew -/

/-- A scan that was started anew at the distance of the hit `start` has come as far as one that
went on from that hit: either it has found nothing and the other one still has `start`, or both
have found the same, nearer than `start`. -/
def Hit.Follows (guard : K) (start fresh going : Hit K) : Prop :=
  fresh = .nothingWithin start.distance ∧ going = start ∨
    fresh = going ∧ guard < going.distance ∧ going.distance < start.distance

namespace Hit.Follows

variable {start fresh going : Hit K}

/-- Both scans tell the next leaf the same distance. -/
theorem distance_eq (h : Follows guard start fresh going) : fresh.distance = going.distance := by
  rcases h with ⟨rfl, rfl⟩ | ⟨rfl, -, -⟩
  · rfl
  · rfl

variable [IsStrictOrder K (· < ·)]

/-- Both scans accept the next candidate or neither does. -/
theorem closer (h : Follows guard start fresh going) (candidate : Hit K) :
    Follows guard start (fresh.closer guard candidate) (going.closer guard candidate) := by
  rw [closer_eq, closer_eq, h.distance_eq]
  split
  · rename_i haccepted
    obtain ⟨hguard, hcandidate⟩ := haccepted
    right
    refine ⟨rfl, hguard, ?_⟩
    rcases h with ⟨-, rfl⟩ | ⟨-, -, hnearer⟩
    · exact hcandidate
    · exact trans_of (· < ·) hcandidate hnearer
  · exact h

/-- Someone who has the hit `start` ends up with what the scan that went on has found. -/
theorem closer_fresh (h : Follows guard start fresh going) : start.closer guard fresh = going := by
  rw [closer_eq]
  rcases h with ⟨rfl, rfl⟩ | ⟨rfl, hguard, hnearer⟩
  · -- the distance that was told is not nearer than itself
    exact if_neg fun haccepted => irrefl_of (· < ·) _ haccepted.2
  · exact if_pos ⟨hguard, hnearer⟩

end Hit.Follows

namespace Leaf

theorem scan_append (ls ls' : List (Leaf K)) (closest : Hit K) :
    scan guard ray (ls ++ ls') closest =
      scan guard ray ls closest >>= fun hit => scan guard ray ls' hit := by
  induction ls generalizing closest with
  | nil => rfl
  | cons l ls ih =>
    rw [List.cons_append, scan, scan, bind_assoc]
    congr 1
    funext candidate
    exact ih _

variable [IsStrictOrder K (· < ·)]

/-- The invariant of two scans holds to the end of the list, unless both fail at the same leaf. -/
theorem scan_follows {start fresh going : Hit K} (h : Hit.Follows guard start fresh going)
    (ls : List (Leaf K)) :
    scan guard ray ls going = (scan guard ray ls fresh).map (start.closer guard) := by
  induction ls generalizing fresh going with
  | nil =>
    rw [scan, scan, ← h.closer_fresh]
    rfl
  | cons l ls ih =>
    rw [scan, scan, h.distance_eq]
    cases l.intersect ray going.distance with
    | error err => rfl
    | ok candidate => exact ih (h.closer candidate)

/-- To go on with a scan is to start a new one at the distance of the closest hit so far and to
keep that hit if the new scan finds none. -/
theorem scan_restart (ls : List (Leaf K)) (closest : Hit K) :
    scan guard ray ls closest =
      (scan guard ray ls (.nothingWithin closest.distance)).map (closest.closer guard) :=
  scan_follows (.inl ⟨rfl, rfl⟩) ls

end Leaf

/-! ## Trees of scenes -/

namespace Shape

/-- Every scene in the tree has the same guard; the scene of coordinate axes has the one that
scenes have if nothing else is asked for. -/
inductive Uniform (guard : K) : Shape K → Prop
  /-- A leaf, which has no guard. -/
  | leaf {l : Leaf K} : Uniform guard (.leaf l)
  /-- A scene with the guard, as have the scenes in it. -/
  | scene {id : ShapeId} {members : List (Shape K)} (hmembers : ∀ m ∈ members, Uniform guard m) :
    Uniform guard (.scene id guard members)
  /-- Coordinate axes. -/
  | axes {id frame : ShapeId} {rods : List (Rod K)} (hguard : guard = defaultEpsilon) :
    Uniform guard (.axes id frame rods)

/-- If a step of a scan over a member is a scan over the leaves of the member, a scan over some
members is one over all their leaves. -/
theorem scan_eq_scan_leaves {members : List (Shape K)}
    (h : ∀ m ∈ members, ∀ closest : Hit K,
      (m.intersect ray closest.distance).map (closest.closer guard) =
        Leaf.scan guard ray m.leaves closest) (closest : Hit K) :
    scan guard ray members closest = Leaf.scan guard ray (leavesOfAll members) closest := by
  induction members generalizing closest with
  | nil => rw [scan, leavesOfAll, Leaf.scan]
  | cons m ms ih =>
    obtain ⟨hm, hms⟩ := List.forall_mem_cons.1 h
    rw [scan, leavesOfAll, Leaf.scan_append, ← hm]
    cases m.intersect ray closest.distance with
    | error err => rfl
    | ok candidate => exact ih hms _

variable [IsStrictOrder K (· < ·)]

/-- Whatever has been found so far, a step over a tree of scenes is a scan over its leaves. -/
theorem Uniform.step_eq_scan_leaves {s : Shape K} (hs : s.Uniform guard) (closest : Hit K) :
    (s.intersect ray closest.distance).map (closest.closer guard) =
      Leaf.scan guard ray s.leaves closest := by
  induction hs generalizing closest with
  | @leaf l =>
    rw [intersect, leaves, Leaf.scan]
    cases l.intersect ray closest.distance with
    | error err => rfl
    | ok candidate => rfl
  | scene _ ih =>
    rw [intersect, leaves, scan_eq_scan_leaves ih]
    exact (Leaf.scan_restart _ closest).symm
  | axes hguard =>
    subst hguard
    rw [intersect, leaves]
    exact (Leaf.scan_restart _ closest).symm

/-- A scene that holds scenes and coordinate axes to any depth, all with the same guard, reports
for every ray and every bound what a single scan over its leaves from left to right reports, hit
or error. -/
theorem intersect_eq_scan_leaves {id : ShapeId} {members : List (Shape K)}
    (hs : (scene id guard members).Uniform guard) (ray : Ray K) (best : K) :
    (scene id guard members).intersect ray best =
      Leaf.scan guard ray (leavesOfAll members) (.nothingWithin best) := by
  cases hs with
  | scene hmembers =>
    rw [intersect]
    exact scan_eq_scan_leaves (fun m hm => (hmembers m hm).step_eq_scan_leaves) _

/-- The plane across the first axis at a distance. -/
def planeAt (x : Float) : Plane Float := ⟨⟨0⟩, ⟨x, 0, 0⟩, ⟨1, 0, 0⟩, .standard⟩

/-- A rod from the origin along the first axis. -/
def thinRod : Rod Float := ⟨⟨1⟩, ⟨0, -0.1, -0.1⟩, ⟨5, 0.1, 0.1⟩, .standard⟩

/-- A plane two scenes deep, next to coordinate axes and in front of a nearer plane. -/
theorem intersect_eq_scan_leaves_nested :
    (scene ⟨2⟩ defaultEpsilon [scene ⟨3⟩ defaultEpsilon [scene ⟨4⟩ defaultEpsilon
        [leaf (.plane (planeAt 7))], axes ⟨5⟩ ⟨6⟩ [thinRod]], leaf (.plane (planeAt 4))]).intersect
          ⟨⟨1, 1, 1⟩, ⟨1, 0, 0⟩⟩ 100 =
      Leaf.scan defaultEpsilon ⟨⟨1, 1, 1⟩, ⟨1, 0, 0⟩⟩
        [.plane (planeAt 7), .rod thinRod, .plane (planeAt 4)] (.nothingWithin 100) := by
  refine intersect_eq_scan_leaves (.scene ?_) _ _
  have hinner : Uniform (defaultEpsilon : Float)
      (scene ⟨4⟩ defaultEpsilon [leaf (.plane (planeAt 7))]) := by
    refine .scene fun m hm => ?_
    rw [List.mem_singleton.1 hm]
    exact .leaf
  have hmiddle : Uniform (defaultEpsilon : Float) (scene ⟨3⟩ defaultEpsilon
      [scene ⟨4⟩ defaultEpsilon [leaf (.plane (planeAt 7))], axes ⟨5⟩ ⟨6⟩ [thinRod]]) := by
    refine .scene ?_
    simp only [List.forall_mem_cons]
    exact ⟨hinner, .axes rfl, by simp⟩
  simp only [List.forall_mem_cons]
  exact ⟨hmiddle, .leaf, by simp⟩

end Shape

end ZeroSet
