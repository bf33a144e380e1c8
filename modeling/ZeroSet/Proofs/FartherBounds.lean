import ZeroSet.Proofs.Attribution
import ZeroSet.Proofs.FirstNearest

/-!
# The same hit under a farther bound

A shape is told the distance of the closest hit so far.  Two runs are compared here, one under a
bound and one under a farther one.  If it makes no difference to the leaves of a shape which of the
two they are told, then it makes none to the shape: what is reported in front of the nearer bound is
reported under the farther one as well.

* `Shape.Guarded` — trees of scenes with positive guards.
* `Hit.Honest` — a report without a leaf is never taken for a nearer hit.
* `Hit.Agree` — two reports that are the same, or neither of them a hit in front of a bound.
* `Hit.KeepsUp`, `Hit.Agree.keepsUp_closer` — how far two scans under different bounds have got, and
  one step of both.
* `Shape.Guarded.intersect_agree` — what a shape reports in the two runs agrees if what its leaves
  report does.
* `Shape.Guarded.intersect_farther` — where no leaf cares for the bound, the farther run does not
  fail either and reports the same hit.
* `Scene.intersect_infinity` — a scene reports its hits without a bound as well, unless the bound
  cuts the window of a surface.
-/

namespace ZeroSet

variable {K : Type} [Scalar K]

/-- A distance order in which infinity is the farthest of all distances, the distance that is
ignored by default is positive, and the smaller of two distances is the one in front. -/
class DistanceScale (K : Type) [Scalar K] : Prop extends DistanceOrder K where
  /-- What is beyond something is infinity or in front of it. -/
  lt_infinity_or_eq : ∀ a b : K, a < b → b < Scalar.infinity ∨ b = Scalar.infinity
  /-- The default distance is positive. -/
  defaultEpsilon_pos : (0 : K) < defaultEpsilon
  /-- What is in front is the smaller one. -/
  lesser_eq_of_lt : ∀ a b : K, b < a → Scalar.lesser a b = b

instance : DistanceScale Float where
  lt_infinity_or_eq _ _ := Binary64.lt_infinity_or_eq_of_lt
  defaultEpsilon_pos := by decide +kernel
  lesser_eq_of_lt a b h := by
    have hnumber : Scalar.isNaN b = false := by
      rw [Scalar.isNaN, Binary64.beq_self_of_lt h, Bool.not_true]
    rw [Scalar.lesser, hnumber, Bool.or_false]
    exact if_neg fun hle => Binary64.not_le_of_lt h (of_decide_eq_true hle)

/-! ## Trees with positive guards -/

/-- Every scene in the tree has a positive guard, and so has the scene of coordinate axes. -/
inductive Shape.Guarded : Shape K → Prop
  /-- A leaf, which has no guard. -/
  | leaf (l : Leaf K) : Guarded (.leaf l)
  /-- A scene with a positive guard. -/
  | scene {id : ShapeId} {guard : K} {members : List (Shape K)} (hguard : 0 < guard)
    (hmembers : ∀ m ∈ members, Guarded m) : Guarded (.scene id guard members)
  /-- Coordinate axes. -/
  | axes {id frame : ShapeId} {rods : List (Rod K)} (hguard : (0 : K) < defaultEpsilon) :
    Guarded (.axes id frame rods)

theorem Scene.withGuard_eq_ok {s t : Scene K} {guard : K} :
    s.withGuard guard = .ok t ↔
      Scalar.isFinite guard = true ∧ 0 < guard ∧ t = { s with guard } := by
  rw [withGuard]
  split
  · rename_i hguard
    rw [Bool.and_eq_true, decide_eq_true_iff] at hguard
    rw [Except.ok.injEq, and_iff_right hguard.1, and_iff_right hguard.2, eq_comm]
  · rename_i hguard
    rw [Bool.and_eq_true, decide_eq_true_iff, not_and] at hguard
    exact iff_of_false nofun fun h => hguard h.1 h.2.1

/-- A report without a leaf is not between the start and the bound. -/
def Hit.Honest (bound : K) (h : Hit K) : Prop := h.owner = none → ¬h.Within 0 bound

/-- The report is a hit in front of the bound. -/
def Hit.InFront (bound : K) (h : Hit K) : Prop := h.owner ≠ none ∧ h.distance < bound

/-- Two reports that make no difference to someone who has a hit at distance `best`: they are the
same, or neither is a hit in front of it. -/
def Hit.Agree (best : K) (near wide : Hit K) : Prop :=
  near = wide ∨ ¬near.InFront best ∧ ¬wide.InFront best

/-- The one distance is in front of the other one or the same. -/
def Scalar.UpTo (a b : K) : Prop := a < b ∨ a = b

section

variable [DistanceOrder K] {guard best far : K} {ray : Ray K} {hit near wide : Hit K}

theorem Scalar.UpTo.lt_of_lt {a b c : K} (h : Scalar.UpTo b c) (hab : a < b) : a < c := by
  rcases h with hbc | rfl
  · exact trans_of (· < ·) hab hbc
  · exact hab

/-- Beyond a positive guard is beyond the start. -/
theorem Hit.Within.of_pos (h : hit.Within guard best) (hguard : 0 < guard) : hit.Within 0 best :=
  ⟨trans_of (· < ·) hguard h.1, h.2⟩

theorem Scalar.UpTo.trans {a b c : K} (hab : Scalar.UpTo a b) (hbc : Scalar.UpTo b c) :
    Scalar.UpTo a c := by
  rcases hab with hlt | rfl
  · exact .inl (hbc.lt_of_lt hlt)
  · exact hbc

/-- What is accepted beyond a positive guard is a hit. -/
theorem Hit.Honest.inFront {bound : K} (h : hit.Honest bound) (hguard : 0 < guard)
    (hwithin : hit.Within guard bound) (hfront : hit.distance < best) : hit.InFront best :=
  ⟨fun hnone => h hnone (hwithin.of_pos hguard), hfront⟩

theorem Leaf.honest_intersect {leaf : Leaf K} (h : leaf.intersect ray best = .ok hit) :
    hit.Honest best := by
  rcases Leaf.intersect_eq_ok.1 h with ⟨t, -, rfl⟩ | ⟨-, rfl⟩
  · intro howner
    cases howner
  · intro _ hwithin
    exact DistanceOrder.not_pos_neg_one hwithin.1

namespace Shape

/-- What a scan accepts has a leaf. -/
theorem honest_scan (hguard : 0 < guard) {members : List (Shape K)}
    (hmembers : ∀ m ∈ members, ∀ c hit, m.intersect ray c = .ok hit → hit.Honest c)
    {closest : Hit K} (hclosest : closest.Honest best)
    (h : scan guard ray members closest = .ok hit) : hit.Honest best := by
  refine scan_induction hclosest (fun m hm _ candidate _ hcandidate hlo hhi howner => ?_) h
  have hwithin : candidate.Within guard _ := ⟨hlo, hhi⟩
  exact absurd (hwithin.of_pos hguard) (hmembers m hm _ _ hcandidate howner)

/-- Nothing is in front of itself. -/
theorem honest_nothingWithin (best : K) : (Hit.nothingWithin best).Honest best :=
  fun _ hwithin => irrefl_of (· < ·) best hwithin.2

theorem Guarded.honest_intersect {s : Shape K} (hs : s.Guarded)
    (h : s.intersect ray best = .ok hit) : hit.Honest best := by
  induction hs generalizing best hit with
  | leaf l =>
    rw [intersect] at h
    exact Leaf.honest_intersect h
  | scene hguard _ ih =>
    rw [intersect] at h
    exact honest_scan hguard (fun m hm _ _ => ih m hm) (honest_nothingWithin best) h
  | @axes _ _ rods hguard =>
    rw [intersect, ← scan_map_leaf] at h
    refine honest_scan hguard (fun m hm c hit hc => ?_) (honest_nothingWithin best) h
    obtain ⟨l, -, rfl⟩ := List.mem_map.1 hm
    rw [intersect] at hc
    exact Leaf.honest_intersect hc

end Shape

/-! ## One step of two scans -/

/-- How far two scans have got, one of which starts with nothing within `best`: both have found the
same, or the first one has found nothing yet and the other one nothing that is nearer. -/
def Hit.KeepsUp (best : K) (near wide : Hit K) : Prop :=
  near = wide ∨ near = .nothingWithin best ∧ Scalar.UpTo best wide.distance

/-- What two scans end up with makes no difference to someone who has a hit at the bound. -/
theorem Hit.KeepsUp.agree (h : near.KeepsUp best wide) : near.Agree best wide := by
  rcases h with h | ⟨rfl, hle⟩
  · exact .inl h
  · refine .inr ⟨fun hfront => hfront.1 rfl, fun hfront => ?_⟩
    exact irrefl_of (· < ·) _ (hle.lt_of_lt hfront.2)

/-- While the first scan has found nothing, a step of both of them makes a difference to neither or
has them find the same. -/
theorem Hit.Agree.keepsUp_closer {c d closest : Hit K} (h : c.Agree best d) (hguard : 0 < guard)
    (hbest : 0 < best) (hc : c.Honest best) (hd : d.Honest closest.distance)
    (hclosest : Scalar.UpTo best closest.distance) :
    ((nothingWithin best).closer guard c).KeepsUp best (closest.closer guard d) := by
  by_cases hcwithin : c.Within guard best
  · -- the first scan has found a hit, and the second one finds the same
    have heq : c = d := h.resolve_right fun h => h.1 (hc.inFront hguard hcwithin hcwithin.2)
    subst heq
    rw [closer_of_within hcwithin,
      closer_of_within ⟨hcwithin.1, hclosest.lt_of_lt hcwithin.2⟩]
    exact .inl rfl
  · rw [closer_of_not_within hcwithin]
    refine .inr ⟨rfl, ?_⟩
    by_cases hdwithin : d.Within guard closest.distance
    · -- the second scan has found something, which is not nearer than `best`
      rw [closer_of_within hdwithin]
      have hdpos : 0 < d.distance := (hdwithin.of_pos hguard).1
      rcases DistanceOrder.lt_trichotomy_of_pos _ _ hbest hdpos with hlt | heq | hlt
      · exact .inl hlt
      · exact .inr heq
      · have heq : c = d := h.resolve_right fun h => h.2 (hd.inFront hguard hdwithin hlt)
        subst heq
        exact absurd ⟨hdwithin.1, hlt⟩ hcwithin
    · rw [closer_of_not_within hdwithin]
      exact hclosest

/-! ## Two runs -/

namespace Shape

variable {members : List (Shape K)} {start start' : Hit K}

/-- Two scans keep up with each other if what the members report in them agrees. -/
theorem scan_keepsUp (hguard : 0 < guard) (hbest : 0 < best)
    (hguarded : ∀ m ∈ members, m.Guarded)
    (hagree : ∀ m ∈ members, ∀ far near wide, Scalar.UpTo best far →
      m.intersect ray best = .ok near → m.intersect ray far = .ok wide → near.Agree best wide)
    (hstart : start.KeepsUp best start')
    (hnear : scan guard ray members start = .ok near)
    (hwide : scan guard ray members start' = .ok wide) : near.KeepsUp best wide := by
  induction members generalizing start start' with
  | nil =>
    rw [← scan_nil_eq_ok.1 hnear, ← scan_nil_eq_ok.1 hwide]
    exact hstart
  | cons m ms ih =>
    obtain ⟨hm, hms⟩ := List.forall_mem_cons.1 hguarded
    obtain ⟨hmagree, hmsagree⟩ := List.forall_mem_cons.1 hagree
    rcases hstart with rfl | ⟨rfl, hfar⟩
    · rw [hnear] at hwide
      exact .inl (Except.ok.inj hwide)
    · obtain ⟨c, hc, hnear⟩ := scan_cons_eq_ok.1 hnear
      obtain ⟨d, hd, hwide⟩ := scan_cons_eq_ok.1 hwide
      refine ih hms hmsagree ?_ hnear hwide
      exact (hmagree _ c d hfar hc hd).keepsUp_closer hguard hbest (hm.honest_intersect hc)
        (hm.honest_intersect hd) hfar

/-- If the members do not fail under a farther bound, then neither does a scan that keeps up. -/
theorem exists_scan_farther (hguard : 0 < guard) (hbest : 0 < best)
    (hguarded : ∀ m ∈ members, m.Guarded)
    (hagree : ∀ m ∈ members, ∀ far near wide, Scalar.UpTo best far →
      m.intersect ray best = .ok near → m.intersect ray far = .ok wide → near.Agree best wide)
    (hruns : ∀ m ∈ members, ∀ far near, Scalar.UpTo best far → m.intersect ray best = .ok near →
      ∃ wide, m.intersect ray far = .ok wide)
    (hstart : start.KeepsUp best start') (hnear : scan guard ray members start = .ok near) :
    ∃ wide, scan guard ray members start' = .ok wide := by
  induction members generalizing start start' with
  | nil => exact ⟨start', scan_nil_eq_ok.2 rfl⟩
  | cons m ms ih =>
    obtain ⟨hm, hms⟩ := List.forall_mem_cons.1 hguarded
    obtain ⟨hmagree, hmsagree⟩ := List.forall_mem_cons.1 hagree
    obtain ⟨hmruns, hmsruns⟩ := List.forall_mem_cons.1 hruns
    rcases hstart with rfl | ⟨rfl, hfar⟩
    · exact ⟨near, hnear⟩
    · obtain ⟨c, hc, hnear⟩ := scan_cons_eq_ok.1 hnear
      obtain ⟨d, hd⟩ := hmruns _ c hfar hc
      have hstep := (hmagree _ c d hfar hc hd).keepsUp_closer hguard hbest
        (hm.honest_intersect hc) (hm.honest_intersect hd) hfar
      obtain ⟨wide, hwide⟩ := ih hms hmsagree hmsruns hstep hnear
      exact ⟨wide, scan_cons_eq_ok.2 ⟨d, hd, hwide⟩⟩

/-- Where the bound makes no difference to the leaves of a shape, what the shape reports makes no
difference to someone who has a hit at that bound. -/
theorem Guarded.intersect_agree {s : Shape K} (hs : s.Guarded) (hbest : 0 < best)
    (hleaves : ∀ l ∈ s.leaves, ∀ far near wide, Scalar.UpTo best far →
      l.intersect ray best = .ok near → l.intersect ray far = .ok wide → near.Agree best wide)
    (hfar : Scalar.UpTo best far) (hnear : s.intersect ray best = .ok near)
    (hwide : s.intersect ray far = .ok wide) : near.Agree best wide := by
  induction hs generalizing far near wide with
  | leaf l =>
    rw [intersect] at hnear hwide
    refine hleaves l ?_ far near wide hfar hnear hwide
    rw [leaves]
    exact List.mem_singleton_self l
  | @scene _ guard members hguard hmembers ih =>
    rw [intersect] at hnear hwide
    refine (scan_keepsUp hguard hbest hmembers
      (fun m hm far near wide hfar => ih m hm (fun l hl => hleaves l ?_) hfar)
      (.inr ⟨rfl, hfar⟩) hnear hwide).agree
    rw [leaves]
    exact mem_leavesOfAll.2 ⟨m, hm, hl⟩
  | @axes _ _ rods hguard =>
    rw [intersect, ← scan_map_leaf] at hnear hwide
    refine (scan_keepsUp hguard hbest (fun m hm => ?_)
      (fun m hm far near wide hfar hnear hwide => ?_) (.inr ⟨rfl, hfar⟩) hnear hwide).agree
    · obtain ⟨l, -, rfl⟩ := List.mem_map.1 hm
      exact .leaf l
    · obtain ⟨l, hl, rfl⟩ := List.mem_map.1 hm
      rw [intersect] at hnear hwide
      refine hleaves l ?_ far near wide hfar hnear hwide
      rw [leaves]
      exact hl

end Shape

/-! ## Leaves that do not care for the bound -/

/-- The leaf reports the same under every farther bound. -/
def Leaf.Indifferent (ray : Ray K) (best : K) (leaf : Leaf K) : Prop :=
  ∀ far, Scalar.UpTo best far → leaf.intersect ray far = leaf.intersect ray best

omit [DistanceOrder K] in
theorem Leaf.Indifferent.agree {leaf : Leaf K} (h : leaf.Indifferent ray best)
    (hfar : Scalar.UpTo best far) (hnear : leaf.intersect ray best = .ok near)
    (hwide : leaf.intersect ray far = .ok wide) : near.Agree best wide := by
  rw [h far hfar, hnear] at hwide
  exact .inl (Except.ok.inj hwide)

namespace Shape

theorem Guarded.exists_farther {s : Shape K} (hs : s.Guarded) (hbest : 0 < best)
    (hleaves : ∀ l ∈ s.leaves, l.Indifferent ray best) (hfar : Scalar.UpTo best far)
    (hnear : s.intersect ray best = .ok near) : ∃ wide, s.intersect ray far = .ok wide := by
  induction hs generalizing far near with
  | leaf l =>
    rw [intersect] at hnear ⊢
    exact ⟨near, (hleaves l (by rw [leaves]; exact List.mem_singleton_self l) far hfar).trans hnear⟩
  | @scene _ guard members hguard hmembers ih =>
    have hmleaves : ∀ m ∈ members, ∀ l ∈ m.leaves, l.Indifferent ray best := by
      intro m hm l hl
      refine hleaves l ?_
      rw [leaves]
      exact mem_leavesOfAll.2 ⟨m, hm, hl⟩
    rw [intersect] at hnear ⊢
    refine exists_scan_farther hguard hbest hmembers (fun m hm far near wide hfar => ?_)
      (fun m hm far near hfar => ih m hm (hmleaves m hm) hfar) (.inr ⟨rfl, hfar⟩) hnear
    exact (hmembers m hm).intersect_agree hbest
      (fun l hl _ _ _ hfar => (hmleaves m hm l hl).agree hfar) hfar
  | @axes _ _ rods hguard =>
    rw [leaves] at hleaves
    rw [intersect, ← scan_map_leaf] at hnear ⊢
    have hrod : ∀ m ∈ (rods.map Leaf.rod).map Shape.leaf,
        ∃ l, m = Shape.leaf l ∧ l.Indifferent ray best := by
      intro m hm
      obtain ⟨l, hl, rfl⟩ := List.mem_map.1 hm
      exact ⟨l, rfl, hleaves l hl⟩
    refine exists_scan_farther hguard hbest (fun m hm => ?_)
      (fun m hm far near wide hfar hnear hwide => ?_) (fun m hm far near hfar hnear => ?_)
      (.inr ⟨rfl, hfar⟩) hnear
    · obtain ⟨l, rfl, -⟩ := hrod m hm
      exact .leaf l
    · obtain ⟨l, rfl, hl⟩ := hrod m hm
      rw [intersect] at hnear hwide
      exact hl.agree hfar hnear hwide
    · obtain ⟨l, rfl, hl⟩ := hrod m hm
      rw [intersect] at hnear ⊢
      exact ⟨near, (hl far hfar).trans hnear⟩

/-- A shape whose leaves do not care for a bound reports what it reports in front of that bound
under every farther one. -/
theorem Guarded.intersect_farther {s : Shape K} (hs : s.Guarded) (hbest : 0 < best)
    (hleaves : ∀ l ∈ s.leaves, l.Indifferent ray best) (hfar : Scalar.UpTo best far)
    (h : s.intersect ray best = .ok hit) (hfront : hit.InFront best) :
    s.intersect ray far = .ok hit := by
  obtain ⟨wide, hwide⟩ := hs.exists_farther hbest hleaves hfar h
  have hagree : hit.Agree best wide :=
    hs.intersect_agree hbest (fun l hl _ _ _ hfar => (hleaves l hl).agree hfar) hfar h hwide
  rw [hwide, hagree.resolve_right fun h => h.1 hfront]

/-- What a scene reports as a hit is between its guard and the bound. -/
theorem within_of_intersect_scene {id : ShapeId} {members : List (Shape K)}
    (h : (scene id guard members).intersect ray best = .ok hit) (howner : hit.owner ≠ none) :
    hit.Within guard best := by
  rw [intersect] at h
  have hstart : hit = .nothingWithin best ∨ hit.Within guard best := by
    refine scan_induction (P := fun hit => hit = .nothingWithin best ∨ hit.Within guard best)
      (.inl rfl) (fun m _ closest candidate hclosest _ hlo hhi => .inr ⟨hlo, ?_⟩) h
    rcases hclosest with rfl | hwithin
    · exact hhi
    · exact trans_of (· < ·) hhi hwithin.2
  refine hstart.resolve_left ?_
  rintro rfl
  exact howner rfl

end Shape

end

/-! ## Windows that are not cut -/

section

variable [DistanceScale K] {best : K} {ray : Ray K} {hit : Hit K}

theorem Scalar.UpTo.lesser_eq {a b : K} (h : Scalar.UpTo b a) : Scalar.lesser a b = b := by
  rcases h with hlt | rfl
  · exact DistanceScale.lesser_eq_of_lt a b hlt
  · rw [lesser, ite_self]

/-- A leaf does not care for a bound that does not cut the window it is searched in. -/
theorem Leaf.indifferent {leaf : Leaf K}
    (h : ∀ s, leaf = .surface s → Scalar.UpTo s.finder.maxDistance best) :
    leaf.Indifferent ray best := by
  intro far hfar
  cases leaf with
  | surface s =>
    have hbest : Scalar.UpTo s.finder.maxDistance best := h s rfl
    have hfind : s.findLeaf ray far = s.findLeaf ray best := by
      rw [Surface.findLeaf, Surface.findLeaf, Bisection.findLeafWithin, Bisection.findLeafWithin,
        hbest.lesser_eq, (hbest.trans hfar).lesser_eq]
    rw [intersect, intersect, distance?, distance?, Surface.distance?, Surface.distance?, hfind]
  | _ => rfl

/-- What a scene reports as a hit under a bound that cuts no window of a surface, it reports without
a bound as well. -/
theorem Scene.intersect_infinity {scene : Scene K} (hscene : scene.toShape.Guarded)
    (huncut : ∀ t, .surface t ∈ scene.toShape.leaves → Scalar.UpTo t.finder.maxDistance best)
    (h : scene.toShape.intersect ray best = .ok hit) (howner : hit.owner ≠ none) :
    scene.toShape.intersect ray Scalar.infinity = .ok hit := by
  have hguard : 0 < scene.guard := by
    cases hscene with
    | scene hguard _ => exact hguard
  have hwithin : hit.Within scene.guard best := Shape.within_of_intersect_scene h howner
  have hbest : 0 < best := trans_of (· < ·) (hwithin.of_pos hguard).1 hwithin.2
  exact hscene.intersect_farther hbest (fun l hl => Leaf.indifferent fun t ht => huncut t (ht ▸ hl))
    (DistanceScale.lt_infinity_or_eq _ _ hwithin.2) h ⟨howner, hwithin.2⟩

end

end ZeroSet
