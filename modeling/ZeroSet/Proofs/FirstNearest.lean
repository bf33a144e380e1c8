import ZeroSet.Proofs.Exact
import ZeroSet.Proofs.NestedScenes

/-!
# The first of the nearest children

A scene keeps the nearest of what its children report, and replaces it only by something nearer
still.  If what a child reports does not depend on the bound it is given, as with spheres, planes
and rods, the order of the children matters for ties alone: the first of several equally near ones
wins.

What this takes of the numbers is that `<` is a strict order in which positive numbers are
comparable.  Floats are ordered like that as well as exact scalars, and what is not a number is
below and above nothing, so it is never selected.

* `DistanceOrder` — such an order.
* `Hit.Within` — reports between the guard and the best distance.
* `Shape.FirstNearest` — the first child with the least distance.
* `Shape.scan_selects` — a scan ends with what that child reports, or with what it started from.
* `Shape.FirstNearest.distance_eq_of_perm` — the least distance does not depend on the order.
* `Leaf.exists_report` — leaves that report the same whatever the bound.
* `Scene.intersect_firstNearest` — the closest hit of a scene, in every order of its children.
-/

namespace ZeroSet

/-! ## Comparing distances -/

/-- A strict order in which positive numbers are comparable. -/
class DistanceOrder (K : Type) [Scalar K] : Prop extends IsStrictOrder K (· < ·) where
  /-- Two positive numbers are the same, or one is less. -/
  lt_trichotomy_of_pos : ∀ a b : K, 0 < a → 0 < b → a < b ∨ a = b ∨ b < a
  /-- What is positive is a number. -/
  isNaN_eq_false_of_pos : ∀ a : K, 0 < a → Scalar.isNaN a = false
  /-- The distance that stands for a miss is not positive. -/
  not_pos_neg_one : ¬(0 : K) < -1

instance {K : Type} [ExactScalar K] : DistanceOrder K where
  lt_trichotomy_of_pos a b _ _ := lt_trichotomy a b
  isNaN_eq_false_of_pos a _ := ExactScalar.isNaN_eq_false a
  not_pos_neg_one := by
    have h : (-1 : K) < 0 := neg_one_lt_zero
    exact h.not_gt

instance : DistanceOrder Float where
  lt_trichotomy_of_pos _ _ := Binary64.lt_trichotomy_of_pos
  isNaN_eq_false_of_pos a h := by
    rw [Scalar.isNaN, Bool.not_eq_false']
    exact Binary64.beq_self_of_pos h
  not_pos_neg_one := by decide

variable {K : Type} [Scalar K] {guard best : K}

/-- Whether a report lies between the guard and the best distance. -/
def Hit.Within (guard best : K) (hit : Hit K) : Prop :=
  guard < hit.distance ∧ hit.distance < best

/-- Two reports are not equally near, or they are not both between the guard and the best
distance. -/
def Hit.Untied (guard best : K) (hit hit' : Hit K) : Prop :=
  hit.Within guard best → hit'.Within guard best → hit.distance ≠ hit'.distance

theorem Hit.closer_of_within {closest candidate : Hit K}
    (h : candidate.Within guard closest.distance) :
    closest.closer guard candidate = candidate := by
  rw [closer_eq]
  exact if_pos h

theorem Hit.closer_of_not_within {closest candidate : Hit K}
    (h : ¬candidate.Within guard closest.distance) :
    closest.closer guard candidate = closest := by
  rw [closer_eq]
  exact if_neg h

namespace Shape

/-- The first of some children with the least distance between the guard and the best distance. -/
structure FirstNearest (guard best : K) (report : Shape K → Hit K) (children : List (Shape K))
    (child : Shape K) : Prop where
  /-- The child is near enough. -/
  within : (report child).Within guard best
  /-- Those before it are farther away, and none behind it is nearer. -/
  split : ∃ before after, children = before ++ child :: after ∧
    (∀ m ∈ before, (report m).Within guard best →
      (report child).distance < (report m).distance) ∧
    ∀ m ∈ after, (report m).Within guard best →
      (report child).distance < (report m).distance ∨
        (report child).distance = (report m).distance

end Shape

section

variable [DistanceOrder K] {a b : K} {hit : Hit K}

/-- Distances beyond a positive guard are comparable. -/
theorem lt_or_eq_of_not_lt (hguard : 0 < guard) (ha : guard < a) (hb : guard < b) (h : ¬b < a) :
    a < b ∨ a = b := by
  have hapos : 0 < a := trans_of (· < ·) hguard ha
  have hbpos : 0 < b := trans_of (· < ·) hguard hb
  rcases DistanceOrder.lt_trichotomy_of_pos a b hapos hbpos with hlt | heq | hlt
  · exact .inl hlt
  · exact .inr heq
  · exact absurd hlt h

theorem Hit.Within.isNaN_eq_false (h : hit.Within guard best) (hguard : 0 < guard) :
    Scalar.isNaN hit.distance = false :=
  DistanceOrder.isNaN_eq_false_of_pos _ (trans_of (· < ·) hguard h.1)

/-- What is within a nearer distance is within a farther one. -/
theorem Hit.Within.mono {nearer : K} (h : hit.Within guard nearer) (hle : nearer < best) :
    hit.Within guard best :=
  ⟨h.1, trans_of (· < ·) h.2 hle⟩

end

namespace Shape

variable {report : Shape K → Hit K} {children children' : List (Shape K)} {m child child' : Shape K}

namespace FirstNearest

theorem mem (h : FirstNearest guard best report children child) : child ∈ children := by
  obtain ⟨before, after, rfl, -, -⟩ := h.split
  exact List.mem_append_right _ (List.mem_cons_self ..)

/-- A child in front that is not near enough changes nothing. -/
theorem cons_of_not_within (h : FirstNearest guard best report children child)
    (hm : ¬(report m).Within guard best) :
    FirstNearest guard best report (m :: children) child := by
  obtain ⟨before, after, rfl, hbefore, hafter⟩ := h.split
  refine ⟨h.within, m :: before, after, rfl, ?_, hafter⟩
  intro c hc hwithin
  rcases List.mem_cons.1 hc with rfl | hc
  · exact absurd hwithin hm
  · exact hbefore c hc hwithin

/-- No child is nearer than the selected one. -/
theorem least (h : FirstNearest guard best report children child) (hm : m ∈ children)
    (hwithin : (report m).Within guard best) :
    (report child).distance < (report m).distance ∨
      (report child).distance = (report m).distance := by
  obtain ⟨before, after, rfl, hbefore, hafter⟩ := h.split
  rcases List.mem_append.1 hm with hm | hm
  · exact .inl (hbefore m hm hwithin)
  · rcases List.mem_cons.1 hm with rfl | hm
    · exact .inr rfl
    · exact hafter m hm hwithin

variable [DistanceOrder K]

/-- A child in front that is farther away changes nothing.  Those that were out of reach, because
they are not nearer than that child, are farther away than the selected one. -/
theorem cons_of_within
    (h : FirstNearest guard (report m).distance report children child) (hguard : 0 < guard)
    (hm : (report m).Within guard best) :
    FirstNearest guard best report (m :: children) child := by
  obtain ⟨before, after, rfl, hbefore, hafter⟩ := h.split
  have hnearer : (report child).distance < (report m).distance := h.within.2
  have hbeyond : ∀ c, (report c).Within guard best → ¬(report c).Within guard (report m).distance →
      (report child).distance < (report c).distance := by
    intro c hc hout
    have hnot : ¬(report c).distance < (report m).distance := fun hlt => hout ⟨hc.1, hlt⟩
    rcases lt_or_eq_of_not_lt hguard hm.1 hc.1 hnot with hlt | heq
    · exact trans_of (· < ·) hnearer hlt
    · exact heq ▸ hnearer
  refine ⟨h.within.mono hm.2, m :: before, after, rfl, ?_, ?_⟩
  · intro c hc hwithin
    rcases List.mem_cons.1 hc with rfl | hc
    · exact hnearer
    · by_cases hin : (report c).Within guard (report m).distance
      · exact hbefore c hc hin
      · exact hbeyond c hwithin hin
  · intro c hc hwithin
    by_cases hin : (report c).Within guard (report m).distance
    · exact hafter c hc hin
    · exact .inl (hbeyond c hwithin hin)

/-- A child that nothing behind it is nearer than is selected if it stands in front. -/
theorem head (hguard : 0 < guard) (hm : (report m).Within guard best)
    (h : ∀ c ∈ children, ¬(report c).Within guard (report m).distance) :
    FirstNearest guard best report (m :: children) m := by
  refine ⟨hm, [], children, rfl, by simp, ?_⟩
  intro c hc hwithin
  exact lt_or_eq_of_not_lt hguard hm.1 hwithin.1 fun hlt => h c hc ⟨hwithin.1, hlt⟩

/-- The least distance does not depend on the order of the children. -/
theorem distance_eq_of_perm (h : FirstNearest guard best report children child)
    (h' : FirstNearest guard best report children' child') (hperm : children'.Perm children) :
    (report child').distance = (report child).distance := by
  have hle := h.least (hperm.mem_iff.1 h'.mem) h'.within
  have hge := h'.least (hperm.mem_iff.2 h.mem) h.within
  rcases hle with hlt | heq
  · rcases hge with hgt | heq
    · exact absurd (trans_of (· < ·) hlt hgt) (irrefl_of (· < ·) _)
    · exact heq
  · exact heq.symm

/-- Without ties the selected child does not depend on the order either. -/
theorem eq_of_perm (h : FirstNearest guard best report children child)
    (h' : FirstNearest guard best report children' child') (hperm : children'.Perm children)
    (huntied : children.Pairwise fun m m' => (report m).Untied guard best (report m')) :
    child' = child := by
  by_contra hne
  have hsymm : Std.Symm fun m m' => (report m).Untied guard best (report m') :=
    ⟨fun _ _ huntied hm hm' => (huntied hm' hm).symm⟩
  have hmem := hperm.mem_iff.1 h'.mem
  exact huntied.forall hmem h.mem hne h'.within h.within (h.distance_eq_of_perm h' hperm)

end FirstNearest

/-! ## What a scan selects -/

variable {ray : Ray K}

/-- A scan over children that report the same whatever the bound ends with the report of the first
one with the least distance, or with what it started from if none is near enough. -/
theorem scan_selects [DistanceOrder K] (hguard : 0 < guard)
    (hreport : ∀ m ∈ children, ∀ bound, m.intersect ray bound = .ok (report m)) (closest : Hit K) :
    ∃ hit, scan guard ray children closest = .ok hit ∧
      ((∃ child, FirstNearest guard closest.distance report children child ∧ hit = report child) ∨
        (∀ m ∈ children, ¬(report m).Within guard closest.distance) ∧ hit = closest) := by
  induction children generalizing closest with
  | nil => exact ⟨closest, scan_nil_eq_ok.2 rfl, .inr ⟨by simp, rfl⟩⟩
  | cons m ms ih =>
    obtain ⟨hm, hms⟩ := List.forall_mem_cons.1 hreport
    obtain ⟨hit, hscan, hselected⟩ := ih hms (closest.closer guard (report m))
    refine ⟨hit, scan_cons_eq_ok.2 ⟨report m, hm _, hscan⟩, ?_⟩
    by_cases hwithin : (report m).Within guard closest.distance
    · rw [Hit.closer_of_within hwithin] at hselected
      rcases hselected with ⟨child, hchild, rfl⟩ | ⟨hnone, rfl⟩
      · exact .inl ⟨child, hchild.cons_of_within hguard hwithin, rfl⟩
      · exact .inl ⟨m, .head hguard hwithin hnone, rfl⟩
    · rw [Hit.closer_of_not_within hwithin] at hselected
      rcases hselected with ⟨child, hchild, rfl⟩ | ⟨hnone, rfl⟩
      · exact .inl ⟨child, hchild.cons_of_not_within hwithin, rfl⟩
      · exact .inr ⟨List.forall_mem_cons.2 ⟨hwithin, hnone⟩, rfl⟩

end Shape

/-! ## Leaves that report the same whatever the bound -/

/-- A leaf makes use of the bound only if it is a surface. -/
theorem Leaf.exists_report {l : Leaf K} (h : ∀ s, l ≠ .surface s) (ray : Ray K) :
    ∃ hit, ∀ bound, l.intersect ray bound = .ok hit := by
  have hdistance : ∃ t?, ∀ bound, l.distance? ray bound = .ok t? := by
    cases l with
    | sphere s => exact ⟨s.distance? ray, fun _ => rfl⟩
    | plane p => exact ⟨p.distance? ray, fun _ => rfl⟩
    | rod r => exact ⟨r.distance? ray, fun _ => rfl⟩
    | surface s => exact absurd rfl (h s)
  obtain ⟨t?, ht⟩ := hdistance
  cases t? with
  | none => exact ⟨.miss, fun bound => Leaf.intersect_eq_ok.2 (.inr ⟨ht bound, rfl⟩)⟩
  | some t => exact ⟨_, fun bound => Leaf.intersect_eq_ok.2 (.inl ⟨t, ht bound, rfl⟩)⟩

/-- What a leaf reports beyond a positive guard is not the distance of a miss. -/
theorem Leaf.owner_of_guard_lt [DistanceOrder K] {l : Leaf K} {ray : Ray K} {hit : Hit K}
    (hguard : 0 < guard) (h : l.intersect ray best = .ok hit) (hbeyond : guard < hit.distance) :
    hit.owner = some l := by
  rcases Leaf.intersect_eq_ok.1 h with ⟨t, -, rfl⟩ | ⟨-, rfl⟩
  · rfl
  · exact absurd (trans_of (· < ·) hguard hbeyond) DistanceOrder.not_pos_neg_one

/-- Spheres, planes and rods report the same whatever the bound. -/
theorem Shape.exists_reports {children : List (Shape K)}
    (h : ∀ m ∈ children, ∃ l, m = .leaf l ∧ ∀ s, l ≠ .surface s) (ray : Ray K) :
    ∃ report : Shape K → Hit K,
      ∀ m ∈ children, ∀ bound, m.intersect ray bound = .ok (report m) := by
  have hreport : ∀ m : Shape K, ∃ hit, m ∈ children → ∀ bound, m.intersect ray bound = .ok hit := by
    intro m
    by_cases hm : m ∈ children
    · obtain ⟨l, rfl, hl⟩ := h m hm
      obtain ⟨hit, hhit⟩ := Leaf.exists_report hl ray
      refine ⟨hit, fun _ bound => ?_⟩
      rw [Shape.intersect]
      exact hhit bound
    · exact ⟨.miss, fun hmem => absurd hmem hm⟩
  choose report hreport using hreport
  exact ⟨report, hreport⟩

theorem Leaf.distance_of_report {l : Leaf K} {ray : Ray K} {hit : Hit K} {t : K}
    (h : (Shape.leaf l).intersect ray best = .ok hit) (ht : l.distance? ray best = .ok (some t)) :
    hit.distance = t := by
  rw [Shape.intersect] at h
  rcases Leaf.intersect_eq_ok.1 h with ⟨t', ht', rfl⟩ | ⟨ht', rfl⟩
  · rw [ht] at ht'
    cases ht'
    rfl
  · rw [ht] at ht'
    cases ht'

/-! ## Scenes -/

namespace Scene

variable [DistanceOrder K]

/-- If what the children of a scene report does not depend on the bound they are given, the scene
reports what the first child with the least distance between its guard and the best distance does,
or the best distance if no child is as near.  No report that is not a number is selected, and one of
a leaf belongs to the leaf.  In another order of the children the distance is the same, and so is
the whole report if no two children are equally near. -/
theorem intersect_firstNearest (s : Scene K) (ray : Ray K) (best : K) (report : Shape K → Hit K)
    (hguard : 0 < s.guard)
    (hreport : ∀ m ∈ s.members, ∀ bound, m.intersect ray bound = .ok (report m)) :
    ∃ hit, s.toShape.intersect ray best = .ok hit ∧
      ((∃ child, Shape.FirstNearest s.guard best report s.members child ∧ hit = report child ∧
          Scalar.isNaN hit.distance = false ∧ ∀ l, child = .leaf l → hit.owner = some l) ∨
        (∀ m ∈ s.members, ¬(report m).Within s.guard best) ∧ hit = .nothingWithin best) ∧
      ∀ members' : List (Shape K), members'.Perm s.members →
        ∃ hit', ({ s with members := members' } : Scene K).toShape.intersect ray best = .ok hit' ∧
          hit'.distance = hit.distance ∧
          (s.members.Pairwise (fun m m' => (report m).Untied s.guard best (report m')) →
            hit' = hit) := by
  obtain ⟨hit, hscan, hselected⟩ :=
    Shape.scan_selects hguard hreport (.nothingWithin best)
  refine ⟨hit, hscan, ?_, fun members' hperm => ?_⟩
  · rcases hselected with ⟨child, hchild, rfl⟩ | hnone
    · refine .inl ⟨child, hchild, rfl, hchild.within.isNaN_eq_false hguard, ?_⟩
      rintro l rfl
      have hleaf := hreport _ hchild.mem best
      rw [Shape.intersect] at hleaf
      exact Leaf.owner_of_guard_lt hguard hleaf hchild.within.1
    · exact .inr hnone
  · have hreport' : ∀ m ∈ members', ∀ bound, m.intersect ray bound = .ok (report m) :=
      fun m hm => hreport m (hperm.mem_iff.1 hm)
    obtain ⟨hit', hscan', hselected'⟩ :=
      Shape.scan_selects hguard hreport' (.nothingWithin best)
    refine ⟨hit', hscan', ?_⟩
    rcases hselected with ⟨child, hchild, rfl⟩ | ⟨hnone, rfl⟩
    · rcases hselected' with ⟨child', hchild', rfl⟩ | ⟨hnone', -⟩
      · refine ⟨hchild.distance_eq_of_perm hchild' hperm, fun huntied => ?_⟩
        rw [hchild.eq_of_perm hchild' hperm huntied]
      · exact absurd hchild.within (hnone' child (hperm.mem_iff.2 hchild.mem))
    · rcases hselected' with ⟨child', hchild', -⟩ | ⟨-, rfl⟩
      · exact absurd hchild'.within (hnone child' (hperm.mem_iff.1 hchild'.mem))
      · exact ⟨rfl, fun _ => rfl⟩

/-- A sphere that a ray along the first axis meets at four. -/
def marble : Sphere Float := ⟨⟨2⟩, ⟨5, 0, 0⟩, 1, .quadratic, .standard⟩

/-- The sphere between a rod that reaches beyond it and a plane behind it. -/
def shelf : Scene Float :=
  ⟨⟨3⟩, defaultEpsilon,
    [.leaf (.rod Shape.thinRod), .leaf (.sphere marble), .leaf (.plane (Shape.planeAt 7))]⟩

/-- The sphere is reported, and the same is reported with the children in the opposite order. -/
theorem intersect_firstNearest_shelf :
    ∃ hit, shelf.toShape.intersect ⟨⟨0, 0, 0⟩, ⟨1, 0, 0⟩⟩ 100 = .ok hit ∧
      ({ shelf with members := shelf.members.reverse } : Scene Float).toShape.intersect
        ⟨⟨0, 0, 0⟩, ⟨1, 0, 0⟩⟩ 100 = .ok hit ∧
      hit.distance = 4 ∧ hit.owner = some (.sphere marble) := by
  have hclosed : ∀ m ∈ shelf.members, ∃ l : Leaf Float, m = .leaf l ∧ ∀ s, l ≠ .surface s := by
    simp [shelf]
  obtain ⟨report, hreport⟩ := Shape.exists_reports hclosed ⟨⟨0, 0, 0⟩, ⟨1, 0, 0⟩⟩
  obtain ⟨hrod, hmarble, hplane⟩ :
      (report (.leaf (.rod Shape.thinRod))).distance = 5 ∧
        (report (.leaf (.sphere marble))).distance = 4 ∧
        (report (.leaf (.plane (Shape.planeAt 7)))).distance = 7 := by
    simp only [shelf, List.forall_mem_cons] at hreport
    obtain ⟨hrod, hmarble, hplane, -⟩ := hreport
    have hrodDistance : Shape.thinRod.distance? ⟨⟨0, 0, 0⟩, ⟨1, 0, 0⟩⟩ = some 5 := by
      decide +kernel
    have hmarbleDistance : marble.distance? ⟨⟨0, 0, 0⟩, ⟨1, 0, 0⟩⟩ = some 4 := by decide +kernel
    have hplaneDistance : (Shape.planeAt 7).distance? ⟨⟨0, 0, 0⟩, ⟨1, 0, 0⟩⟩ = some 7 := by
      decide +kernel
    exact ⟨Leaf.distance_of_report (hrod 100) (congrArg Except.ok hrodDistance),
      Leaf.distance_of_report (hmarble 100) (congrArg Except.ok hmarbleDistance),
      Leaf.distance_of_report (hplane 100) (congrArg Except.ok hplaneDistance)⟩
  obtain ⟨hit, hhit, hselected, horder⟩ :=
    intersect_firstNearest shelf _ 100 report (by decide) hreport
  obtain ⟨hit', hhit', -, hsame⟩ := horder _ (List.reverse_perm _)
  have huntied : shelf.members.Pairwise
      (fun m m' => (report m).Untied shelf.guard 100 (report m')) := by
    have h54 : (5 : Float) ≠ 4 := by decide
    have h57 : (5 : Float) ≠ 7 := by decide
    have h47 : (4 : Float) ≠ 7 := by decide
    simp [shelf, Hit.Untied, hrod, hmarble, hplane, h54, h57, h47]
  have hwithin : (report (.leaf (.sphere marble))).Within shelf.guard 100 := by
    rw [Hit.Within, hmarble]
    decide
  have hmem : Shape.leaf (.sphere marble) ∈ shelf.members := by simp [shelf]
  rw [hsame huntied] at hhit'
  refine ⟨hit, hhit, hhit', ?_⟩
  rcases hselected with ⟨child, hchild, rfl, -, howner⟩ | ⟨hnone, -⟩
  · have hleast := hchild.least hmem hwithin
    have hchildmem := hchild.mem
    simp only [shelf, List.mem_cons, List.not_mem_nil, or_false] at hchildmem
    rcases hchildmem with rfl | rfl | rfl
    · rw [hrod, hmarble] at hleast
      exact absurd hleast (by decide)
    · exact ⟨hmarble, howner _ rfl⟩
    · rw [hplane, hmarble] at hleast
      exact absurd hleast (by decide)
  · exact absurd hwithin (hnone _ hmem)

end Scene

end ZeroSet
