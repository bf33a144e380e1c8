import ZeroSet.Proofs.SurvivingLeaves

/-!
# What a search costs

A search counts the cells that it examines, prunes and keeps as leaves.  Here it is written down as
the tree of the cells that it examines, and the counts are read off the tree.  Every cell in it is
pruned, a leaf, or halved, and of a halved cell both halves are examined unless a leaf is found in
the lower one; so the counts balance up to the cells on the way to the leaf.

* `Half`, `Interval.follow` — a way through the halves of a cell.
* `Exploration` — the shape of a search, which says whether a leaf is found.
* `Exploration.visits` — the cells in the order in which they are examined.
* `Effort.Accounts` — counts that are those of the visits.
* `Bisection.Explores` — the shape that a search has according to its enclosures.
* `Bisection.exists_exploration` — every search that does not fail has one.
* `Bisection.effort_balance` — how the counts of a search are related.
-/

namespace ZeroSet

/-! ## Ways through a cell -/

/-- One of the two halves of a cell. -/
inductive Half where
  /-- The half below the midpoint. -/
  | lower
  /-- The half above it. -/
  | upper
deriving DecidableEq

namespace Interval

variable {K : Type} [Scalar K]

/-- One half of an interval. -/
def half (a : Interval K) : Half → Interval K
  | .lower => a.lowerHalf
  | .upper => a.upperHalf

/-- The cell at the end of a way. -/
def follow (a : Interval K) : List Half → Interval K
  | [] => a
  | h :: way => (a.half h).follow way

end Interval

/-! ## The shape of a search -/

/-- What becomes of a cell that is examined. -/
inductive Fate where
  /-- No root lies in it. -/
  | pruned
  /-- It is not halved any more. -/
  | leaf
  /-- At least one of its halves is examined. -/
  | halved
deriving DecidableEq

/-- The examination of a cell. -/
structure Visit (K : Type) where
  /-- How many halvings led to the cell. -/
  depth : ℕ
  /-- The cell. -/
  cell : Interval K
  /-- What becomes of it. -/
  fate : Fate

/-- The shape of a search in a cell, and whether it finds a leaf.  Only where the search of the
lower half finds nothing there is one of the upper half. -/
inductive Exploration : (found : Bool) → Type where
  /-- The cell is pruned. -/
  | pruned : Exploration false
  /-- The cell is a leaf that is passed over. -/
  | near : Exploration false
  /-- The cell is the leaf that is found. -/
  | leaf : Exploration true
  /-- The leaf is found in the lower half. -/
  | lower (below : Exploration true) : Exploration true
  /-- The lower half is searched in vain, and then the upper one. -/
  | both {found : Bool} (below : Exploration false) (above : Exploration found) :
    Exploration found

namespace Exploration

variable {found : Bool}

/-- The way to the leaf that is found, or else to the cell that is examined last. -/
def way : {found : Bool} → Exploration found → List Half
  | _, pruned => []
  | _, near => []
  | _, leaf => []
  | _, lower below => .lower :: below.way
  | _, both _ above => .upper :: above.way

/-- A search that finds nothing ends in upper halves. -/
theorem count_lower_way : ∀ t : Exploration false, t.way.count .lower = 0
  | pruned => rfl
  | near => rfl
  | both _ above => by
    rw [way, List.count_cons_of_ne (by decide)]
    exact count_lower_way above

variable {K : Type} [Scalar K]

/-- The cells that are examined, from the first to the last, after `depth` halvings. -/
def visits : {found : Bool} → Exploration found → (depth : ℕ) → Interval K → List (Visit K)
  | _, pruned, depth, cell => [⟨depth, cell, .pruned⟩]
  | _, near, depth, cell => [⟨depth, cell, .leaf⟩]
  | _, leaf, depth, cell => [⟨depth, cell, .leaf⟩]
  | _, lower below, depth, cell =>
    ⟨depth, cell, .halved⟩ :: below.visits (depth + 1) cell.lowerHalf
  | _, both below above, depth, cell =>
    ⟨depth, cell, .halved⟩ ::
      (below.visits (depth + 1) cell.lowerHalf ++ above.visits (depth + 1) cell.upperHalf)

/-- A cell that is halved has two halves to examine, except for those in whose lower half the leaf
is found. -/
theorem length_visits (t : Exploration found) (depth : ℕ) (cell : Interval K) :
    (t.visits depth cell).length + 1 =
      2 * ((t.visits depth cell).countP (·.fate = .pruned) +
        (t.visits depth cell).countP (·.fate = .leaf)) + t.way.count .lower := by
  induction t generalizing depth cell with
  | pruned => rfl
  | near => rfl
  | leaf => rfl
  | lower below ih =>
    have hbelow := ih (depth + 1) cell.lowerHalf
    simp only [visits, way, List.length_cons, List.countP_cons, List.count_cons_self]
    simp
    omega
  | both below above ihbelow ihabove =>
    have hbelow := ihbelow (depth + 1) cell.lowerHalf
    have habove := ihabove (depth + 1) cell.upperHalf
    rw [below.count_lower_way] at hbelow
    simp only [visits, way, List.length_cons, List.length_append, List.countP_cons,
      List.countP_append]
    simp
    omega

/-- There is room for one cell at the depth of the root, and for twice as many at each further
depth. -/
theorem length_visits_le (t : Exploration found) {deepest depth : ℕ} {cell : Interval K}
    (h : ∀ v ∈ t.visits depth cell, v.depth ≤ deepest) :
    ((t.visits depth cell).length + 1) * 2 ^ depth ≤ 2 ^ (deepest + 1) := by
  have hleaf : ∀ {depth : ℕ}, depth ≤ deepest → 2 * 2 ^ depth ≤ 2 ^ (deepest + 1) := by
    intro depth hdepth
    rw [pow_succ']
    exact Nat.mul_le_mul_left 2 (Nat.pow_le_pow_right Nat.two_pos hdepth)
  induction t generalizing depth cell with
  | pruned => exact hleaf (h _ (List.mem_singleton_self _))
  | near => exact hleaf (h _ (List.mem_singleton_self _))
  | leaf => exact hleaf (h _ (List.mem_singleton_self _))
  | lower below ih =>
    obtain ⟨-, hbelow⟩ := List.forall_mem_cons.1 h
    have hle := ih hbelow
    rw [pow_succ] at hle
    rw [visits, List.length_cons]
    nlinarith [Nat.two_pow_pos depth]
  | both below above ihbelow ihabove =>
    obtain ⟨-, hrest⟩ := List.forall_mem_cons.1 h
    obtain ⟨hbelow, habove⟩ := List.forall_mem_append.1 hrest
    have hle := ihbelow hbelow
    have hle' := ihabove habove
    rw [pow_succ] at hle hle'
    rw [visits, List.length_cons, List.length_append]
    nlinarith [Nat.two_pow_pos depth]

/-- The leaf that is found is the last cell on the way. -/
theorem leaf_mem_visits (t : Exploration true) (depth : ℕ) (cell : Interval K) :
    ⟨depth + t.way.length, cell.follow t.way, .leaf⟩ ∈ t.visits depth cell := by
  generalize hfound : true = found at t
  induction t generalizing depth cell with
  | pruned => cases hfound
  | near => cases hfound
  | leaf => exact List.mem_singleton_self _
  | lower below ih =>
    have hmem := ih (depth + 1) cell.lowerHalf hfound
    rw [Nat.add_assoc, Nat.add_comm 1] at hmem
    exact List.mem_cons_of_mem _ hmem
  | both below above _ ih =>
    have hmem := ih (depth + 1) cell.upperHalf hfound
    rw [Nat.add_assoc, Nat.add_comm 1] at hmem
    exact List.mem_cons_of_mem _ (List.mem_append_right _ hmem)

end Exploration

/-! ## Counts -/

namespace Effort

variable {K : Type}

/-- The counts are those of the visits. -/
structure Accounts (e : Effort) (visits : List (Visit K)) : Prop where
  /-- Every visit is an examination. -/
  evaluations : e.evaluations = visits.length
  /-- The cells that were pruned. -/
  pruned : e.pruned = visits.countP (·.fate = .pruned)
  /-- The cells that are leaves. -/
  leaves : e.leaves = visits.countP (·.fate = .leaf)
  /-- The depth is the largest one. -/
  maxDepth : ∀ depth, e.maxDepth ≤ depth ↔ ∀ v ∈ visits, v.depth ≤ depth

/-- One more visit. -/
def record (e : Effort) (v : Visit K) : Effort :=
  match v.fate with
  | .pruned => (e.examine v.depth).prune
  | .leaf => (e.examine v.depth).leaf
  | .halved => e.examine v.depth

theorem evaluations_record (e : Effort) (v : Visit K) :
    (e.record v).evaluations = e.evaluations + 1 := by
  unfold record
  split <;> rfl

theorem pruned_record (e : Effort) (v : Visit K) :
    (e.record v).pruned = e.pruned + if v.fate = .pruned then 1 else 0 := by
  unfold record
  split <;> simp [*, examine, prune, leaf]

theorem leaves_record (e : Effort) (v : Visit K) :
    (e.record v).leaves = e.leaves + if v.fate = .leaf then 1 else 0 := by
  unfold record
  split <;> simp [*, examine, prune, leaf]

theorem maxDepth_record (e : Effort) (v : Visit K) :
    (e.record v).maxDepth = max e.maxDepth v.depth := by
  unfold record
  split <;> rfl

/-- Visits that are recorded one by one are accounted for. -/
theorem accounts_foldl (visits : List (Visit K)) :
    (visits.foldl record zero).Accounts visits := by
  have hrun : ∀ e : Effort, (visits.foldl record e).evaluations = e.evaluations + visits.length ∧
      (visits.foldl record e).pruned = e.pruned + visits.countP (·.fate = .pruned) ∧
      (visits.foldl record e).leaves = e.leaves + visits.countP (·.fate = .leaf) ∧
      ∀ depth, (visits.foldl record e).maxDepth ≤ depth ↔
        e.maxDepth ≤ depth ∧ ∀ v ∈ visits, v.depth ≤ depth := by
    induction visits with
    | nil => simp
    | cons v visits ih =>
      intro e
      obtain ⟨hevaluations, hpruned, hleaves, hdepth⟩ := ih (e.record v)
      rw [List.foldl_cons, hevaluations, hpruned, hleaves]
      refine ⟨?_, ?_, ?_, fun depth => ?_⟩
      · rw [evaluations_record, List.length_cons]
        omega
      · rw [pruned_record, List.countP_cons]
        simp only [decide_eq_true_eq]
        omega
      · rw [leaves_record, List.countP_cons]
        simp only [decide_eq_true_eq]
        omega
      · rw [hdepth, maxDepth_record, max_le_iff, List.forall_mem_cons, and_assoc]
  obtain ⟨hevaluations, hpruned, hleaves, hdepth⟩ := hrun zero
  refine ⟨?_, ?_, ?_, fun depth => ?_⟩
  · rw [hevaluations]
    exact Nat.zero_add _
  · rw [hpruned]
    exact Nat.zero_add _
  · rw [hleaves]
    exact Nat.zero_add _
  · rw [hdepth]
    exact and_iff_right (Nat.zero_le depth)

end Effort

/-! ## The shape that a search has -/

namespace Bisection

variable {K : Type}

section

variable [Scalar K] {b : Bisection K} {g : Expr K} {name : String} {env : Env K}

/-- The search of a cell, with as many halvings left as `budget` says, has the given shape. -/
inductive Explores (b : Bisection K) (g : Expr K) (name : String) (env : Env K) :
    {found : Bool} → (budget : ℕ) → Interval K → Exploration found → Prop
  /-- The enclosure excludes zero. -/
  | pruned {budget : ℕ} {cell enclosure : Interval K}
    (h : (enclose g name cell).value env = .ok enclosure)
    (hzero : enclosure.containsZero = false) : Explores b g name env budget cell .pruned
  /-- The cell is short, or no halvings are left, and it starts too near. -/
  | near {budget : ℕ} {cell enclosure : Interval K}
    (h : (enclose g name cell).value env = .ok enclosure) (hzero : enclosure.containsZero = true)
    (hend : cell.length < b.rootTolerance ∨ budget = 0) (hnear : ¬b.epsilon < cell.lo) :
    Explores b g name env budget cell .near
  /-- The cell is short, or no halvings are left, and it starts far enough away. -/
  | leaf {budget : ℕ} {cell enclosure : Interval K}
    (h : (enclose g name cell).value env = .ok enclosure) (hzero : enclosure.containsZero = true)
    (hend : cell.length < b.rootTolerance ∨ budget = 0) (hfar : b.epsilon < cell.lo) :
    Explores b g name env budget cell .leaf
  /-- The cell is long, and the search of the lower half finds a leaf. -/
  | lower {budget : ℕ} {cell enclosure : Interval K} {below : Exploration true}
    (h : (enclose g name cell).value env = .ok enclosure) (hzero : enclosure.containsZero = true)
    (hlong : ¬cell.length < b.rootTolerance)
    (hbelow : Explores b g name env budget cell.lowerHalf below) :
    Explores b g name env (budget + 1) cell (.lower below)
  /-- The cell is long, and the search of the lower half finds nothing. -/
  | both {found : Bool} {budget : ℕ} {cell enclosure : Interval K} {below : Exploration false}
    {above : Exploration found} (h : (enclose g name cell).value env = .ok enclosure)
    (hzero : enclosure.containsZero = true) (hlong : ¬cell.length < b.rootTolerance)
    (hbelow : Explores b g name env budget cell.lowerHalf below)
    (habove : Explores b g name env budget cell.upperHalf above) :
    Explores b g name env (budget + 1) cell (.both below above)

/-- A search that does not fail has a shape, which tells its answer and what it counts. -/
theorem explores_of_search {budget depth : ℕ} {cell : Interval K} {effort effort' : Effort}
    {leaf? : Option (Interval K)}
    (h : Evaluation.value ((b.search g name budget depth cell).run effort) env =
      .ok (leaf?, effort')) :
    ∃ (found : Bool) (t : Exploration found), b.Explores g name env budget cell t ∧
      leaf? = (if found then some (cell.follow t.way) else none) ∧
      effort' = (t.visits depth cell).foldl Effort.record effort := by
  -- a cell that is not halved any more, for whichever reason
  have hend : ∀ {budget depth : ℕ} {cell enclosure : Interval K} {effort effort' : Effort}
      {leaf? : Option (Interval K)}, (enclose g name cell).value env = .ok enclosure →
      enclosure.containsZero = true → (cell.length < b.rootTolerance ∨ budget = 0) →
      (b.accepted cell, (effort.examine depth).leaf) = (leaf?, effort') →
      ∃ (found : Bool) (t : Exploration found), b.Explores g name env budget cell t ∧
        leaf? = (if found then some (cell.follow t.way) else none) ∧
        effort' = (t.visits depth cell).foldl Effort.record effort := by
    intro budget depth cell enclosure effort effort' leaf? henclosure hzero hend h
    cases h
    rw [accepted]
    split
    · rename_i hfar
      exact ⟨true, .leaf, .leaf henclosure hzero hend hfar, rfl, rfl⟩
    · rename_i hnear
      exact ⟨false, .near, .near henclosure hzero hend hnear, rfl, rfl⟩
  induction budget generalizing depth cell effort effort' leaf? with
  | zero =>
    rw [value_search] at h
    obtain ⟨enclosure, henclosure, h⟩ := bind_eq_ok.1 h
    split at h
    · rename_i hzero
      exact hend henclosure hzero (.inr rfl) (Except.ok.inj h)
    · rename_i hzero
      cases h
      exact ⟨false, .pruned, .pruned henclosure (Bool.eq_false_iff.2 hzero), rfl, rfl⟩
  | succ budget ih =>
    rw [value_search] at h
    obtain ⟨enclosure, henclosure, h⟩ := bind_eq_ok.1 h
    split at h
    · rename_i hzero
      dsimp only at h
      split at h
      · rename_i hshort
        exact hend henclosure hzero (.inl hshort) (Except.ok.inj h)
      · rename_i hlong
        obtain ⟨⟨lower?, lowerEffort⟩, hlower, h⟩ := bind_eq_ok.1 h
        obtain ⟨found, below, hbelow, rfl, rfl⟩ := ih hlower
        cases found with
        | true =>
          cases h
          exact ⟨true, .lower below, .lower henclosure hzero hlong hbelow, rfl, rfl⟩
        | false =>
          obtain ⟨found, above, habove, rfl, rfl⟩ := ih h
          refine ⟨found, .both below above, .both henclosure hzero hlong hbelow habove, rfl, ?_⟩
          rw [Exploration.visits, List.foldl_cons, List.foldl_append]
          rfl
    · rename_i hzero
      cases h
      exact ⟨false, .pruned, .pruned henclosure (Bool.eq_false_iff.2 hzero), rfl, rfl⟩

/-- Over every cell that is examined there is an enclosure, and the cell is pruned exactly if that
excludes zero. -/
theorem Explores.enclosed {found : Bool} {t : Exploration found} {budget : ℕ} {cell : Interval K}
    (h : b.Explores g name env budget cell t) (depth : ℕ) :
    ∀ v ∈ t.visits depth cell, ∃ enclosure, (enclose g name v.cell).value env = .ok enclosure ∧
      (v.fate = .pruned ↔ enclosure.containsZero = false) := by
  induction h generalizing depth with
  | pruned h hzero =>
    rintro v hv
    cases List.mem_singleton.1 hv
    exact ⟨_, h, by simp [hzero]⟩
  | near h hzero _ _ =>
    rintro v hv
    cases List.mem_singleton.1 hv
    exact ⟨_, h, by simp [hzero]⟩
  | leaf h hzero _ _ =>
    rintro v hv
    cases List.mem_singleton.1 hv
    exact ⟨_, h, by simp [hzero]⟩
  | lower h hzero _ _ ih => exact List.forall_mem_cons.2 ⟨⟨_, h, by simp [hzero]⟩, ih _⟩
  | both h hzero _ _ _ ihbelow ihabove =>
    exact List.forall_mem_cons.2 ⟨⟨_, h, by simp [hzero]⟩,
      List.forall_mem_append.2 ⟨ihbelow _, ihabove _⟩⟩

/-- What is searched up to a distance. -/
def window (b : Bisection K) (far : K) : Interval K := ⟨0, Scalar.lesser far b.maxDistance⟩

/-- A window that ends far enough away is searched. -/
theorem value_findLeafWithin_of_lt {far : K} (hopen : b.epsilon < (b.window far).hi) :
    (b.findLeafWithin g name far).value env =
      Evaluation.value ((b.search g name (Scalar.halvings (b.window far).hi b.rootTolerance) 0
        (b.window far)).run .zero) env := by
  rw [findLeafWithin]
  exact congrArg (Evaluation.value · env) (if_pos hopen)

/-- A search of a window that is long enough has a shape, which tells its answer, and its effort is
what the visits amount to. -/
theorem exists_exploration {far : K} {leaf? : Option (Interval K)} {effort : Effort}
    (hopen : b.epsilon < (b.window far).hi)
    (h : (b.findLeafWithin g name far).value env = .ok (leaf?, effort)) :
    ∃ (found : Bool) (t : Exploration found),
      b.Explores g name env (Scalar.halvings (b.window far).hi b.rootTolerance) (b.window far) t ∧
      leaf? = (if found then some ((b.window far).follow t.way) else none) ∧
      effort.Accounts (t.visits 0 (b.window far)) := by
  rw [value_findLeafWithin_of_lt hopen] at h
  obtain ⟨found, t, ht, hleaf, rfl⟩ := explores_of_search h
  exact ⟨found, t, ht, hleaf, Effort.accounts_foldl _⟩

/-- The effort of a search is accounted for.  It examines the cells of its shape, and prunes those
whose enclosure excludes zero, which are not halved.  Without a leaf the examinations and one more
are twice the cells that are not halved.  With a leaf there is in addition one for every cell on the
way to it that it lies in the lower half of, which are no more than the depth. -/
theorem effort_balance {far : K} {leaf? : Option (Interval K)} {effort : Effort}
    (hopen : b.epsilon < (b.window far).hi)
    (h : (b.findLeafWithin g name far).value env = .ok (leaf?, effort)) :
    ∃ (found : Bool) (t : Exploration found),
      b.Explores g name env (Scalar.halvings (b.window far).hi b.rootTolerance) (b.window far) t ∧
      effort.Accounts (t.visits 0 (b.window far)) ∧
      (∀ v ∈ t.visits 0 (b.window far), ∃ enclosure,
        (enclose g name v.cell).value env = .ok enclosure ∧
          (v.fate = .pruned ↔ enclosure.containsZero = false)) ∧
      (leaf? = none → effort.evaluations + 1 = 2 * (effort.pruned + effort.leaves)) ∧
      (∀ leaf, leaf? = some leaf → leaf = (b.window far).follow t.way ∧ 1 ≤ effort.leaves ∧
        effort.evaluations + 1 =
          2 * (effort.pruned + effort.leaves) + t.way.count .lower ∧
        t.way.count .lower ≤ effort.maxDepth) ∧
      effort.pruned + effort.leaves ≤ effort.evaluations ∧
      effort.evaluations + 1 ≤ 2 ^ (effort.maxDepth + 1) := by
  obtain ⟨found, t, ht, hleaf, haccounts⟩ := exists_exploration hopen h
  have hlength := t.length_visits 0 (b.window far)
  have hdeep := (haccounts.maxDepth _).1 le_rfl
  have hroom := t.length_visits_le hdeep
  rw [← haccounts.evaluations, ← haccounts.pruned, ← haccounts.leaves] at hlength
  rw [← haccounts.evaluations, pow_zero, mul_one] at hroom
  have hcount : t.way.count .lower ≤ t.way.length := List.count_le_length
  refine ⟨found, t, ht, haccounts, ht.enclosed 0, ?_, ?_, by omega, hroom⟩
  · rintro rfl
    cases found with
    | true => cases hleaf
    | false => rwa [t.count_lower_way, Nat.add_zero] at hlength
  · rintro leaf rfl
    cases found with
    | false => cases hleaf
    | true =>
      have hend := t.leaf_mem_visits 0 (b.window far)
      have hdepth := hdeep _ hend
      have hone : 0 < effort.leaves := by
        rw [haccounts.leaves]
        exact List.countP_pos_iff.2 ⟨_, hend, rfl⟩
      refine ⟨Option.some.inj hleaf, hone, hlength, ?_⟩
      rw [Nat.zero_add] at hdepth
      exact hcount.trans hdepth

end

/-- The line through seven is searched up to sixteen by halving twice.  The leaf lies in the lower
half, and there in the upper one. -/
theorem findLeafWithin_line :
    ((⟨16, 5, 1⟩ : Bisection ℝ).findLeafWithin (.var "t" - .num 7) "t" 16).value .empty =
      .ok (some ⟨4, 8⟩, ⟨4, 1, 1, 2⟩) := by
  have hzero : ∀ {lo hi : ℝ}, (⟨lo - 7, hi - 7⟩ : Interval ℝ).containsZero = true ↔
      lo ≤ 7 ∧ 7 ≤ hi := by
    intro lo hi
    rw [Interval.containsZero_iff, Interval.mem_iff, sub_nonpos, sub_nonneg]
  have hhalvings : Scalar.halvings (16 : ℝ) 5 = 4 := by
    show ⌈(16 : ℝ) / 5⌉₊ = 4
    rw [Nat.ceil_eq_iff (by norm_num)]
    norm_num
  have hlower : ∀ hi : ℝ, (⟨0, hi⟩ : Interval ℝ).lowerHalf = ⟨0, hi / 2⟩ := by
    intro hi
    rw [Interval.lowerHalf, Interval.midpoint_eq, zero_add]
  have hupper : ∀ hi : ℝ, (⟨0, hi⟩ : Interval ℝ).upperHalf = ⟨hi / 2, hi⟩ := by
    intro hi
    rw [Interval.upperHalf, Interval.midpoint_eq, zero_add]
  have hlong : ∀ {hi : ℝ}, 5 ≤ hi →
      ¬(⟨0, hi⟩ : Interval ℝ).length < (⟨16, 5, 1⟩ : Bisection ℝ).rootTolerance := by
    intro hi h
    show ¬hi - 0 < 5
    linarith
  have hshort : (⟨16 / 2 / 2, 16 / 2⟩ : Interval ℝ).length <
      (⟨16, 5, 1⟩ : Bisection ℝ).rootTolerance := by
    show (16 / 2 - 16 / 2 / 2 : ℝ) < 5
    norm_num
  rw [value_findLeafWithin, min_self, if_pos (by norm_num), hhalvings,
    value_search_halved (enclose_line (by norm_num)) (hzero.2 (by norm_num)) (hlong (by norm_num)),
    hlower,
    value_search_halved (enclose_line (by norm_num)) (hzero.2 (by norm_num)) (hlong (by norm_num)),
    hlower, hupper,
    value_search_pruned (enclose_line (by norm_num))
      (Bool.eq_false_iff.2 fun h => by linarith [(hzero.1 h).2])]
  show Evaluation.value _ _ >>= _ = _
  rw [value_search_short (enclose_line (by norm_num)) (hzero.2 (by norm_num)) hshort]
  have haccepted : accepted (⟨16, 5, 1⟩ : Bisection ℝ) ⟨16 / 2 / 2, 16 / 2⟩ = some ⟨4, 8⟩ :=
    accepted_eq_some.2 ⟨show (1 : ℝ) < 16 / 2 / 2 by norm_num, by norm_num⟩
  rw [haccepted]
  rfl

/-- For the line through seven the balance has one cell in whose lower half the leaf lies. -/
theorem effort_balance_line :
    ∃ (b : Bisection ℝ) (leaf : Interval ℝ) (effort : Effort),
      b.epsilon < (b.window 16).hi ∧
        (b.findLeafWithin (.var "t" - .num 7) "t" 16).value .empty = .ok (some leaf, effort) ∧
        ∃ k, effort.evaluations + 1 = 2 * (effort.pruned + effort.leaves) + k ∧
          k ≤ effort.maxDepth := by
  have hopen : (1 : ℝ) < ((⟨16, 5, 1⟩ : Bisection ℝ).window 16).hi := by
    show (1 : ℝ) < Scalar.lesser 16 16
    rw [ExactScalar.lesser_eq_min]
    norm_num
  obtain ⟨_, _, -, -, -, -, hleaf, -⟩ := effort_balance hopen findLeafWithin_line
  obtain ⟨-, -, hbalance, hle⟩ := hleaf _ rfl
  exact ⟨_, _, _, hopen, findLeafWithin_line, _, hbalance, hle⟩

end Bisection

end ZeroSet
