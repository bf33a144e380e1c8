import ZeroSet.Proofs.Applications
import ZeroSet.Proofs.RealValue
import ZeroSet.Scalar.Binary64

/-!
# Arithmetic on tuples, component by component

A tree of vector literals under negation and the four operations evaluates to a tuple if the arities
fit at every operator and no divisor has a component that is zero.  Every component of the tuple is
then the real value of a tree of the same form, in which each literal has given way to one of its
elements: the one at the index of the component, or the only one there is.

* `BinOp.Fits` — the arities that an operator takes.
* `TupleTree` — the trees, with the arity they have (`arity`), what they need (`WellFormed`) and the
  tree of real numbers behind a component (`component?`).
* `Tuple.Combines` — one tuple is made of two others component by component.
* `BinOp.onTuples_isOk_iff`, `BinOp.combines_of_onTuples` — when operators succeed, and on what.
* `TupleTree.evaluateVector_componentwise` — both for a whole tree.
-/

namespace ZeroSet

/-- The element at an index, or the only element of a list, which stands at every index. -/
def elementOrOnly? {α : Type} (items : List α) (index : ℕ) : Option α :=
  items[if items.length = 1 then 0 else index]?

@[simp] theorem elementOrOnly?_singleton {α : Type} (a : α) (index : ℕ) :
    elementOrOnly? [a] index = some a := rfl

@[simp] theorem elementOrOnly?_map {α β : Type} (f : α → β) (items : List α) (index : ℕ) :
    elementOrOnly? (items.map f) index = (elementOrOnly? items index).map f := by
  simp [elementOrOnly?]

/-- What stands at an index of a list is its element there, whether it is the only one or not. -/
theorem elementOrOnly?_of_getElem? {α : Type} {items : List α} {index : ℕ} {a : α}
    (h : items[index]? = some a) : elementOrOnly? items index = some a := by
  obtain ⟨hindex, -⟩ := List.getElem?_eq_some_iff.1 h
  unfold elementOrOnly?
  split
  · rename_i hlength
    rwa [show index = 0 by omega] at h
  · exact h

/-- Related lists are related at every index. -/
theorem exists_elementOrOnly?_of_forall₂ {α β : Type} {R : α → β → Prop} {as : List α}
    {bs : List β} (h : List.Forall₂ R as bs) {index : ℕ} {b : β}
    (hb : elementOrOnly? bs index = some b) : ∃ a, elementOrOnly? as index = some a ∧ R a b := by
  obtain ⟨hlength, hstep⟩ := List.forall₂_iff_get.1 h
  unfold elementOrOnly? at hb ⊢
  rw [hlength]
  obtain ⟨hindex, rfl⟩ := List.getElem?_eq_some_iff.1 hb
  exact ⟨_, List.getElem?_eq_getElem (hlength ▸ hindex), hstep _ (hlength ▸ hindex) hindex⟩

/-- The numbers of components that an operator takes on its two sides. -/
def BinOp.Fits : BinOp → ℕ → ℕ → Prop
  | .add, m, n => m = n
  | .sub, m, n => m = n
  | .mul, m, n => m = n ∨ m = 1 ∨ n = 1
  | .div, m, n => m = n ∨ n = 1

/-! ## Trees of vector literals -/

/-- Vector literals under negation, sums, differences, products and quotients. -/
inductive TupleTree (K : Type) where
  /-- A vector literal with some elements. -/
  | literal (items : List (Expr K))
  /-- A negated tree. -/
  | neg (a : TupleTree K)
  /-- Two trees under an operator. -/
  | binary (op : BinOp) (a b : TupleTree K)

namespace TupleTree

variable {K : Type}

/-- The expression that the tree stands for. -/
def toExpr : TupleTree K → Expr K
  | literal items => .vec items
  | neg a => .neg a.toExpr
  | binary op a b => .binary op a.toExpr b.toExpr

/-- The number of components.  Where one side has a single component, the other side decides. -/
def arity : TupleTree K → ℕ
  | literal items => items.length
  | neg a => a.arity
  | binary _ a b => if a.arity = 1 then b.arity else a.arity

/-- The tree with every literal replaced by its element at an index, or by its only one. -/
def component? (index : ℕ) : TupleTree K → Option (Expr K)
  | literal items => elementOrOnly? items index
  | neg a => (a.component? index).map .neg
  | binary op a b => do
    let x ← a.component? index
    let y ← b.component? index
    return .binary op x y

/-- Every literal has one to four elements with real values, the arities fit at every operator, and
no divisor evaluates to a tuple with a component that is zero. -/
def WellFormed [Scalar K] (env : Env K) : TupleTree K → Prop
  | literal items => 1 ≤ items.length ∧ items.length ≤ 4 ∧
      ∀ e ∈ items, ∃ x, e.evaluateReal.value env = .ok x
  | neg a => a.WellFormed env
  | binary op a b => a.WellFormed env ∧ b.WellFormed env ∧ op.Fits a.arity b.arity ∧
      (op = .div → ∀ u, b.toExpr.evaluateVector.value env = .ok u →
        ∀ y ∈ u.components, (y == 0) = false)

end TupleTree

/-! ## One operator -/

namespace Tuple

variable {K : Type} {f : K → K → K} {t u v : Tuple K}

/-- The components of a tuple are made of those of two others by a function. -/
structure Combines (f : K → K → K) (t u v : Tuple K) : Prop where
  /-- Where one side has a single component, the other side decides how many there are. -/
  arity_eq : v.arity = if t.arity = 1 then u.arity else t.arity
  /-- Each component is made of those at the same index or the only ones. -/
  element : ∀ index x, elementOrOnly? v.components index = some x →
    ∃ y z, elementOrOnly? t.components index = some y ∧
      elementOrOnly? u.components index = some z ∧ x = f y z

theorem single?_eq_some {s : K} : t.single? = some s ↔ t.components = [s] := by
  unfold single?
  split
  · rename_i x hx
    simp [hx]
  · rename_i hx
    simp only [reduceCtorEq, false_iff]
    exact hx s

theorem single?_eq_none : t.single? = none ↔ t.arity ≠ 1 := by
  rw [Option.eq_none_iff_forall_ne_some, arity, Ne, List.length_eq_one_iff, not_exists]
  simp only [Ne, single?_eq_some]

theorem arity_of_single? {s : K} (h : t.single? = some s) : t.arity = 1 := by
  rw [arity, single?_eq_some.1 h]
  rfl

@[simp] theorem arity_map (g : K → K) : (t.map g).arity = t.arity := List.length_map ..

theorem zipWith_isOk_iff : (∃ v, t.zipWith f u = .ok v) ↔ t.arity = u.arity := by
  unfold zipWith
  by_cases h : t.components.length = u.components.length
  · simp [h, arity]
  · simp [h, arity]

/-- Tuples of one arity are put together index by index. -/
theorem combines_of_zipWith (h : t.zipWith f u = .ok v) : Combines f t u v := by
  have harity : t.arity = u.arity := zipWith_isOk_iff.1 ⟨v, h⟩
  have hcomponents : t.components.length = u.components.length := harity
  rw [zipWith, dif_pos hcomponents] at h
  cases h
  have hlength : (List.zipWith f t.components u.components).length = t.arity := by
    rw [List.length_zipWith]
    exact min_eq_left harity.le
  constructor
  · rw [← harity, ite_self]
    exact hlength
  · intro index x hx
    unfold elementOrOnly? at hx ⊢
    rw [hlength, List.getElem?_zipWith_eq_some] at hx
    obtain ⟨y, z, hy, hz, rfl⟩ := hx
    exact ⟨y, z, hy, by rwa [harity] at hz, rfl⟩

/-- A single component on the left stands at every index. -/
theorem combines_of_single_left {s : K} (h : t.single? = some s) :
    Combines f t u (u.map (f s)) := by
  constructor
  · rw [if_pos (arity_of_single? h), arity_map]
  · intro index x hx
    obtain ⟨z, hz, rfl⟩ := Option.map_eq_some_iff.1 ((elementOrOnly?_map ..).symm.trans hx)
    exact ⟨s, z, by rw [single?_eq_some.1 h, elementOrOnly?_singleton], hz, rfl⟩

/-- So does one on the right. -/
theorem combines_of_single_right {s : K} (ht : t.single? = none) (hu : u.single? = some s) :
    Combines f t u (t.map (f · s)) := by
  constructor
  · rw [if_neg (single?_eq_none.1 ht), arity_map]
  · intro index x hx
    obtain ⟨y, hy, rfl⟩ := Option.map_eq_some_iff.1 ((elementOrOnly?_map ..).symm.trans hx)
    exact ⟨y, s, hy, by rw [single?_eq_some.1 hu, elementOrOnly?_singleton], rfl⟩

section

variable [Scalar K]

/-- Products ask for equal arities, or for a single component on one side. -/
theorem times_isOk_iff : (∃ v, t.times u = .ok v) ↔ BinOp.mul.Fits t.arity u.arity := by
  cases ht : t.single? with
  | none =>
    have harity := single?_eq_none.1 ht
    cases hu : u.single? with
    | none => simp [times, ht, hu, zipWith_isOk_iff, BinOp.Fits, harity, single?_eq_none.1 hu]
    | some s => simp [times, ht, hu, BinOp.Fits, arity_of_single? hu]
  | some r =>
    have harity := arity_of_single? ht
    cases hu : u.single? with
    | none => simp [times, ht, hu, BinOp.Fits, harity]
    | some s => simp [times, ht, hu, zipWith_isOk_iff, BinOp.Fits, harity, arity_of_single? hu]

theorem combines_of_times (h : t.times u = .ok v) : Combines (· * ·) t u v := by
  cases ht : t.single? with
  | none =>
    cases hu : u.single? with
    | none =>
      simp only [times, ht, hu] at h
      exact combines_of_zipWith h
    | some s =>
      simp only [times, ht, hu] at h
      cases h
      exact combines_of_single_right ht hu
  | some r =>
    cases hu : u.single? with
    | none =>
      simp only [times, ht, hu] at h
      cases h
      exact combines_of_single_left ht
    | some s =>
      simp only [times, ht, hu] at h
      exact combines_of_zipWith h

theorem any_eq_zero_iff :
    u.components.any (· == 0) = false ↔ ∀ y ∈ u.components, (y == 0) = false := by
  simp

/-- Quotients ask for equal arities, or for a single component of the divisor, and for a divisor
without a zero. -/
theorem divide_isOk_iff :
    (∃ v, t.divide u = .ok v) ↔
      BinOp.div.Fits t.arity u.arity ∧ ∀ y ∈ u.components, (y == 0) = false := by
  rw [← any_eq_zero_iff]
  cases hzero : u.components.any (· == 0) with
  | true => simp [divide, hzero]
  | false =>
    cases ht : t.single? with
    | none =>
      cases hu : u.single? with
      | none =>
        simp [divide, hzero, ht, hu, zipWith_isOk_iff, BinOp.Fits, single?_eq_none.1 hu]
      | some s => simp [divide, hzero, ht, hu, BinOp.Fits, arity_of_single? hu]
    | some r =>
      have hfits : BinOp.div.Fits t.arity u.arity ↔ t.arity = u.arity := by
        simp only [BinOp.Fits, arity_of_single? ht, eq_comm, or_self]
      rw [hfits, and_iff_left rfl, ← zipWith_isOk_iff (f := (· / ·))]
      simp [divide, hzero, ht]

theorem combines_of_divide (h : t.divide u = .ok v) : Combines (· / ·) t u v := by
  have hzero : u.components.any (· == 0) = false :=
    any_eq_zero_iff.2 (divide_isOk_iff.1 ⟨v, h⟩).2
  rw [divide, hzero, if_neg Bool.false_ne_true] at h
  cases ht : t.single? with
  | none =>
    cases hu : u.single? with
    | none =>
      simp only [ht, hu] at h
      exact combines_of_zipWith h
    | some s =>
      simp only [ht, hu] at h
      cases h
      exact combines_of_single_right ht hu
  | some r =>
    simp only [ht] at h
    exact combines_of_zipWith h

end

end Tuple

namespace BinOp

variable {K : Type} [Scalar K] {op : BinOp} {t u v : Tuple K}

/-- An operator succeeds on tuples whose arities fit, unless it divides by a zero. -/
theorem onTuples_isOk_iff :
    (∃ v, op.onTuples t u = .ok v) ↔
      op.Fits t.arity u.arity ∧ (op = .div → ∀ y ∈ u.components, (y == 0) = false) := by
  cases op with
  | add => simpa [onTuples, Fits] using Tuple.zipWith_isOk_iff
  | sub => simpa [onTuples, Fits] using Tuple.zipWith_isOk_iff
  | mul => simpa [onTuples] using Tuple.times_isOk_iff
  | div => simpa [onTuples] using Tuple.divide_isOk_iff

/-- What an operator makes of tuples is what it makes of numbers, at every index. -/
structure Lifts (op : BinOp) (t u v : Tuple K) : Prop where
  /-- Where one side has a single component, the other side decides how many there are. -/
  arity_eq : v.arity = if t.arity = 1 then u.arity else t.arity
  /-- Each component is what becomes of those at the same index, or of the only ones. -/
  element : ∀ index x, elementOrOnly? v.components index = some x →
    ∃ y z, elementOrOnly? t.components index = some y ∧
      elementOrOnly? u.components index = some z ∧ op.onReals y z = .ok x

theorem lifts_of_combines {f : K → K → K} (h : Tuple.Combines f t u v)
    (hop : ∀ y, ∀ z ∈ u.components, op.onReals y z = .ok (f y z)) : op.Lifts t u v where
  arity_eq := h.arity_eq
  element := by
    intro index x hx
    obtain ⟨y, z, hy, hz, rfl⟩ := h.element index x hx
    exact ⟨y, z, hy, hz, hop y z (List.mem_of_getElem? hz)⟩

theorem lifts_of_onTuples (h : op.onTuples t u = .ok v) : op.Lifts t u v := by
  have hzero := (onTuples_isOk_iff.1 ⟨v, h⟩).2
  cases op with
  | add => exact lifts_of_combines (Tuple.combines_of_zipWith h) fun _ _ _ => rfl
  | sub => exact lifts_of_combines (Tuple.combines_of_zipWith h) fun _ _ _ => rfl
  | mul => exact lifts_of_combines (Tuple.combines_of_times h) fun _ _ _ => rfl
  | div =>
    refine lifts_of_combines (Tuple.combines_of_divide h) ?_
    intro y z hz
    simp [onReals, hzero rfl z hz]

end BinOp

/-! ## Evaluating a tree -/

section

variable {K : Type} [Scalar K] {env : Env K} {t : Tuple K}

namespace Expr

theorem evaluateVector_eq_ok {e : Expr K} :
    e.evaluateVector.value env = .ok t ↔
      e.outcome .vector (env.bindings.size + 1) env = .ok (.vector t) := by
  rw [value_evaluateVector, bind_eq_ok]
  constructor
  · rintro ⟨v, hv, h⟩
    obtain ⟨u, rfl⟩ := vector_of_outcome hv
    cases h
    exact hv
  · exact fun h => ⟨_, h, rfl⟩

/-- A vector literal evaluates to the tuple of the real values of its elements. -/
theorem evaluateVector_vec {items : List (Expr K)} :
    (vec items).evaluateVector.value env = .ok t ↔
      List.Forall₂ (fun e x => e.evaluateReal.value env = .ok x) items t.components := by
  rw [evaluateVector_eq_ok, outcome_vec, if_pos rfl, bind_eq_ok]
  simp only [value_evaluateReal, mapM_eq_ok]
  constructor
  · rintro ⟨xs, hxs, h⟩
    obtain ⟨u, hu, h⟩ := bind_eq_ok.1 h
    cases h
    unfold Tuple.ofList at hu
    split at hu
    · cases hu
      exact hxs
    · cases hu
  · intro h
    refine ⟨t.components, h, ?_⟩
    rw [Tuple.ofList, dif_pos ⟨t.length_pos, t.length_le⟩]
    rfl

theorem evaluateVector_neg {a : Expr K} :
    (neg a).evaluateVector.value env = .ok t ↔
      ∃ u, a.evaluateVector.value env = .ok u ∧ t = u.map (- ·) := by
  simp only [evaluateVector_eq_ok, outcome_neg, map_eq_ok]
  constructor
  · rintro ⟨v, hv, h⟩
    obtain ⟨u, rfl⟩ := vector_of_outcome hv
    cases h
    exact ⟨u, hv, rfl⟩
  · rintro ⟨u, hu, rfl⟩
    exact ⟨_, hu, rfl⟩

theorem evaluateVector_binary {op : BinOp} {a b : Expr K} :
    (binary op a b).evaluateVector.value env = .ok t ↔
      ∃ u w, a.evaluateVector.value env = .ok u ∧ b.evaluateVector.value env = .ok w ∧
        op.onTuples u w = .ok t := by
  simp only [evaluateVector_eq_ok, outcome_binary, bind_eq_ok]
  constructor
  · rintro ⟨v, hv, v', hv', h⟩
    obtain ⟨u, rfl⟩ := vector_of_outcome hv
    obtain ⟨w, rfl⟩ := vector_of_outcome hv'
    obtain ⟨t', ht, h⟩ := map_eq_ok.1 h
    cases h
    exact ⟨u, w, hv, hv', ht⟩
  · rintro ⟨u, w, hu, hw, h⟩
    exact ⟨_, hu, _, hw, map_eq_ok.2 ⟨t, h, rfl⟩⟩

end Expr

namespace TupleTree

/-- A tree has the arity that it seems to have, and each component of its value is the real value of
the tree behind it. -/
theorem lifts_of_evaluateVector {e : TupleTree K} (h : e.toExpr.evaluateVector.value env = .ok t) :
    t.arity = e.arity ∧ ∀ index x, elementOrOnly? t.components index = some x →
      ∃ c, e.component? index = some c ∧ c.evaluateReal.value env = .ok x := by
  induction e generalizing t with
  | literal items =>
    have hitems := Expr.evaluateVector_vec.1 h
    exact ⟨hitems.length_eq.symm, fun index x hx => exists_elementOrOnly?_of_forall₂ hitems hx⟩
  | neg a ih =>
    obtain ⟨u, hu, rfl⟩ := Expr.evaluateVector_neg.1 h
    obtain ⟨harity, hcomponent⟩ := ih hu
    refine ⟨(Tuple.arity_map _).trans harity, ?_⟩
    intro index x hx
    obtain ⟨y, hy, rfl⟩ := Option.map_eq_some_iff.1 ((elementOrOnly?_map ..).symm.trans hx)
    obtain ⟨c, hc, hvalue⟩ := hcomponent index y hy
    refine ⟨.neg c, by simp [component?, hc], ?_⟩
    exact Expr.evaluateReal_eq_ok.2 (Expr.evaluateReal_eq_ok.1 hvalue).neg
  | binary op a b iha ihb =>
    obtain ⟨u, w, hu, hw, hop⟩ := Expr.evaluateVector_binary.1 h
    obtain ⟨harity, hcomponent⟩ := iha hu
    obtain ⟨harity', hcomponent'⟩ := ihb hw
    have hlifts := BinOp.lifts_of_onTuples hop
    refine ⟨by rw [hlifts.arity_eq, arity, harity, harity'], ?_⟩
    intro index x hx
    obtain ⟨y, z, hy, hz, hx⟩ := hlifts.element index x hx
    obtain ⟨c, hc, hvalue⟩ := hcomponent index y hy
    obtain ⟨c', hc', hvalue'⟩ := hcomponent' index z hz
    refine ⟨.binary op c c', by simp [component?, hc, hc'], ?_⟩
    exact Expr.evaluateReal_eq_ok.2
      ((Expr.evaluateReal_eq_ok.1 hvalue).binary (Expr.evaluateReal_eq_ok.1 hvalue') hx)

/-- The trees that have a value. -/
theorem evaluateVector_isOk_iff (e : TupleTree K) :
    (∃ t, e.toExpr.evaluateVector.value env = .ok t) ↔ e.WellFormed env := by
  induction e with
  | literal items =>
    simp only [toExpr, Expr.evaluateVector_vec, WellFormed]
    constructor
    · rintro ⟨t, ht⟩
      refine ⟨ht.length_eq ▸ t.length_pos, ht.length_eq ▸ t.length_le, ?_⟩
      intro e he
      obtain ⟨x, -, hx⟩ := exists_of_mem_forall₂ ht he
      exact ⟨x, hx⟩
    · rintro ⟨hpos, hle, hvalues⟩
      obtain ⟨xs, hxs⟩ := exists_mapM_of_forall_mem hvalues
      have hall := mapM_eq_ok.1 hxs
      exact ⟨⟨xs, hall.length_eq ▸ hpos, hall.length_eq ▸ hle⟩, hall⟩
  | neg a ih =>
    simp only [toExpr, Expr.evaluateVector_neg, WellFormed, ← ih]
    constructor
    · rintro ⟨_, u, hu, -⟩
      exact ⟨u, hu⟩
    · rintro ⟨u, hu⟩
      exact ⟨_, u, hu, rfl⟩
  | binary op a b iha ihb =>
    simp only [toExpr, Expr.evaluateVector_binary, WellFormed, ← iha, ← ihb]
    constructor
    · rintro ⟨t, u, w, hu, hw, hop⟩
      obtain ⟨hfits, hzero⟩ := BinOp.onTuples_isOk_iff.1 ⟨t, hop⟩
      rw [(lifts_of_evaluateVector hu).1, (lifts_of_evaluateVector hw).1] at hfits
      refine ⟨⟨u, hu⟩, ⟨w, hw⟩, hfits, ?_⟩
      intro hdiv w' hw'
      cases hw.symm.trans hw'
      exact hzero hdiv
    · rintro ⟨⟨u, hu⟩, ⟨w, hw⟩, hfits, hzero⟩
      rw [← (lifts_of_evaluateVector hu).1, ← (lifts_of_evaluateVector hw).1] at hfits
      obtain ⟨t, ht⟩ := BinOp.onTuples_isOk_iff.2 ⟨hfits, fun hdiv => hzero hdiv w hw⟩
      exact ⟨t, u, w, hu, hw, ht⟩

/-- A tree of vector literals evaluates to a tuple exactly if every literal has one to four elements
with real values, the arities fit at every operator and no divisor has a zero among its components.
The tuple then has the arity of the tree, and each of its components is the real value of the tree
in which every literal has given way to its element at that index, or to its only one. -/
theorem evaluateVector_componentwise (e : TupleTree K) (env : Env K) :
    ((∃ t, e.toExpr.evaluateVector.value env = .ok t) ↔ e.WellFormed env) ∧
      ∀ t, e.toExpr.evaluateVector.value env = .ok t → t.arity = e.arity ∧
        ∀ index x, t.components[index]? = some x →
          ∃ c, e.component? index = some c ∧ c.evaluateReal.value env = .ok x := by
  refine ⟨e.evaluateVector_isOk_iff, fun t ht => ?_⟩
  obtain ⟨harity, hcomponent⟩ := lifts_of_evaluateVector ht
  exact ⟨harity, fun index x hx => hcomponent index x (elementOrOnly?_of_getElem? hx)⟩

/-- The difference of two pairs, divided by a single number. -/
def dividedDifference : TupleTree Float :=
  .binary .div (.binary .sub (.literal [.num 1, .num 2]) (.literal [.num 4, .num 8]))
    (.literal [.num 2])

theorem evaluateVector_dividedDifference :
    dividedDifference.toExpr.evaluateVector.value .empty =
      .ok ⟨[(1 - 4) / 2, (2 - 8) / 2], by decide, by decide⟩ := by
  have hnum : ∀ x : Float, (Expr.num x).evaluateReal.value .empty = .ok x :=
    fun x => Expr.evaluateReal_eq_ok.2 (Expr.yields_num x)
  refine Expr.evaluateVector_binary.2
    ⟨⟨[1 - 4, 2 - 8], by decide, by decide⟩, ⟨[2], by decide, by decide⟩, ?_, ?_, rfl⟩
  · exact Expr.evaluateVector_binary.2
      ⟨⟨[1, 2], by decide, by decide⟩, ⟨[4, 8], by decide, by decide⟩,
        Expr.evaluateVector_vec.2 (.cons (hnum 1) (.cons (hnum 2) .nil)),
        Expr.evaluateVector_vec.2 (.cons (hnum 4) (.cons (hnum 8) .nil)), rfl⟩
  · exact Expr.evaluateVector_vec.2 (.cons (hnum 2) .nil)

/-- The second component comes from the second elements and from the only one of the divisor. -/
theorem evaluateVector_componentwise_dividedDifference :
    dividedDifference.WellFormed .empty ∧ dividedDifference.arity = 2 ∧
      ∃ c, dividedDifference.component? 1 = some c ∧
        c.evaluateReal.value .empty = .ok ((2 - 8) / 2) := by
  obtain ⟨hwellFormed, hvalues⟩ := evaluateVector_componentwise dividedDifference .empty
  obtain ⟨harity, hcomponents⟩ := hvalues _ evaluateVector_dividedDifference
  exact ⟨hwellFormed.1 ⟨_, evaluateVector_dividedDifference⟩, harity.symm,
    hcomponents 1 _ rfl⟩

end TupleTree

end

end ZeroSet
