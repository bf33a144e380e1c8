import ZeroSet.Env
import Mathlib.Data.List.Nodup

/-!
# Scopes put everything back

What binding, unbinding and entering a scope do to the expression a name stands for, and the
law behind every frame condition: leaving a scope undoes entering it.

* `Bindings.get?_put`, `Bindings.get?_erase`, `Bindings.get?_putAll` — what a name stands for
  afterwards.
* `Bindings.get?_restore_previous` — what it stands for once a scope has put its names back.
* `Bindings.ext_names` — bindings are determined by the order of their names and by what the
  names stand for.
* `Env.leave_enter` — a scope that nothing happened in leaves no trace.
* `Env.within_restores_own_names` — a scope with any body restores its own names and no others.
* `Env.get?_enter_of_mem`, `Env.get?_enter_of_notMem` — what names stand for inside a function.
-/

namespace ZeroSet

variable {K : Type}

namespace Bindings

/-- The bound names in order of first binding. -/
def names (b : Bindings K) : List String := b.entries.map Prod.fst

/-! ## What a name stands for -/

theorem find?_putEntry {name m : String} {e : Expr K} (entries : List (String × Expr K)) :
    ((putEntry name e entries).find? (·.1 = m)).map Prod.snd =
      if m = name then some e else (entries.find? (·.1 = m)).map Prod.snd := by
  induction entries with
  | nil => by_cases h : m = name <;> simp [putEntry, h, eq_comm]
  | cons entry rest ih =>
    rw [putEntry]
    by_cases hn : entry.1 = name
    · by_cases h : m = name
      · simp [hn, h]
      · have : ¬name = m := fun hc => h hc.symm
        simp [hn, h, this]
    · by_cases he : entry.1 = m
      · have : ¬m = name := fun hc => hn (he.trans hc)
        simp [he, this]
      · simp only [hn, if_false, List.find?_cons, he, decide_false, ih]

@[simp] theorem get?_put (b : Bindings K) (name m : String) (e : Expr K) :
    (b.put name e).get? m = if m = name then some e else b.get? m :=
  find?_putEntry b.entries

@[simp] theorem get?_erase (b : Bindings K) (name m : String) :
    (b.erase name).get? m = if m = name then none else b.get? m := by
  simp only [get?, erase, List.find?_filter]
  by_cases h : m = name
  · subst h
    rw [List.find?_eq_none.2 (by simp), if_pos rfl]
    rfl
  · rw [if_neg h]
    congr 2
    funext a
    by_cases ha : a.1 = m
    · simp [ha, h]
    · simp [ha]

@[simp] theorem get?_assign (b : Bindings K) (name m : String) (e : Option (Expr K)) :
    (b.assign name e).get? m = if m = name then e else b.get? m := by
  cases e with
  | none => exact get?_erase b name m
  | some e => exact get?_put b name m e

theorem get?_eq_none_iff {b : Bindings K} {name : String} :
    b.get? name = none ↔ name ∉ b.names := by
  simp only [get?, Option.map_eq_none_iff, List.find?_eq_none, names, List.mem_map, not_exists,
    not_and, decide_eq_true_eq]

/-- Names that are not bound anew keep their meaning. -/
theorem get?_putAll_of_notMem {name : String} {pairs : List (String × Expr K)} :
    ∀ {b : Bindings K}, name ∉ pairs.map Prod.fst → (b.putAll pairs).get? name = b.get? name := by
  induction pairs with
  | nil => intro b _; rfl
  | cons pair pairs ih =>
    intro b h
    rw [List.map_cons, List.mem_cons, not_or] at h
    show ((b.put pair.1 pair.2).putAll pairs).get? name = b.get? name
    rw [ih h.2, get?_put, if_neg h.1]

/-- A name that is bound anew takes its meaning from the pairs alone. -/
theorem get?_putAll_of_mem {name : String} {pairs : List (String × Expr K)}
    (h : name ∈ pairs.map Prod.fst) :
    ∃ e, (name, e) ∈ pairs ∧ ∀ b : Bindings K, (b.putAll pairs).get? name = some e := by
  induction pairs with
  | nil => cases h
  | cons pair pairs ih =>
    by_cases hmem : name ∈ pairs.map Prod.fst
    · obtain ⟨e, he, hget⟩ := ih hmem
      exact ⟨e, List.mem_cons_of_mem _ he, fun b => hget (b.put pair.1 pair.2)⟩
    · rw [List.map_cons, List.mem_cons] at h
      have hname : name = pair.1 := h.resolve_right hmem
      refine ⟨pair.2, by rw [hname]; exact List.mem_cons_self .., fun b => ?_⟩
      show ((b.put pair.1 pair.2).putAll pairs).get? name = some pair.2
      rw [get?_putAll_of_notMem hmem, get?_put, if_pos hname]

/-- Where no name is bound twice, every pair is what its name stands for. -/
theorem get?_putAll_of_nodup {pairs : List (String × Expr K)}
    (hnodup : (pairs.map Prod.fst).Nodup) {name : String} {e : Expr K} (h : (name, e) ∈ pairs)
    (b : Bindings K) : (b.putAll pairs).get? name = some e := by
  obtain ⟨e', he', hget⟩ := get?_putAll_of_mem (List.mem_map_of_mem (f := Prod.fst) h)
  have hpair : (name, e') = (name, e) := List.inj_on_of_nodup_map hnodup he' h rfl
  cases hpair
  exact hget b

/-! ## The order of the names -/

theorem names_put (b : Bindings K) (name : String) (e : Expr K) :
    (b.put name e).names = if name ∈ b.names then b.names else b.names ++ [name] := by
  show (putEntry name e b.entries).map Prod.fst = _
  unfold names
  induction b.entries with
  | nil => simp [putEntry]
  | cons entry rest ih =>
    rw [putEntry]
    by_cases hn : entry.1 = name
    · simp [hn]
    · have : ¬name = entry.1 := fun hc => hn hc.symm
      simp only [hn, if_false, List.map_cons, ih, List.mem_cons, this, false_or, List.cons_append]
      split <;> rfl

theorem names_erase (b : Bindings K) (name : String) :
    (b.erase name).names = b.names.filter (· ≠ name) := by
  show (b.entries.filter (·.1 ≠ name)).map Prod.fst = (b.entries.map Prod.fst).filter (· ≠ name)
  rw [List.filter_map]
  rfl

theorem get?_cons (entry : String × Expr K) (rest : List (String × Expr K)) (h) (name : String) :
    get? ⟨entry :: rest, h⟩ name =
      if entry.1 = name then some entry.2
      else get? ⟨rest, (List.nodup_cons.1 h).2⟩ name := by
  by_cases he : entry.1 = name <;> simp [get?, he]

/-- Bindings are determined by the order of their names and by what the names stand for. -/
theorem ext_names : ∀ {b c : Bindings K}, b.names = c.names →
    (∀ n ∈ b.names, b.get? n = c.get? n) → b = c := by
  rintro ⟨bs, hb⟩ ⟨cs, hc⟩ hnames hget
  have hentries : bs = cs := by
    induction bs generalizing cs with
    | nil =>
      cases cs with
      | nil => rfl
      | cons c cs => cases hnames
    | cons b bs ih =>
      cases cs with
      | nil => cases hnames
      | cons c cs =>
        obtain ⟨hfst, hrest⟩ : b.1 = c.1 ∧ bs.map Prod.fst = cs.map Prod.fst := by
          simpa [names] using hnames
        have hsnd : b.2 = c.2 := by
          have := hget b.1 (List.mem_cons_self ..)
          simpa [get?_cons, hfst] using this
        have htail : bs = cs := by
          refine ih (List.nodup_cons.1 hb).2 cs (List.nodup_cons.1 hc).2 hrest fun n hn => ?_
          have hne : ¬b.1 = n := by
            rintro rfl
            exact (List.nodup_cons.1 hb).1 hn
          have := hget n (List.mem_cons_of_mem _ hn)
          rwa [get?_cons, get?_cons, if_neg hne, if_neg (hfst ▸ hne)] at this
        rw [htail, show b = c from Prod.ext hfst hsnd]
  subst hentries
  rfl

/-- Bindings of the same names are equally many. -/
theorem size_eq_of_names {b c : Bindings K} (h : ∀ n, n ∈ b.names ↔ n ∈ c.names) :
    b.size = c.size := by
  have hperm : b.names.Perm c.names := (List.perm_ext_iff_of_nodup b.distinct c.distinct).2 h
  simpa [names, size] using hperm.length_eq

end Bindings

/-! ## Entering and leaving -/

namespace Bindings

/-- Inside a scope a name stands for its last value in the list, and a name that is not listed for
what it stood for outside. -/
theorem get?_putAll (b : Bindings K) (pairs : List (String × Expr K)) (n : String) :
    (b.putAll pairs).get? n = (pairs.reverse.lookup n).or (b.get? n) := by
  induction pairs generalizing b with
  | nil => rfl
  | cons p ps ih =>
    obtain ⟨m, e⟩ := p
    show ((b.put m e).putAll ps).get? n = _
    rw [ih, List.reverse_cons, List.lookup_append, Option.or_assoc, get?_put, List.lookup_cons]
    by_cases h : n = m
    · simp [h]
    · simp [h, beq_eq_false_iff_ne.2 h]

/-- Putting back gives the listed names what they stood for before the first of them was bound,
whatever they stand for by then, and touches no other name. -/
theorem get?_restore_previous (inner : Bindings K) (n : String)
    (pairs : List (String × Expr K)) (b : Bindings K) :
    (inner.restore (b.previous pairs)).get? n =
      if n ∈ pairs.map Prod.fst then b.get? n else inner.get? n := by
  induction pairs generalizing b with
  | nil => rfl
  | cons p ps ih =>
    show ((inner.restore ((b.put p.1 p.2).previous ps)).assign p.1 (b.get? p.1)).get? n = _
    rw [get?_assign, ih, get?_put]
    by_cases h : n = p.1
    · -- the first binding of a name is undone last, so a later one does not show
      simp [h]
    · simp only [List.map_cons, List.mem_cons, h, false_or, if_false]

/-- Binding a name and putting it back changes nothing, not even the order of the names. -/
theorem assign_put (b : Bindings K) (name : String) (e : Expr K) :
    (b.put name e).assign name (b.get? name) = b := by
  refine ext_names ?_ fun m _ => ?_
  · cases hget : b.get? name with
    | none =>
      have hnew : name ∉ b.names := get?_eq_none_iff.1 hget
      show ((b.put name e).erase name).names = b.names
      rw [names_erase, names_put, if_neg hnew, List.filter_append,
        List.filter_eq_self.2 fun n hn => ?_]
      · simp
      · exact decide_eq_true fun hc => hnew (hc ▸ hn)
    | some bound =>
      have hold : name ∈ b.names := by
        by_contra hc
        rw [get?_eq_none_iff.2 hc] at hget
        cases hget
      show ((b.put name e).put name bound).names = b.names
      simp only [names_put, if_pos hold]
  · rw [get?_assign, get?_put]
    split
    · rename_i h
      rw [h]
    · rfl

theorem restore_putAll (b : Bindings K) (pairs : List (String × Expr K)) :
    (b.putAll pairs).restore (b.previous pairs) = b := by
  induction pairs generalizing b with
  | nil => rfl
  | cons p ps ih =>
    show (((b.put p.1 p.2).putAll ps).restore ((b.put p.1 p.2).previous ps)).assign p.1
      (b.get? p.1) = b
    rw [ih, assign_put]

end Bindings

namespace Env

/-- A scope that nothing happened in leaves no trace. -/
theorem leave_enter (env : Env K) (pairs : List (String × Expr K)) :
    env.leave pairs (env.enter pairs) = env := by
  show (⟨(env.bindings.putAll pairs).restore (env.bindings.previous pairs), env.resolving⟩ :
    Env K) = env
  rw [Bindings.restore_putAll]

/-- A scope puts back its own names and leaves all others to its body.  The body starts with every
listed name bound to its last value in the list and not being resolved.  Whatever it does, be it
that it binds and unbinds names, fails, or opens scopes over the same names, afterwards the listed
names are bound as before the scope, or unbound as before, all other names are bound as the body
left them, and the same names are being resolved as before. -/
theorem within_restores_own_names {α : Type} (pairs : List (String × Expr K))
    (body : StateM (Env K) α) (env : Env K) :
    ∃ inside : Env K,
      (∀ n, inside.bindings.get? n = (pairs.reverse.lookup n).or (env.bindings.get? n)) ∧
      (∀ n, n ∈ inside.resolving ↔ n ∈ env.resolving ∧ n ∉ pairs.map Prod.fst) ∧
      ((within pairs body).run env).1 = (body.run inside).1 ∧
      (∀ n ∈ pairs.map Prod.fst,
        ((within pairs body).run env).2.bindings.get? n = env.bindings.get? n) ∧
      (∀ n ∉ pairs.map Prod.fst,
        ((within pairs body).run env).2.bindings.get? n =
          (body.run inside).2.bindings.get? n) ∧
      ((within pairs body).run env).2.resolving = env.resolving := by
  have hafter := fun n => Bindings.get?_restore_previous
    (body.run (env.enter pairs)).2.bindings n pairs env.bindings
  refine ⟨env.enter pairs, env.bindings.get?_putAll pairs, fun n => ?_, rfl, fun n hn => ?_,
    fun n hn => ?_, rfl⟩
  · show n ∈ env.resolving.filter _ ↔ _
    rw [List.mem_filter, decide_eq_true_eq]
  · exact (hafter n).trans (if_pos hn)
  · exact (hafter n).trans (if_neg hn)

/-- A name that is bound twice and unbound by the body is bound again afterwards, and one that was
not bound is not. -/
example : ((within [("a", .num 2), ("b", .num 3), ("a", .num 4)]
    (do let _ ← unbind "a"; within [("b", .num 5)] (bind "c" (.num 6)))).run
      (ofList [("a", .num (1 : Nat))])).2.bindings.entries = [("c", .num 6), ("a", .num 1)] := rfl

/-! ## Inside a function -/

/-- A name that is not a parameter keeps its meaning. -/
theorem get?_enter_of_notMem {params : List String} {name : String} (h : name ∉ params)
    (env : Env K) (es : List (Expr K)) :
    (env.enter (params.zip es)).bindings.get? name = env.bindings.get? name := by
  refine Bindings.get?_putAll_of_notMem fun hmem => ?_
  obtain ⟨p, hp, rfl⟩ := List.mem_map.1 hmem
  exact h (List.of_mem_zip hp).1

/-- A parameter stands for one of the arguments, wherever the function is applied. -/
theorem get?_enter_of_mem {params : List String} {xs : List K} (hlength : xs.length = params.length)
    {name : String} (h : name ∈ params) :
    ∃ x, ∀ env : Env K,
      (env.enter (params.zip (xs.map .num))).bindings.get? name = some (.num x) := by
  have hnames : (params.zip (xs.map (.num : K → Expr K))).map Prod.fst = params := by
    refine List.map_fst_zip (Nat.le_of_eq ?_)
    rw [List.length_map, hlength]
  obtain ⟨e, he, hget⟩ := Bindings.get?_putAll_of_mem (hnames.symm ▸ h)
  obtain ⟨x, -, rfl⟩ := List.mem_map.1 (List.of_mem_zip he).2
  exact ⟨x, fun env => hget env.bindings⟩

end Env

end ZeroSet
