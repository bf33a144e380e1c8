import ZeroSet.Proofs.Gradient

/-!
# The chain rule

A user function is evaluated with its parameters standing for the values of its arguments, so its
parameters move as the arguments do, and all other names move as they do outside.

* `chain` — how the names inside a function move with those outside.
* `chain_single` — a single moving name moves the parameters whose arguments mention it, and
  itself unless a parameter hides it.
* `Expr.Gradient.custom` — the terms of the symbolic derivative sum up to just that.
-/

namespace ZeroSet

open TrivSqZeroExt

variable {K : Type}

/-! ## Slopes inside a function -/

section

variable [Field K] {slopes : String → K}

theorem override_eq_zero {name : String} {pairs : List (String × K)}
    (hpairs : ∀ p ∈ pairs, p.2 = 0) :
    ∀ {slopes : String → K}, (name ∉ pairs.map Prod.fst → slopes name = 0) →
      override slopes pairs name = 0 := by
  induction pairs with
  | nil => exact fun h => h List.not_mem_nil
  | cons p pairs ih =>
    intro slopes h
    refine ih (fun q hq => hpairs q (List.mem_cons_of_mem _ hq)) fun hname => ?_
    by_cases hp : name = p.1
    · rw [hp, Function.update_self]
      exact hpairs p (List.mem_cons_self ..)
    · rw [Function.update_of_ne hp]
      refine h fun hmem => ?_
      rcases List.mem_cons.1 hmem with heq | hmem
      · exact hp heq
      · exact hname hmem

/-- Replacing the slopes of distinct names adds up what each name contributes. -/
theorem override_eq_sum {pairs : List (String × K)} (hnodup : (pairs.map Prod.fst).Nodup) :
    ∀ slopes : String → K, override slopes pairs =
      (pairs.map fun p => p.2 • (Pi.single p.1 1 : String → K)).sum +
        fun name => if name ∈ pairs.map Prod.fst then 0 else slopes name := by
  induction pairs with
  | nil =>
    intro slopes
    simp [override]
  | cons p pairs ih =>
    intro slopes
    rw [List.map_cons, List.nodup_cons] at hnodup
    refine (ih hnodup.2 _).trans ?_
    rw [List.map_cons, List.sum_cons, add_comm (p.2 • _), add_assoc]
    congr 1
    funext name
    by_cases hp : name = p.1
    · subst hp
      simp [hnodup.1]
    · by_cases hmem : name ∈ pairs.map Prod.fst
      · simp [hp, List.mem_map.1 hmem]
      · simp [hp, hmem]

/-- How the names inside a function move, where each parameter moves with its argument. -/
def chain (pairs : List (String × ((String → K) →ₗ[K] K))) :
    (String → K) →ₗ[K] (String → K) where
  toFun slopes := override slopes (pairs.map fun p => (p.1, p.2 slopes))
  map_add' s t := by
    suffices h : ∀ s' t' : String → K, override (s' + t') (pairs.map fun p => (p.1, p.2 (s + t))) =
        override s' (pairs.map fun p => (p.1, p.2 s)) +
          override t' (pairs.map fun p => (p.1, p.2 t)) from h s t
    induction pairs with
    | nil => exact fun _ _ => rfl
    | cons p pairs ih =>
      intro s' t'
      refine Eq.trans ?_ (ih (Function.update s' p.1 (p.2 s)) (Function.update t' p.1 (p.2 t)))
      rw [← Function.update_add, ← map_add]
      rfl
  map_smul' c s := by
    suffices h : ∀ s' : String → K, override (c • s') (pairs.map fun p => (p.1, p.2 (c • s))) =
        c • override s' (pairs.map fun p => (p.1, p.2 s)) from h s
    induction pairs with
    | nil => exact fun _ => rfl
    | cons p pairs ih =>
      intro s'
      refine Eq.trans ?_ (ih (Function.update s' p.1 (p.2 s)))
      rw [← Function.update_smul, ← map_smul]
      rfl

theorem chain_single {pairs : List (String × ((String → K) →ₗ[K] K))}
    (hnodup : (pairs.map Prod.fst).Nodup) (name : String) :
    chain pairs (Pi.single name 1) =
      (pairs.map fun p => p.2 (Pi.single name 1) • (Pi.single p.1 1 : String → K)).sum +
        if name ∈ pairs.map Prod.fst then 0 else Pi.single name 1 := by
  have hnames : (pairs.map fun p => (p.1, p.2 (Pi.single name 1))).map Prod.fst =
      pairs.map Prod.fst := by
    rw [List.map_map]
    rfl
  refine (override_eq_sum (hnames.symm ▸ hnodup) _).trans ?_
  rw [hnames, List.map_map]
  congr 1
  funext m
  by_cases hm : m = name
  · subst hm
    split <;> simp [*]
  · split <;> split <;> simp [hm]

end

/-! ## Applying and differentiating user functions -/

namespace Expr

variable [ElementaryScalar K] {depth : Nat} {env : Env K}

theorem yields_foldl {terms : List (Expr K)} {xs : List K}
    (h : List.Forall₂ (Yields depth env) terms xs) :
    ∀ {e : Expr K} {x : K}, e.Yields depth env x →
      (terms.foldl (· + ·) e).Yields depth env (x + xs.sum) := by
  induction h with
  | nil =>
    intro e x he
    rw [List.sum_nil, add_zero]
    exact he
  | cons hterm _ ih =>
    intro e x he
    rw [List.sum_cons, ← add_assoc]
    exact ih (he.add hterm)

theorem yields_sum {terms : List (Expr K)} {xs : List K}
    (h : List.Forall₂ (Yields depth env) terms xs) : (sum terms).Yields depth env xs.sum := by
  cases h with
  | nil => exact yields_num 0
  | cons hterm hterms =>
    rw [List.sum_cons]
    exact yields_foldl hterms hterm

/-- The terms of the chain rule, where an argument that does not mention the name has none. -/
theorem exists_chainTerms {name : String} {withBody : Expr K → Expr K} {body : Expr K}
    {B : (String → K) →ₗ[K] K} {args : List (Expr K)}
    {jets : List (K × ((String → K) →ₗ[K] K))}
    (hbody : ∀ param, ∃ db, body.derivative param = .ok db ∧
      (withBody db).Yields depth env (B (Pi.single param 1)))
    (hargs : List.Forall₂ (fun a j => Gradient depth env a j.1 j.2) args jets) :
    ∀ params : List String, ∃ terms xs, chainTerms name withBody body params args = .ok terms ∧
      List.Forall₂ (Yields depth env) terms xs ∧
      xs.sum = ((params.zip jets).map fun p =>
        p.2.2 (Pi.single name 1) * B (Pi.single p.1 1)).sum := by
  induction hargs with
  | nil =>
    intro params
    refine ⟨[], [], ?_, .nil, ?_⟩
    · cases params <;> rw [chainTerms.eq_def]
    · rw [List.zip_nil_right]
      rfl
  | @cons a jet args jets ha _ ih =>
    rintro (_ | ⟨param, params⟩)
    · refine ⟨[], [], ?_, .nil, rfl⟩
      rw [chainTerms.eq_def]
    · obtain ⟨terms, xs, hterms, hyields, hsum⟩ := ih params
      rw [chainTerms.eq_def, List.zip_cons_cons, List.map_cons, List.sum_cons, ← hsum]
      dsimp only
      by_cases hname : name ∈ a.freeNames
      · obtain ⟨db, hdb, hyb⟩ := hbody param
        obtain ⟨da, hda, hya⟩ := ha.derivative hname
        rw [if_neg (not_not_dependsOn hname), hdb, hda, hterms, mul_comm]
        exact ⟨_, _ :: xs, rfl, .cons (hyb.mul hya) hyields, List.sum_cons⟩
      · rw [if_pos (not_dependsOn_iff.2 hname), hterms, ha.single_eq_zero hname, zero_mul, zero_add]
        exact ⟨terms, xs, rfl, hyields, rfl⟩

namespace Gradient

theorem slopes_eq_zero {slopes : String → K} {args : List (Expr K)}
    {jets : List (K × ((String → K) →ₗ[K] K))}
    (hargs : List.Forall₂ (fun a j => Gradient depth env a j.1 j.2) args jets)
    (hslopes : ∀ a ∈ args, ∀ name ∈ a.freeNames, slopes name = 0) :
    ∀ j ∈ jets, j.2 slopes = 0 := by
  induction hargs with
  | nil =>
    intro j hj
    cases hj
  | cons ha _ ih =>
    intro j hj
    rcases List.mem_cons.1 hj with rfl | hj
    · exact ha.free slopes (hslopes _ (List.mem_cons_self ..))
    · exact ih (fun a ha => hslopes a (List.mem_cons_of_mem _ ha)) j hj

/-- The chain rule for a user function with distinct parameters. -/
theorem custom {f : String} {params : List String} {body : Expr K} {args : List (Expr K)}
    {jets : List (K × ((String → K) →ₗ[K] K))} {v : K} {B : (String → K) →ₗ[K] K}
    (hargs : List.Forall₂ (fun a j => Gradient depth env a j.1 j.2) args jets)
    (hlength : args.length = params.length) (hnodup : params.Nodup)
    (hbody : Gradient depth (env.enter ((params.zip jets).map fun p => (p.1, .num p.2.1))) body
      v B) :
    Gradient depth env (.apply (.custom f params body) args) v
      (B ∘ₗ chain ((params.zip jets).map fun p => (p.1, p.2.2))) := by
  have hvalues : List.Forall₂ (fun a j => Yields depth env a j.1) args jets :=
    hargs.imp fun _ _ h => h.value
  have hnames : ((params.zip jets).map fun p => (p.1, p.2.2)).map Prod.fst = params := by
    rw [List.map_map]
    refine List.map_fst_zip ?_
    rw [← hlength, hargs.length_eq]
  refine ⟨yields_custom hvalues hlength hbody.value, ?_, ?_, ?_⟩
  · intro slopes moving hmoving k
    have hchain : chain ((params.zip jets).map fun p => (p.1, p.2.2)) slopes =
        override slopes ((params.zip jets).map fun p => (p.1, p.2.2 slopes)) := by
      show override slopes (((params.zip jets).map _).map _) = _
      rw [List.map_map]
      rfl
    have hmovingArgs : List.Forall₂ (fun a j => Yields (k + 1) moving a (jet j.1 (j.2 slopes)))
        (args.map (Expr.map inl)) jets := by
      rw [List.forall₂_map_left_iff]
      exact hargs.imp fun _ _ h => h.moving hmoving k
    have hinside := hmoving.enter ((params.zip jets).map fun p => (p.1, jet p.2.1 (p.2.2 slopes)))
    simp only [List.map_map, Function.comp_def, fst_jet, snd_jet] at hinside
    show Yields (k + 1) moving (.apply (.custom f params (body.map inl)) (mapList inl args)) _
    rw [mapList_eq, LinearMap.comp_apply, hchain]
    exact yields_custom hmovingArgs ((List.length_map _).trans hlength) (hbody.moving hinside k)
  · intro name hname
    have hvalue : (B ∘ₗ chain ((params.zip jets).map fun p => (p.1, p.2.2))) (Pi.single name 1) =
        ((params.zip jets).map fun p => p.2.2 (Pi.single name 1) * B (Pi.single p.1 1)).sum +
          if name ∈ params then 0 else B (Pi.single name 1) := by
      rw [LinearMap.comp_apply, chain_single (hnames.symm ▸ hnodup), map_add, map_list_sum, hnames,
        List.map_map, List.map_map]
      congr 1
      · congr 2
        funext p
        exact map_smul B _ _
      · split
        · exact map_zero B
        · rfl
    have hwithBody : ∀ param, ∃ db, body.derivative param = .ok db ∧
        (Expr.apply (.custom f params db) args).Yields depth env (B (Pi.single param 1)) := by
      intro param
      obtain ⟨db, hdb, hyields⟩ := hbody.exists_derivative param
      exact ⟨db, hdb, yields_custom hvalues hlength hyields⟩
    obtain ⟨terms, xs, hterms, hyields, hsum⟩ := exists_chainTerms hwithBody hargs params
    have hrule := Expr.derivative.eq_def name (.apply (.custom f params body) args)
    rw [if_neg (not_not_dependsOn hname)] at hrule
    dsimp only at hrule
    rw [hterms] at hrule
    rw [hvalue, ← hsum]
    by_cases hinner : name ∉ params ∧ name ∈ body.freeNames
    · obtain ⟨db, hdb, hyb⟩ := hwithBody name
      have hcond : (decide (name ∉ params) && body.dependsOn name) = true := by
        rw [Bool.and_eq_true, decide_eq_true_eq, dependsOn_iff]
        exact hinner
      refine ⟨_, hrule.trans ((if_pos hcond).trans (by rw [hdb]; rfl)), ?_⟩
      rw [if_neg hinner.1, ← List.sum_singleton (x := B (Pi.single name 1)), ← List.sum_append]
      exact yields_sum (List.rel_append hyields (.cons hyb .nil))
    · have hcond : ¬(decide (name ∉ params) && body.dependsOn name) = true := by
        rw [Bool.and_eq_true, decide_eq_true_eq, dependsOn_iff]
        exact hinner
      have hfree : (if name ∈ params then 0 else B (Pi.single name 1)) = 0 := by
        split
        · rfl
        · rename_i hparam
          exact hbody.single_eq_zero fun hmem => hinner ⟨hparam, hmem⟩
      rw [hfree, add_zero]
      refine ⟨_, hrule.trans (if_neg hcond), yields_sum hyields⟩
  · intro slopes hslopes
    simp only [mem_freeNames_apply, Func.mem_freeNames_custom] at hslopes
    have hjets : ∀ p ∈ ((params.zip jets).map fun p => (p.1, p.2.2)).map
        fun p => (p.1, p.2 slopes), p.2 = 0 := by
      intro p hp
      obtain ⟨q, hq, rfl⟩ := List.mem_map.1 hp
      obtain ⟨r, hr, rfl⟩ := List.mem_map.1 hq
      exact slopes_eq_zero hargs (fun a ha n hn => hslopes n (.inr ⟨a, ha, hn⟩)) r.2
        (List.of_mem_zip hr).2
    refine hbody.free _ fun n hn => override_eq_zero hjets fun hparam => ?_
    rw [List.map_map, show Prod.fst ∘ (fun p => (p.1, p.2 slopes)) =
      (Prod.fst : String × ((String → K) →ₗ[K] K) → String) from rfl, hnames] at hparam
    exact hslopes n (.inl ⟨hn, hparam⟩)

end Gradient

end Expr

end ZeroSet
