import ZeroSet.Proofs.Expansion

/-!
# Errors about names and kinds

That a variable is not bound, or that its binding leads back to it, is found out where the
variable is looked up.  No operator, no check and no expansion raises such an error, nor do they
find a value of the wrong kind, since a mode yields values of its own kind only.  What an
expression can raise of these errors therefore depends on its variables alone.

* `Avoids` — results that are not an error of a certain kind.
* `EvalError.AboutName` — the errors of looking up a variable.
* `EvalError.AboutMeaning` — these, and the error of a value of the wrong kind.
* `BinOp.avoids_onValues`, `Builtin.avoids_check`, `Func.avoids_expand`, … — what does not
  raise them.
* `Expr.avoids_binary`, `Expr.avoids_custom`, … — a node avoids the errors its parts avoid.
* `Expr.avoids_of_variables` — an expression avoids the errors its variables avoid.
-/

namespace ZeroSet

variable {K α β : Type}

/-! ## Results that avoid errors -/

/-- The result is not one of the `bad` errors. -/
def Avoids (bad : EvalError K → Prop) (x : Except (EvalError K) α) : Prop :=
  ∀ err, x = .error err → ¬bad err

/-- The errors that looking up a variable ends in. -/
def EvalError.AboutName : EvalError K → Prop
  | .unboundVariable _ => True
  | .cyclicBinding _ => True
  | _ => False

/-- The errors about what a name stands for or of what kind a value is.  The others are about an
operation and its operands. -/
def EvalError.AboutMeaning : EvalError K → Prop
  | .typeMismatch _ _ => True
  | err => err.AboutName

namespace Avoids

variable {bad bad' : EvalError K → Prop} {x : Except (EvalError K) α}

theorem ok (a : α) : Avoids bad (.ok a) := by
  intro err h
  cases h

theorem error {err : EvalError K} (h : ¬bad err) : Avoids bad (.error err : Except _ α) := by
  intro err' herr
  cases herr
  exact h

theorem mono (h : Avoids bad x) (hbad : ∀ err, bad' err → bad err) : Avoids bad' x :=
  fun err herr hc => h err herr (hbad err hc)

theorem bind {f : α → Except (EvalError K) β} (hx : Avoids bad x)
    (hf : ∀ a, x = .ok a → Avoids bad (f a)) : Avoids bad (x >>= f) := by
  cases x with
  | error err => exact error (hx err rfl)
  | ok a => exact hf a rfl

theorem map {f : α → β} (hx : Avoids bad x) : Avoids bad (x.map f) := by
  cases x with
  | error err => exact error (hx err rfl)
  | ok a => exact ok (f a)

theorem mapM {f : α → Except (EvalError K) β} {as : List α} (h : ∀ a ∈ as, Avoids bad (f a)) :
    Avoids bad (as.mapM f) := by
  induction as with
  | nil => exact ok _
  | cons a as ih =>
    obtain ⟨ha, has⟩ := List.forall_mem_cons.1 h
    rw [List.mapM_cons]
    exact ha.bind fun _ _ => (ih has).bind fun _ _ => ok _

end Avoids

/-! ## Nothing but variables raises them -/

theorem Tuple.avoids_ofList (xs : List K) : Avoids EvalError.AboutMeaning (Tuple.ofList xs) := by
  unfold Tuple.ofList
  split
  · exact .ok _
  · exact .error id

theorem Tuple.avoids_zipWith (f : K → K → K) (t u : Tuple K) :
    Avoids EvalError.AboutMeaning (t.zipWith f u) := by
  unfold Tuple.zipWith
  split
  · exact .ok _
  · exact .error id

theorem Func.avoids_component : ∀ (f : Func K) (index : Nat),
    Avoids EvalError.AboutMeaning (f.component index)
  | .builtin b, index => by
    rw [Func.component]
    split
    · exact .ok _
    · exact .error id
  | .comp inner outer, index => by
    rw [Func.component]
    exact (outer.avoids_component index).bind fun _ _ => .ok _
  | .custom name params body, index => by
    unfold Func.component
    split
    · split
      · exact .ok _
      · exact .error id
    · split
      · exact .ok _
      · exact .error id

section

variable [Scalar K]

theorem Interval.avoids_ofBounds (lo hi : K) :
    Avoids EvalError.AboutMeaning (Interval.ofBounds lo hi) := by
  unfold Interval.ofBounds
  split
  · exact .ok _
  · exact .error id

theorem BinOp.avoids_onTuples (op : BinOp) (t u : Tuple K) :
    Avoids EvalError.AboutMeaning (op.onTuples t u) := by
  cases op with
  | add => exact t.avoids_zipWith _ u
  | sub => exact t.avoids_zipWith _ u
  | mul =>
    show Avoids _ (t.times u)
    unfold Tuple.times
    split
    · exact .ok _
    · exact .ok _
    · exact t.avoids_zipWith _ u
  | div =>
    show Avoids _ (t.divide u)
    unfold Tuple.divide
    split
    · exact .error id
    · split
      · exact .ok _
      · exact t.avoids_zipWith _ u

theorem BinOp.avoids_onIntervals (op : BinOp) (a b : Interval K) :
    Avoids EvalError.AboutMeaning (op.onIntervals a b) := by
  cases op with
  | div =>
    refine .bind ?_ fun _ _ => .ok _
    unfold Interval.inverse
    split
    · exact .error id
    · exact .ok _
  | _ => exact .ok _

theorem BinOp.avoids_onReals (op : BinOp) (x y : K) :
    Avoids EvalError.AboutMeaning (op.onReals x y) := by
  cases op with
  | div =>
    show Avoids _ (if _ then _ else _)
    split
    · exact .error id
    · exact .ok _
  | _ => exact .ok _

/-- Operands of the same kind are not mistaken for one another. -/
theorem BinOp.avoids_onValues (op : BinOp) {v w : Value K} (h : v.mode = w.mode) :
    Avoids EvalError.AboutMeaning (op.onValues v w) := by
  cases v <;> cases w
  case real.real x y => exact (op.avoids_onReals x y).map
  case interval.interval a b => exact (op.avoids_onIntervals a b).map
  case vector.vector t u => exact (op.avoids_onTuples t u).map
  all_goals cases h

theorem Builtin.avoids_check (b : Builtin K) : Avoids EvalError.AboutMeaning b.check := by
  unfold Builtin.check
  split
  · split
    · exact .ok _
    · exact .error id
  · split
    · exact .error id
    · exact .ok _
  · exact .ok _

theorem Func.avoids_apply (f : Func K) (args : List (Expr K)) :
    Avoids EvalError.AboutMeaning (f.apply args) := by
  unfold Func.apply
  split
  · exact .error id
  · cases f with
    | builtin b => exact b.avoids_check.bind fun _ _ => .ok _
    | _ => exact .ok _

theorem Func.avoids_expand : ∀ (f : Func K) (args : List (Expr K)),
    Avoids EvalError.AboutMeaning (f.expand args)
  | .builtin b, args => Func.avoids_apply (.builtin b) args
  | .custom name params body, args => Func.avoids_apply (.custom name params body) args
  | .comp inner outer, args => by
    rw [Func.expand]
    refine .bind (.mapM fun index _ => ?_) fun mid _ => outer.avoids_expand mid
    exact (inner.avoids_component index).bind fun g _ => g.avoids_apply args

end

/-! ## From the parts of a node to the node -/

namespace Expr

variable [Scalar K] {bad : EvalError K → Prop} {mode : Mode} {depth : Nat} {env : Env K}
  {a b : Expr K}

theorem avoids_num (hbad : ∀ err, bad err → err.AboutMeaning) (v : K) :
    Avoids bad ((num v).outcome mode depth env) := by
  rw [outcome_num]
  cases mode with
  | vector => exact .error fun hc => hbad _ hc
  | _ => exact .ok _

/-- What is expected of a value is the kind of its mode. -/
theorem avoids_asReal (ha : Avoids bad (a.outcome .real depth env)) :
    Avoids bad (a.outcome .real depth env >>= Value.asReal) := by
  refine ha.bind fun v hv => ?_
  obtain ⟨x, rfl⟩ := real_of_outcome hv
  exact .ok x

theorem avoids_asVector (ha : Avoids bad (a.outcome .vector depth env)) :
    Avoids bad (a.outcome .vector depth env >>= Value.asVector) := by
  refine ha.bind fun v hv => ?_
  obtain ⟨t, rfl⟩ := vector_of_outcome hv
  exact .ok t

theorem avoids_asInterval (ha : Avoids bad (a.outcome .interval depth env)) :
    Avoids bad (a.outcome .interval depth env >>= Value.asInterval) := by
  refine ha.bind fun v hv => ?_
  obtain ⟨range, rfl⟩ := interval_of_outcome hv
  exact .ok range

theorem avoids_vec (hbad : ∀ err, bad err → err.AboutMeaning) {items : List (Expr K)}
    (h : ∀ e ∈ items, Avoids bad (e.outcome .real depth env)) :
    Avoids bad ((vec items).outcome mode depth env) := by
  rw [outcome_vec]
  split
  · refine .bind (.mapM fun e he => avoids_asReal (h e he)) fun xs _ => ?_
    exact ((Tuple.avoids_ofList xs).mono hbad).bind fun _ _ => .ok _
  · exact .error fun hc => hbad _ hc

theorem avoids_interval (hbad : ∀ err, bad err → err.AboutMeaning)
    (ha : Avoids bad (a.outcome .real depth env)) (hb : Avoids bad (b.outcome .real depth env)) :
    Avoids bad ((interval a b).outcome mode depth env) := by
  rw [outcome_interval]
  split
  · refine (avoids_asReal ha).bind fun lo _ => (avoids_asReal hb).bind fun hi _ => ?_
    exact ((Interval.avoids_ofBounds lo hi).mono hbad).bind fun _ _ => .ok _
  · exact .error fun hc => hbad _ hc

theorem avoids_neg (ha : Avoids bad (a.outcome mode depth env)) :
    Avoids bad ((neg a).outcome mode depth env) := by
  rw [outcome_neg]
  exact ha.map

theorem avoids_binary (hbad : ∀ err, bad err → err.AboutMeaning) {op : BinOp}
    (ha : Avoids bad (a.outcome mode depth env)) (hb : Avoids bad (b.outcome mode depth env)) :
    Avoids bad ((binary op a b).outcome mode depth env) := by
  rw [outcome_binary]
  refine ha.bind fun v hv => hb.bind fun w hw => (op.avoids_onValues ?_).mono hbad
  rw [mode_of_outcome hv, mode_of_outcome hw]

theorem avoids_power (hbad : ∀ err, bad err → err.AboutMeaning)
    (ha : Avoids bad (a.outcome .real depth env)) (hb : Avoids bad (b.outcome .real depth env)) :
    Avoids bad ((power a b).outcome mode depth env) := by
  rw [outcome_power]
  split
  · exact (avoids_asReal ha).bind fun _ _ => (avoids_asReal hb).bind fun _ _ => .ok _
  · exact .error fun hc => hbad _ hc

theorem avoids_builtin (hbad : ∀ err, bad err → err.AboutMeaning) {f : Builtin K}
    {args : List (Expr K)} (h : ∀ a ∈ args, Avoids bad (a.outcome .real depth env)) :
    Avoids bad ((apply (.builtin f) args).outcome mode depth env) := by
  rw [outcome_builtin]
  refine (f.avoids_check.mono hbad).bind fun _ _ => ?_
  split
  · exact (avoids_asReal (h _ (List.mem_singleton_self _))).bind fun _ _ => .ok _
  · exact .error fun hc => hbad _ hc
  · exact .error fun hc => hbad _ hc

theorem avoids_custom (hbad : ∀ err, bad err → err.AboutMeaning) {name : String}
    {params : List String} {body : Expr K} {args : List (Expr K)}
    (hargs : ∀ a ∈ args, Avoids bad (a.outcome mode depth env))
    (hbody : ∀ values : List (Value K), values.length = params.length →
      Avoids bad (body.outcome mode depth (env.enter (params.zip (values.map Value.toExpr))))) :
    Avoids bad ((apply (.custom name params body) args).outcome mode depth env) := by
  rw [outcome_custom]
  split
  · exact .error fun hc => hbad _ hc
  · rename_i hlength
    refine .bind (.mapM hargs) fun values hvalues => hbody values ?_
    rw [← (mapM_eq_ok.1 hvalues).length_eq]
    exact not_not.1 hlength

theorem avoids_comp (hbad : ∀ err, bad err → err.AboutMeaning) {inner outer : Func K}
    {args : List (Expr K)}
    (h : ∀ e, (Func.comp inner outer).expand args = .ok e → Avoids bad (e.outcome mode depth env)) :
    Avoids bad ((apply (.comp inner outer) args).outcome mode depth env) := by
  rw [outcome_comp]
  exact ((Func.avoids_expand (.comp inner outer) args).mono hbad).bind h

/-! ## From the variables to the expression -/

/-- An expression avoids the errors its variables avoid.  What is known of an environment and of
the names that may be looked up in it may be any condition that a call hands on, which adds its
parameters to the names. -/
theorem avoids_of_variables (hbad : ∀ err, bad err → err.AboutMeaning)
    {P : (String → Prop) → Env K → Prop}
    (hcall : ∀ {S : String → Prop} {env : Env K} {params : List String} {values : List (Value K)},
      values.length = params.length → P S env →
        P (fun n => n ∈ params ∨ S n) (env.enter (params.zip (values.map Value.toExpr))))
    (hvar : ∀ {name : String} {S : String → Prop} {env : Env K} (mode : Mode), P S env →
      S name → Avoids bad ((var name : Expr K).outcome mode depth env))
    {S : String → Prop} (e : Expr K) (mode : Mode) (henv : P S env)
    (he : ∀ n ∈ e.freeNames, S n) : Avoids bad (e.outcome mode depth env) := by
  induction e using expansionInduction generalizing mode S env with
  | num v => exact avoids_num hbad v
  | var name => exact hvar mode henv (he name (List.mem_singleton_self name))
  | vec items ih =>
    refine avoids_vec hbad fun e hmem => ih e hmem .real henv fun n hn => ?_
    exact he n (mem_freeNamesList.2 ⟨e, hmem, hn⟩)
  | interval lo hi ihlo ihhi =>
    obtain ⟨hlo, hhi⟩ := List.forall_mem_append.1 he
    exact avoids_interval hbad (ihlo .real henv hlo) (ihhi .real henv hhi)
  | neg a ih => exact avoids_neg (ih mode henv he)
  | binary op a b iha ihb =>
    obtain ⟨ha, hb⟩ := List.forall_mem_append.1 he
    exact avoids_binary hbad (iha mode henv ha) (ihb mode henv hb)
  | power a b iha ihb =>
    obtain ⟨ha, hb⟩ := List.forall_mem_append.1 he
    exact avoids_power hbad (iha .real henv ha) (ihb .real henv hb)
  | builtin f args ih =>
    simp only [mem_freeNames_apply] at he
    refine avoids_builtin hbad fun a ha => ih a ha .real henv fun n hn => ?_
    exact he n (.inr ⟨a, ha, hn⟩)
  | custom f params body args ihargs ihbody =>
    simp only [mem_freeNames_apply, Func.mem_freeNames_custom] at he
    refine avoids_custom hbad (fun a ha => ?_) fun values hlength => ?_
    · exact ihargs a ha mode henv fun n hn => he n (.inr ⟨a, ha, hn⟩)
    · refine ihbody mode (hcall hlength henv) fun n hn => ?_
      by_cases hparam : n ∈ params
      · exact .inl hparam
      · exact .inr (he n (.inl ⟨hn, hparam⟩))
  | comp inner outer args ih =>
    simp only [mem_freeNames_apply] at he
    refine avoids_comp hbad fun e hexpanded => ih e hexpanded mode henv ?_
    exact (hereditary_freeNames S).expand hexpanded (fun n hn => he n (.inl hn))
      fun a ha n hn => he n (.inr ⟨a, ha, hn⟩)

end Expr

end ZeroSet
