import ZeroSet.Proofs.Exact
import ZeroSet.Proofs.Outcome

/-!
# Expressions with real values

`Expr.Yields` says that an expression evaluates to a real number.  For every kind of node there
is a lemma from the parts to the whole and one from the whole to the parts.

* `Expr.Yields.binary`, `Expr.Yields.power`, `Expr.yields_custom`, … — what a node yields.
* `Expr.Yields.exists_binary`, `Expr.Yields.exists_power`, … — what its parts have to yield.
* `Expr.evaluateReal_eq_ok` — the top of an evaluation.
-/

namespace ZeroSet

namespace Expr

/-! ## From the parts to the whole -/

section

variable {K : Type} [Scalar K] {depth : Nat} {env : Env K} {a b : Expr K} {x y z : K}

/-- The expression evaluates to a real number. -/
def Yields (depth : Nat) (env : Env K) (e : Expr K) (x : K) : Prop :=
  e.outcome .real depth env = .ok (.real x)

theorem yields_num (x : K) : (num x).Yields depth env x := outcome_num x

theorem yields_var {name : String} (hname : name ∉ env.resolving)
    (hget : env.bindings.get? name = some (.num x)) : (var name).Yields (depth + 1) env x := by
  show (Expr.var name).outcome .real (depth + 1) env = _
  rw [outcome_var, if_neg hname, hget]
  exact outcome_num x

/-- A name with a value is not being resolved. -/
theorem Yields.notMem_resolving {name : String} (h : (var name).Yields depth env x) :
    name ∉ env.resolving ∧ 0 < depth := by
  cases depth with
  | zero =>
    obtain ⟨err, herr⟩ := outcome_var_zero name .real env
    cases herr.symm.trans h
  | succ depth =>
    refine ⟨fun hname => ?_, depth.succ_pos⟩
    rw [Yields, outcome_var, if_pos hname] at h
    cases h

theorem Yields.neg (ha : a.Yields depth env x) : (-a).Yields depth env (-x) := by
  show (Expr.neg a).outcome .real depth env = _
  rw [outcome_neg, ha]
  rfl

theorem Yields.binary {op : BinOp} (ha : a.Yields depth env x) (hb : b.Yields depth env y)
    (h : op.onReals x y = .ok z) : (binary op a b).Yields depth env z := by
  show (Expr.binary op a b).outcome .real depth env = _
  rw [outcome_binary, ha, hb]
  show (op.onReals x y).map Value.real = _
  rw [h]
  rfl

theorem Yields.add (ha : a.Yields depth env x) (hb : b.Yields depth env y) :
    (a + b).Yields depth env (x + y) := ha.binary hb rfl

theorem Yields.sub (ha : a.Yields depth env x) (hb : b.Yields depth env y) :
    (a - b).Yields depth env (x - y) := ha.binary hb rfl

theorem Yields.mul (ha : a.Yields depth env x) (hb : b.Yields depth env y) :
    (a * b).Yields depth env (x * y) := ha.binary hb rfl

theorem Yields.power (ha : a.Yields depth env x) (hb : b.Yields depth env y) :
    (power a b).Yields depth env (Scalar.pow x y) := by
  show (Expr.power a b).outcome .real depth env = _
  rw [outcome_power, if_pos rfl, ha, hb]
  rfl

theorem Yields.builtin {f : Builtin K} (hf : f.check = .ok ()) (ha : a.Yields depth env x) :
    (apply (.builtin f) [a]).Yields depth env (f.value x) := by
  show (apply (.builtin f) [a]).outcome .real depth env = _
  rw [outcome_builtin, hf]
  show (a.outcome .real depth env >>= Value.asReal >>= fun x => pure (Value.real (f.value x))) = _
  rw [ha]
  rfl

theorem Yields.exp (ha : a.Yields depth env x) : (exp a).Yields depth env (Scalar.exp x) :=
  ha.builtin (f := .exp) rfl

theorem Yields.ln (ha : a.Yields depth env x) : (ln a).Yields depth env (Scalar.ln x) :=
  ha.builtin (f := .ln) rfl

theorem Yields.sqrt (ha : a.Yields depth env x) : (sqrt a).Yields depth env (Scalar.sqrt x) :=
  ha.builtin (f := .sqrt) rfl

/-- A user function yields what its body yields where the parameters stand for the values of the
arguments. -/
theorem yields_custom {J : Type} {name : String} {params : List String} {body : Expr K}
    {args : List (Expr K)} {jets : List J} {value : J → K} {x : K}
    (hargs : List.Forall₂ (fun a j => a.Yields depth env (value j)) args jets)
    (hlength : args.length = params.length)
    (hbody : body.Yields depth
      (env.enter ((params.zip jets).map fun p => (p.1, .num (value p.2)))) x) :
    (apply (.custom name params body) args).Yields depth env x := by
  have hvalues : args.mapM (fun a => a.outcome .real depth env) =
      .ok (jets.map fun j => .real (value j)) := by
    rw [mapM_eq_ok, List.forall₂_map_right_iff]
    exact hargs
  have hpairs : params.zip ((jets.map fun j => Value.real (value j)).map Value.toExpr) =
      (params.zip jets).map fun p => (p.1, .num (value p.2)) := by
    rw [List.map_map, List.zip_map_right]
    rfl
  show Expr.outcome _ _ _ _ = _
  rw [outcome_custom, if_neg (not_not_intro hlength), hvalues]
  show body.outcome .real depth (env.enter (params.zip _)) = _
  rw [hpairs]
  exact hbody

/-! ## From the whole to the parts -/

theorem Yields.exists_neg (h : (Expr.neg a).Yields depth env z) :
    ∃ x, a.Yields depth env x ∧ z = -x := by
  rw [Yields, outcome_neg] at h
  obtain ⟨v, hv, h⟩ := map_eq_ok.1 h
  obtain ⟨x, rfl⟩ := real_of_outcome hv
  cases h
  exact ⟨x, hv, rfl⟩

theorem Yields.exists_binary {op : BinOp} (h : (Expr.binary op a b).Yields depth env z) :
    ∃ x y, a.Yields depth env x ∧ b.Yields depth env y ∧ op.onReals x y = .ok z := by
  rw [Yields, outcome_binary] at h
  obtain ⟨v, hv, h⟩ := bind_eq_ok.1 h
  obtain ⟨w, hw, h⟩ := bind_eq_ok.1 h
  obtain ⟨x, rfl⟩ := real_of_outcome hv
  obtain ⟨y, rfl⟩ := real_of_outcome hw
  obtain ⟨z, hz, h⟩ := map_eq_ok.1 h
  cases h
  exact ⟨x, y, hv, hw, hz⟩

theorem Yields.exists_power (h : (Expr.power a b).Yields depth env z) :
    ∃ x y, a.Yields depth env x ∧ b.Yields depth env y ∧ z = Scalar.pow x y := by
  rw [Yields, outcome_power, if_pos rfl, bind_assoc] at h
  obtain ⟨v, hv, h⟩ := bind_eq_ok.1 h
  obtain ⟨x, rfl⟩ := real_of_outcome hv
  obtain ⟨_, hx, h⟩ := bind_eq_ok.1 h
  cases hx
  rw [bind_assoc] at h
  obtain ⟨w, hw, h⟩ := bind_eq_ok.1 h
  obtain ⟨y, rfl⟩ := real_of_outcome hw
  obtain ⟨_, hy, h⟩ := bind_eq_ok.1 h
  cases hy
  cases h
  exact ⟨x, y, hv, hw, rfl⟩

/-- A built-in with a value is applied to one argument. -/
theorem Yields.exists_argument {f : Builtin K} {args : List (Expr K)}
    (h : (apply (.builtin f) args).Yields depth env z) : ∃ a, args = [a] := by
  rw [Yields, outcome_builtin] at h
  obtain ⟨_, -, h⟩ := bind_eq_ok.1 h
  match args, h with
  | [a], _ => exact ⟨a, rfl⟩

theorem Yields.exists_builtin {f : Builtin K}
    (h : (apply (.builtin f) [a]).Yields depth env z) :
    f.check = .ok () ∧ ∃ x, a.Yields depth env x ∧ z = f.value x := by
  rw [Yields, outcome_builtin] at h
  obtain ⟨_, hf, h⟩ := bind_eq_ok.1 h
  dsimp only at h
  rw [bind_assoc] at h
  obtain ⟨v, hv, h⟩ := bind_eq_ok.1 h
  obtain ⟨x, rfl⟩ := real_of_outcome hv
  obtain ⟨_, hx, h⟩ := bind_eq_ok.1 h
  cases hx
  cases h
  exact ⟨hf, x, hv, rfl⟩

theorem Yields.exists_custom {name : String} {params : List String} {body : Expr K}
    {args : List (Expr K)} (h : (apply (.custom name params body) args).Yields depth env z) :
    args.length = params.length ∧ ∃ xs, List.Forall₂ (Yields depth env) args xs ∧
      body.Yields depth (env.enter (params.zip (xs.map .num))) z := by
  rw [Yields, outcome_custom] at h
  split at h
  · cases h
  · rename_i hlength
    obtain ⟨values, hvalues, h⟩ := bind_eq_ok.1 h
    obtain ⟨xs, rfl⟩ := reals_of_outcomes hvalues
    rw [List.map_map] at h
    rw [mapM_eq_ok, List.forall₂_map_right_iff] at hvalues
    exact ⟨not_not.1 hlength, xs, hvalues, h⟩

theorem Yields.expanded {inner outer : Func K} {args : List (Expr K)}
    (h : (apply (.comp inner outer) args).Yields depth env z) {e : Expr K}
    (he : (Func.comp inner outer).expand args = .ok e) : e.Yields depth env z := by
  rw [Yields, outcome_comp, he] at h
  exact h

theorem evaluateReal_eq_ok {e : Expr K} :
    e.evaluateReal.value env = .ok x ↔ e.Yields (env.bindings.size + 1) env x := by
  rw [value_evaluateReal, bind_eq_ok]
  constructor
  · rintro ⟨v, hv, h⟩
    obtain ⟨y, rfl⟩ := real_of_outcome hv
    cases h
    exact hv
  · exact fun h => ⟨_, h, rfl⟩

theorem Yields.unique (hx : a.Yields depth env x) (hy : a.Yields depth env y) : x = y := by
  cases hx.symm.trans hy
  rfl

end

theorem Yields.div {K : Type} [ExactScalar K] {depth : Nat} {env : Env K} {a b : Expr K} {x y : K}
    (ha : a.Yields depth env x) (hb : b.Yields depth env y) (hy : y ≠ 0) :
    (a / b).Yields depth env (x / y) := by
  refine ha.binary hb ?_
  rw [BinOp.onReals, if_neg (by simpa using hy)]

end Expr

end ZeroSet
