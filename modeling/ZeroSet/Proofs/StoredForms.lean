import ZeroSet.Proofs.JsonText
import ZeroSet.Proofs.Trees
import ZeroSet.Scalar.Binary64
import ZeroSet.Storage

/-!
# Stored values are read back

A value goes to a tree and the tree to a text; reading goes the same way back.  The text gives the
tree again, so what is shown here is that each stored form is decoded to what it was encoded from,
one alternative at a time, and that decoding goes no deeper than the tree is.

Scalars are taken as they are printed: a finite one is read back from its text, and anything else
is written as `null` (`Json.Faithful`).  A `null` is never taken for a number, a missing parameter
included, so it makes whatever it is a part of unreadable rather than something else.

* `Json.partialFields?_record` — the fields of an object are found by their names.
* `Json.depth` — how deep a tree is.
* `Expr.decode_encode`, `Material.decode_encode`, `Settings.decode_encode` — stored forms are
  decoded.
* `Expr.decode_eq_none` — an expression with a `null` for a number is not.
* `Expr.isWritten_encode` — what is encoded is what a text gives back.
* `Stored.read?_write` — what is written is read back, or refused.
-/

namespace ZeroSet

/-! ## Parts of trees -/

namespace Json

/-- A string is the one that its code points spell. -/
theorem toString?_ofString (s : String) : (Text.ofString s).toString? = some s := by
  have hchars : ∀ cs : List Char, Text.toChars? (cs.map Char.toNat) = some cs := by
    intro cs
    induction cs with
    | nil => rfl
    | cons c cs ih =>
      obtain ⟨hhigh, hlow⟩ := Text.not_surrogate c
      cases cs with
      | nil => simp [Text.toChars?, hhigh, hlow]
      | cons d ds =>
        rw [List.map_cons] at ih
        simp [Text.toChars?, hhigh, hlow, ih]
  rw [Text.toString?, Text.ofString, hchars, Option.map_some, String.ofList_toList]

@[simp] theorem asString?_ofString (s : String) : (ofString s).asString? = some s :=
  toString?_ofString s

@[simp] theorem alternative?_choice (tag : String) (payload : Json) :
    (choice tag payload).alternative? = some (tag, payload) := by
  rw [choice, record, List.map_singleton, alternative?, toString?_ofString]
  rfl

/-- A member is found by its name if no other member has that name. -/
theorem member?_eq_some {members : List (String × Json)} (h : (members.map Prod.fst).Nodup)
    {m : String × Json} (hm : m ∈ members) : member? m.1 members = some (some m.2) := by
  have hfilter : members.filter (·.1 = m.1) = [m] := by
    induction members with
    | nil => cases hm
    | cons first members ih =>
      rw [List.map_cons, List.nodup_cons] at h
      rcases List.mem_cons.1 hm with rfl | hm
      · rw [List.filter_cons_of_pos (by simp), List.cons.injEq, List.filter_eq_nil_iff]
        refine ⟨rfl, fun m' hm' heq => h.1 ?_⟩
        rw [← of_decide_eq_true heq]
        exact List.mem_map_of_mem hm'
      · rw [List.filter_cons_of_neg, ih h.2 hm]
        intro heq
        apply h.1
        rw [of_decide_eq_true heq]
        exact List.mem_map_of_mem hm
  rw [member?, hfilter]

/-- What is found one by one is found in a list. -/
theorem mapM_map_eq_some {α β γ : Type} {f : α → Option γ} {g : β → α} {k : β → γ} {bs : List β}
    (h : ∀ b ∈ bs, f (g b) = some (k b)) : (bs.map g).mapM f = some (bs.map k) := by
  induction bs with
  | nil => rfl
  | cons b bs ih =>
    obtain ⟨hb, hbs⟩ := List.forall_mem_cons.1 h
    rw [List.map_cons, List.mapM_cons, hb, ih hbs]
    rfl

section

variable {members : List (String × Json)}

/-- The fields of an object whose keys all differ are its members. -/
theorem partialFields?_record (h : (members.map Prod.fst).Nodup) :
    (record members).partialFields? (members.map Prod.fst) =
      some (members.map fun m => some m.2) := by
  have hkeys : (members.map fun m => (Text.ofString m.1, m.2)).mapM
      (fun m => m.1.toString?.map (·, m.2)) = some (members.map id) := by
    refine mapM_map_eq_some fun m _ => ?_
    rw [toString?_ofString]
    rfl
  rw [record, partialFields?, hkeys, List.map_id]
  exact mapM_map_eq_some fun m hm => member?_eq_some h hm

theorem fields?_record (h : (members.map Prod.fst).Nodup) :
    (record members).fields? (members.map Prod.fst) = some (members.map Prod.snd) := by
  rw [fields?, partialFields?_record h]
  exact mapM_map_eq_some fun m _ => rfl

end

@[simp] theorem field?_record (name : String) (a : Json) :
    (record [(name, a)]).field? name = some a := by
  have h : (record [(name, a)]).fields? [name] = some [a] := fields?_record (by simp)
  rw [field?, h]

theorem twoFields?_record {first second : String} (h : first ≠ second) (a b : Json) :
    (record [(first, a), (second, b)]).twoFields? first second = some (a, b) := by
  have hfields : (record [(first, a), (second, b)]).fields? [first, second] = some [a, b] :=
    fields?_record (by simpa using h)
  rw [twoFields?, hfields]

/-! ## How deep a tree is -/

mutual

/-- How many arrays and objects hold each other at most. -/
def depth : Json → ℕ
  | .array items => depthItems items + 1
  | .object members => depthMembers members + 1
  | _ => 0

/-- How deep some trees are at most. -/
def depthItems : List Json → ℕ
  | [] => 0
  | j :: js => max j.depth (depthItems js)

/-- How deep the values of some members are at most. -/
def depthMembers : List (Text × Json) → ℕ
  | [] => 0
  | (_, j) :: members => max j.depth (depthMembers members)

end

theorem depth_array (items : List Json) : (array items).depth = depthItems items + 1 := by
  rw [depth]

theorem depth_choice (tag : String) (payload : Json) :
    (choice tag payload).depth = payload.depth + 1 := by
  simp [choice, record, depth, depthMembers]

theorem depth_record_singleton (name : String) (a : Json) :
    (record [(name, a)]).depth = a.depth + 1 := by
  simp [record, depth, depthMembers]

theorem depth_record_pair (first second : String) (a b : Json) :
    (record [(first, a), (second, b)]).depth = max a.depth b.depth + 1 := by
  simp [record, depth, depthMembers]

end Json

/-! ## Scalars -/

section

variable {K : Type} [Scalar K] [Decimal K]

/-- A scalar is written so that it is read back if it is finite, and as `null` if it is not. -/
structure Json.Faithful (x : K) : Prop where
  /-- A finite scalar is read back from its text. -/
  finite : Scalar.isFinite x = true →
    (Json.read? (Json.ofScalar x).render).bind Json.asScalar? = some x
  /-- Anything else has no text. -/
  notFinite : Scalar.isFinite x = false → Json.ofScalar x = .null

namespace Json.Faithful

variable {x : K}

theorem isWritten (h : Faithful x) : (ofScalar x).IsWritten := by
  cases hfinite : Scalar.isFinite x with
  | false =>
    rw [h.notFinite hfinite]
    exact .null
  | true =>
    have hread := h.finite hfinite
    rw [ofScalar] at hread ⊢
    cases hn : Number.ofNumeral? (Decimal.shortest .toEven x) with
    | none => exact .null
    | some n =>
      rw [hn] at hread
      have hdigits := Number.hasDigits_of_ofNumeral? hn
      refine .number ⟨hdigits, ?_⟩
      rw [← Bool.not_eq_true]
      intro hzero
      dsimp only at hread
      rw [read?_render_of_leadingZero hdigits hzero] at hread
      cases hread

theorem asScalar?_ofScalar (h : Faithful x) (hfinite : Scalar.isFinite x = true) :
    (ofScalar x).asScalar? = some x := by
  have hread := h.finite hfinite
  rw [h.isWritten.read?_render] at hread
  exact hread

end Json.Faithful

end

/-! ## Expressions and functions -/

mutual

/-- The numbers in an expression, the bodies and parameters of applied functions included. -/
def Expr.scalars {K : Type} : Expr K → List K
  | .num v => [v]
  | .var _ => []
  | .vec items => Expr.scalarsList items
  | .interval lo hi => lo.scalars ++ hi.scalars
  | .neg a => a.scalars
  | .binary _ a b => a.scalars ++ b.scalars
  | .power a b => a.scalars ++ b.scalars
  | .apply f args => f.scalars ++ Expr.scalarsList args

/-- The numbers in some expressions. -/
def Expr.scalarsList {K : Type} : List (Expr K) → List K
  | [] => []
  | e :: es => e.scalars ++ Expr.scalarsList es

/-- The numbers in a function. -/
def Func.scalars {K : Type} : Func K → List K
  | .custom _ _ body => body.scalars
  | .comp inner outer => inner.scalars ++ outer.scalars
  | .builtin b => b.parameter?.toList

end

section

variable {K : Type} [Scalar K] [Decimal K]

open Json (depthItems)

theorem Builtin.decode_encode (b : Builtin K) (depth : ℕ)
    (hscalars : ∀ x ∈ b.parameter?, (Json.ofScalar x).asScalar? = some x)
    (hdepth : b.encode.depth ≤ depth) : Builtin.decode depth b.encode = some b := by
  have hname : ∀ name : String, (Json.ofString name).bareName? depth = some name :=
    fun name => Json.toString?_ofString name
  -- an alternative to which a number belongs is not a bare name
  have hchoice : ∀ (tag : String) (x : K), (Json.ofScalar x).asScalar? = some x →
      (Json.choice tag (Json.ofScalar x)).bareName? depth = none := by
    intro tag x hx
    cases hj : Json.ofScalar x with
    | number n =>
      have halternative := Json.alternative?_choice tag (.number n)
      cases depth with
      | zero => rfl
      | succ d =>
        simp only [Json.choice, Json.record, List.map_singleton] at halternative ⊢
        simp [Json.bareName?, halternative]
    | _ =>
      rw [hj] at hx
      cases hx
  cases b with
  | exp => simp [encode, decode, hname]
  | ln => simp [encode, decode, hname]
  | sqrt => simp [encode, decode, hname]
  | log base =>
    rw [encode, Json.depth_choice] at hdepth
    obtain ⟨d, rfl⟩ : ∃ d, depth = d + 1 := ⟨depth - 1, by omega⟩
    have hbase := hscalars base rfl
    simp [encode, decode, hchoice "Log" base hbase, hbase]
  | root degree =>
    rw [encode, Json.depth_choice] at hdepth
    obtain ⟨d, rfl⟩ : ∃ d, depth = d + 1 := ⟨depth - 1, by omega⟩
    have hdegree := hscalars degree rfl
    simp [encode, decode, hchoice "Root" degree hdegree, hdegree]

theorem Builtin.decode_eq_none (b : Builtin K) (depth : ℕ)
    (h : ∃ x ∈ b.parameter?, Json.ofScalar x = .null) :
    (Builtin.decode depth b.encode : Option (Builtin K)) = none := by
  -- the name alone could be meant, but it is not that of a function without a parameter
  have hchoice : ∀ tag : String, (Json.choice tag .null).bareName? depth =
      if depth = 0 then none else some tag := by
    intro tag
    have halternative := Json.alternative?_choice tag .null
    simp only [Json.choice, Json.record, List.map_singleton] at halternative ⊢
    cases depth with
    | zero => simp [Json.bareName?]
    | succ d => simp [Json.bareName?, halternative]
  obtain ⟨x, hx, hnull⟩ := h
  cases b with
  | exp => cases hx
  | ln => cases hx
  | sqrt => cases hx
  | log base =>
    cases hx
    cases depth with
    | zero => simp [encode, decode, hnull, hchoice]
    | succ d => simp [encode, decode, hnull, hchoice, Json.asScalar?]
  | root degree =>
    cases hx
    cases depth with
    | zero => simp [encode, decode, hnull, hchoice]
    | succ d => simp [encode, decode, hnull, hchoice, Json.asScalar?]

/-! ### One step into an expression or a function -/

section

variable (d : ℕ)

attribute [local simp] Expr.encode Expr.decode Func.encode Func.decode

theorem Expr.decode_num (v : K) :
    (Expr.decode (d + 1) (Expr.num v).encode : Option (Expr K)) =
      (Json.ofScalar v).asScalar?.map .num := by
  simp

theorem Expr.decode_var (name : String) :
    Expr.decode (d + 1) (Expr.var name : Expr K).encode = some (.var name : Expr K) := by
  simp

theorem Expr.decode_vec (items : List (Expr K)) :
    (Expr.decode (d + 2) (Expr.vec items).encode : Option (Expr K)) = do
      return .vec (← (Expr.encodeList items).mapM (Expr.decode d)) := by
  simp [Json.asItems?]

theorem Expr.decode_interval (lo hi : Expr K) :
    (Expr.decode (d + 2) (Expr.interval lo hi).encode : Option (Expr K)) = do
      return .interval (← Expr.decode d lo.encode) (← Expr.decode d hi.encode) := by
  simp [Json.twoFields?_record]

theorem Expr.decode_neg (a : Expr K) :
    (Expr.decode (d + 2) (Expr.neg a).encode : Option (Expr K)) = do
      return .neg (← Expr.decode d a.encode) := by
  simp

theorem Expr.decode_binary (op : BinOp) (a b : Expr K) :
    (Expr.decode (d + 2) (Expr.binary op a b).encode : Option (Expr K)) = do
      return .binary op (← Expr.decode d a.encode) (← Expr.decode d b.encode) := by
  have hfields := Json.twoFields?_record (show "a" ≠ "b" by decide) a.encode b.encode
  rw [Expr.encode]
  conv_lhs => unfold Expr.decode
  cases op <;> simp [BinOp.tag, BinOp.ofTag?, hfields]

theorem Expr.decode_power (a b : Expr K) :
    (Expr.decode (d + 2) (Expr.power a b).encode : Option (Expr K)) = do
      return .power (← Expr.decode d a.encode) (← Expr.decode d b.encode) := by
  simp [Json.twoFields?_record]

theorem Expr.decode_apply (f : Func K) (args : List (Expr K)) :
    (Expr.decode (d + 2) (Expr.apply f args).encode : Option (Expr K)) = do
      return .apply (← Func.decode d f.encode)
        (← Expr.decodeItems d (.array (Expr.encodeList args))) := by
  simp [Json.twoFields?_record]

/-- Only numbers and variables are a single object. -/
theorem Expr.decode_one {tag : String} (hnum : tag ≠ "Number") (hvar : tag ≠ "Variable")
    (payload : Json) : (Expr.decode 1 (.choice tag payload) : Option (Expr K)) = none := by
  unfold Expr.decode
  rw [Json.alternative?_choice]
  split <;> simp_all

theorem Func.decode_custom (name : String) (params : List String) (body : Expr K) :
    (Func.decode (d + 2) (Func.custom name params body).encode : Option (Func K)) =
      if d = 0 then none else do return .custom name params (← Expr.decode d body.encode) := by
  have hparams : (params.map Json.ofString).mapM Json.asString? = some (params.map id) :=
    Json.mapM_map_eq_some fun name _ => Json.asString?_ofString name
  have hfields : (Json.record [("name", .ofString name), ("params", .array (params.map .ofString)),
      ("body", body.encode)]).fields? ["name", "params", "body"] =
        some [.ofString name, .array (params.map .ofString), body.encode] :=
    Json.fields?_record (by simp)
  rw [List.map_id] at hparams
  by_cases hd : d = 0
  · simp [hfields, hd]
  · simp [hfields, hd, Json.asItems?, hparams]

theorem Func.decode_comp (inner outer : Func K) :
    (Func.decode (d + 2) (Func.comp inner outer).encode : Option (Func K)) = do
      return .comp (← Func.decode d inner.encode) (← Func.decode d outer.encode) := by
  simp [Json.twoFields?_record]

theorem Func.decode_builtin (b : Builtin K) :
    (Func.decode (d + 1) (Func.builtin b).encode : Option (Func K)) =
      (Builtin.decode d b.encode).map .builtin := by
  simp

/-- Only built-in functions can be a single object. -/
theorem Func.decode_one {tag : String} (hbuiltin : tag ≠ "Default") (payload : Json) :
    (Func.decode 1 (.choice tag payload) : Option (Func K)) = none := by
  unfold Func.decode
  rw [Json.alternative?_choice]
  split <;> simp_all

end

/-! ### Whole expressions -/

mutual

/-- An expression whose numbers are read back is read back itself if it is not nested too
deeply. -/
theorem Expr.decode_encode : ∀ (e : Expr K) (depth : ℕ),
    (∀ x ∈ e.scalars, (Json.ofScalar x).asScalar? = some x) → e.encode.depth ≤ depth →
      Expr.decode depth e.encode = some e
  | .num v, depth, hscalars, hdepth => by
    rw [Expr.encode, Json.depth_choice] at hdepth
    obtain ⟨d, rfl⟩ : ∃ d, depth = d + 1 := ⟨depth - 1, by omega⟩
    rw [Expr.decode_num, hscalars v (by simp [Expr.scalars])]
    rfl
  | .var name, depth, _, hdepth => by
    rw [Expr.encode, Json.depth_choice] at hdepth
    obtain ⟨d, rfl⟩ : ∃ d, depth = d + 1 := ⟨depth - 1, by omega⟩
    exact Expr.decode_var d name
  | .vec items, depth, hscalars, hdepth => by
    rw [Expr.encode, Json.depth_choice, Json.depth_array] at hdepth
    obtain ⟨d, rfl⟩ : ∃ d, depth = d + 2 := ⟨depth - 2, by omega⟩
    rw [Expr.scalars] at hscalars
    rw [Expr.decode_vec, Expr.mapM_decode_encodeList items d hscalars (by omega)]
    rfl
  | .interval lo hi, depth, hscalars, hdepth => by
    rw [Expr.encode, Json.depth_choice, Json.depth_record_pair] at hdepth
    obtain ⟨d, rfl⟩ : ∃ d, depth = d + 2 := ⟨depth - 2, by omega⟩
    simp only [Expr.scalars, List.forall_mem_append] at hscalars
    rw [Expr.decode_interval, Expr.decode_encode lo d hscalars.1 (by omega),
      Expr.decode_encode hi d hscalars.2 (by omega)]
    rfl
  | .neg a, depth, hscalars, hdepth => by
    rw [Expr.encode, Json.depth_choice, Json.depth_record_singleton] at hdepth
    obtain ⟨d, rfl⟩ : ∃ d, depth = d + 2 := ⟨depth - 2, by omega⟩
    rw [Expr.scalars] at hscalars
    rw [Expr.decode_neg, Expr.decode_encode a d hscalars (by omega)]
    rfl
  | .binary op a b, depth, hscalars, hdepth => by
    rw [Expr.encode, Json.depth_choice, Json.depth_record_pair] at hdepth
    obtain ⟨d, rfl⟩ : ∃ d, depth = d + 2 := ⟨depth - 2, by omega⟩
    simp only [Expr.scalars, List.forall_mem_append] at hscalars
    rw [Expr.decode_binary, Expr.decode_encode a d hscalars.1 (by omega),
      Expr.decode_encode b d hscalars.2 (by omega)]
    rfl
  | .power a b, depth, hscalars, hdepth => by
    rw [Expr.encode, Json.depth_choice, Json.depth_record_pair] at hdepth
    obtain ⟨d, rfl⟩ : ∃ d, depth = d + 2 := ⟨depth - 2, by omega⟩
    simp only [Expr.scalars, List.forall_mem_append] at hscalars
    rw [Expr.decode_power, Expr.decode_encode a d hscalars.1 (by omega),
      Expr.decode_encode b d hscalars.2 (by omega)]
    rfl
  | .apply f args, depth, hscalars, hdepth => by
    rw [Expr.encode, Json.depth_choice, Json.depth_record_pair, Json.depth_array] at hdepth
    obtain ⟨d, rfl⟩ : ∃ d, depth = d + 3 := ⟨depth - 3, by omega⟩
    simp only [Expr.scalars, List.forall_mem_append] at hscalars
    rw [Expr.decode_apply, Func.decode_encode f (d + 1) hscalars.1 (by omega), Expr.decodeItems,
      Expr.mapM_decode_encodeList args d hscalars.2 (by omega)]
    rfl

theorem Expr.mapM_decode_encodeList : ∀ (es : List (Expr K)) (depth : ℕ),
    (∀ x ∈ Expr.scalarsList es, (Json.ofScalar x).asScalar? = some x) →
      depthItems (Expr.encodeList es) ≤ depth →
        (Expr.encodeList es).mapM (Expr.decode depth) = some es
  | [], _, _, _ => rfl
  | e :: es, depth, hscalars, hdepth => by
    rw [Expr.encodeList, depthItems] at hdepth
    simp only [Expr.scalarsList, List.forall_mem_append] at hscalars
    rw [Expr.encodeList, List.mapM_cons, Expr.decode_encode e depth hscalars.1 (by omega),
      Expr.mapM_decode_encodeList es depth hscalars.2 (by omega)]
    rfl

/-- A function whose numbers are read back is read back itself if it is not nested too deeply. -/
theorem Func.decode_encode : ∀ (f : Func K) (depth : ℕ),
    (∀ x ∈ f.scalars, (Json.ofScalar x).asScalar? = some x) → f.encode.depth ≤ depth →
      Func.decode depth f.encode = some f
  | .custom name params body, depth, hscalars, hdepth => by
    have hrecord : ∀ a b c : Json,
        (Json.record [("name", a), ("params", b), ("body", c)]).depth =
          max a.depth (max b.depth c.depth) + 1 := by
      intro a b c
      simp [Json.record, Json.depth, Json.depthMembers]
    rw [Func.encode, Json.depth_choice, hrecord, Json.depth_array] at hdepth
    obtain ⟨d, rfl⟩ : ∃ d, depth = d + 3 := ⟨depth - 3, by omega⟩
    rw [Func.scalars] at hscalars
    rw [Func.decode_custom, if_neg (by omega),
      Expr.decode_encode body (d + 1) hscalars (by omega)]
    rfl
  | .comp inner outer, depth, hscalars, hdepth => by
    rw [Func.encode, Json.depth_choice, Json.depth_record_pair] at hdepth
    obtain ⟨d, rfl⟩ : ∃ d, depth = d + 2 := ⟨depth - 2, by omega⟩
    simp only [Func.scalars, List.forall_mem_append] at hscalars
    rw [Func.decode_comp, Func.decode_encode inner d hscalars.1 (by omega),
      Func.decode_encode outer d hscalars.2 (by omega)]
    rfl
  | .builtin b, depth, hscalars, hdepth => by
    rw [Func.encode, Json.depth_choice] at hdepth
    obtain ⟨d, rfl⟩ : ∃ d, depth = d + 1 := ⟨depth - 1, by omega⟩
    have hparameter : ∀ x ∈ b.parameter?, (Json.ofScalar x).asScalar? = some x := by
      simpa [Func.scalars] using hscalars
    rw [Func.decode_builtin, b.decode_encode d hparameter (by omega)]
    rfl

end

/-- An expression that is more than a single object fails if it fails two steps in. -/
theorem Expr.decode_eq_none_of_two {e : Expr K} (tag : String) (hnum : tag ≠ "Number")
    (hvar : tag ≠ "Variable") {payload : Json} (hencode : e.encode = .choice tag payload)
    (htwo : ∀ d, (Expr.decode (d + 2) e.encode : Option (Expr K)) = none) (depth : ℕ) :
    (Expr.decode depth e.encode : Option (Expr K)) = none := by
  rcases depth with _ | _ | d
  · rw [Expr.decode]
  · rw [hencode]
    exact Expr.decode_one hnum hvar payload
  · exact htwo d

/-- A function that is more than a single object fails if it fails two steps in. -/
theorem Func.decode_eq_none_of_two {f : Func K} (tag : String) (hbuiltin : tag ≠ "Default")
    {payload : Json} (hencode : f.encode = .choice tag payload)
    (htwo : ∀ d, (Func.decode (d + 2) f.encode : Option (Func K)) = none) (depth : ℕ) :
    (Func.decode depth f.encode : Option (Func K)) = none := by
  rcases depth with _ | _ | d
  · rw [Func.decode]
  · rw [hencode]
    exact Func.decode_one hbuiltin payload
  · exact htwo d

/-- Of two things that are both needed, one is missing. -/
theorem bind_eq_none_of_or {α β γ : Type} (f : α → β → γ) {x : Option α} {y : Option β}
    (h : x = none ∨ y = none) : (do return f (← x) (← y)) = none := by
  rcases h with rfl | rfl
  · rfl
  · cases x <;> rfl

theorem exists_of_exists_mem_append {α : Type} {p : α → Prop} {as bs : List α}
    (h : ∃ x ∈ as ++ bs, p x) : (∃ x ∈ as, p x) ∨ ∃ x ∈ bs, p x := by
  simpa [or_and_right, exists_or] using h

mutual

/-- An expression one of whose numbers is written as `null` is not read back at all. -/
theorem Expr.decode_eq_none : ∀ (e : Expr K) (depth : ℕ),
    (∃ x ∈ e.scalars, Json.ofScalar x = .null) →
      (Expr.decode depth e.encode : Option (Expr K)) = none
  | .num v, depth, h => by
    obtain ⟨x, hx, hnull⟩ := h
    rw [Expr.scalars, List.mem_singleton] at hx
    subst hx
    cases depth with
    | zero => rfl
    | succ d =>
      rw [Expr.decode_num, hnull]
      rfl
  | .var name, depth, h => by simp [Expr.scalars] at h
  | .vec items, depth, h => by
    rw [Expr.scalars] at h
    refine Expr.decode_eq_none_of_two "Vector" (by decide) (by decide) (by rw [Expr.encode])
      (fun d => ?_) depth
    rw [Expr.decode_vec, Expr.mapM_decode_eq_none items d h]
    rfl
  | .interval lo hi, depth, h => by
    rw [Expr.scalars] at h
    refine Expr.decode_eq_none_of_two "Interval" (by decide) (by decide) (by rw [Expr.encode])
      (fun d => ?_) depth
    rw [Expr.decode_interval]
    exact bind_eq_none_of_or Expr.interval ((exists_of_exists_mem_append h).imp
      (Expr.decode_eq_none lo d) (Expr.decode_eq_none hi d))
  | .neg a, depth, h => by
    rw [Expr.scalars] at h
    refine Expr.decode_eq_none_of_two "UnaryMinus" (by decide) (by decide) (by rw [Expr.encode])
      (fun d => ?_) depth
    rw [Expr.decode_neg, Expr.decode_eq_none a d h]
    rfl
  | .binary op a b, depth, h => by
    rw [Expr.scalars] at h
    have htag : op.tag ≠ "Number" ∧ op.tag ≠ "Variable" := by
      cases op <;> decide
    refine Expr.decode_eq_none_of_two op.tag htag.1 htag.2 (by rw [Expr.encode]) (fun d => ?_)
      depth
    rw [Expr.decode_binary]
    exact bind_eq_none_of_or (Expr.binary op) ((exists_of_exists_mem_append h).imp
      (Expr.decode_eq_none a d) (Expr.decode_eq_none b d))
  | .power a b, depth, h => by
    rw [Expr.scalars] at h
    refine Expr.decode_eq_none_of_two "Power" (by decide) (by decide) (by rw [Expr.encode])
      (fun d => ?_) depth
    rw [Expr.decode_power]
    exact bind_eq_none_of_or Expr.power ((exists_of_exists_mem_append h).imp
      (Expr.decode_eq_none a d) (Expr.decode_eq_none b d))
  | .apply f args, depth, h => by
    rw [Expr.scalars] at h
    refine Expr.decode_eq_none_of_two "Apply" (by decide) (by decide) (by rw [Expr.encode])
      (fun d => ?_) depth
    have hitems : (∃ x ∈ Expr.scalarsList args, Json.ofScalar x = .null) →
        (Expr.decodeItems d (.array (Expr.encodeList args)) : Option (List (Expr K))) = none := by
      intro hargs
      cases d with
      | zero => rfl
      | succ d =>
        rw [Expr.decodeItems]
        exact Expr.mapM_decode_eq_none args d hargs
    rw [Expr.decode_apply]
    exact bind_eq_none_of_or Expr.apply ((exists_of_exists_mem_append h).imp
      (Func.decode_eq_none f d) hitems)

theorem Expr.mapM_decode_eq_none : ∀ (es : List (Expr K)) (depth : ℕ),
    (∃ x ∈ Expr.scalarsList es, Json.ofScalar x = .null) →
      ((Expr.encodeList es).mapM (Expr.decode depth) : Option (List (Expr K))) = none
  | [], _, h => by simp [Expr.scalarsList] at h
  | e :: es, depth, h => by
    rw [Expr.scalarsList] at h
    rw [Expr.encodeList, List.mapM_cons]
    exact bind_eq_none_of_or List.cons ((exists_of_exists_mem_append h).imp
      (Expr.decode_eq_none e depth) (Expr.mapM_decode_eq_none es depth))

/-- A function one of whose numbers is written as `null` is not read back at all. -/
theorem Func.decode_eq_none : ∀ (f : Func K) (depth : ℕ),
    (∃ x ∈ f.scalars, Json.ofScalar x = .null) →
      (Func.decode depth f.encode : Option (Func K)) = none
  | .custom name params body, depth, h => by
    rw [Func.scalars] at h
    refine Func.decode_eq_none_of_two "Custom" (by decide) (by rw [Func.encode]) (fun d => ?_)
      depth
    rw [Func.decode_custom, Expr.decode_eq_none body d h]
    exact ite_self _
  | .comp inner outer, depth, h => by
    rw [Func.scalars] at h
    refine Func.decode_eq_none_of_two "Composite" (by decide) (by rw [Func.encode]) (fun d => ?_)
      depth
    rw [Func.decode_comp]
    exact bind_eq_none_of_or Func.comp ((exists_of_exists_mem_append h).imp
      (Func.decode_eq_none inner d) (Func.decode_eq_none outer d))
  | .builtin b, depth, h => by
    have hparameter : ∃ x ∈ b.parameter?, Json.ofScalar x = .null := by
      simpa [Func.scalars] using h
    cases depth with
    | zero => rfl
    | succ d =>
      rw [Func.decode_builtin, b.decode_eq_none d hparameter]
      rfl

end

end

/-! ### What is written -/

section

variable {K : Type} [Decimal K]

theorem Json.isWritten_choice {payload : Json} (tag : String) (h : payload.IsWritten) :
    (Json.choice tag payload).IsWritten :=
  .record (by simpa using h)

theorem Builtin.isWritten_encode (b : Builtin K)
    (h : ∀ x ∈ b.parameter?, (Json.ofScalar x).IsWritten) : b.encode.IsWritten := by
  cases b with
  | exp => exact .string _
  | ln => exact .string _
  | sqrt => exact .string _
  | log base => exact Json.isWritten_choice _ (h base rfl)
  | root degree => exact Json.isWritten_choice _ (h degree rfl)

mutual

theorem Expr.isWritten_encode : ∀ e : Expr K,
    (∀ x ∈ e.scalars, (Json.ofScalar x).IsWritten) → e.encode.IsWritten
  | .num v, h => by
    rw [Expr.encode]
    exact Json.isWritten_choice _ (h v (by simp [Expr.scalars]))
  | .var name, _ => by
    rw [Expr.encode]
    exact Json.isWritten_choice _ (.string name)
  | .vec items, h => by
    rw [Expr.scalars] at h
    rw [Expr.encode]
    exact Json.isWritten_choice _ (.array (Expr.isWritten_encodeList items h))
  | .interval lo hi, h => by
    simp only [Expr.scalars, List.forall_mem_append] at h
    have hlo := Expr.isWritten_encode lo h.1
    have hhi := Expr.isWritten_encode hi h.2
    rw [Expr.encode]
    exact Json.isWritten_choice _ (.record (by simp [hlo, hhi]))
  | .neg a, h => by
    rw [Expr.scalars] at h
    have ha := Expr.isWritten_encode a h
    rw [Expr.encode]
    exact Json.isWritten_choice _ (.record (by simp [ha]))
  | .binary op a b, h => by
    simp only [Expr.scalars, List.forall_mem_append] at h
    have ha := Expr.isWritten_encode a h.1
    have hb := Expr.isWritten_encode b h.2
    rw [Expr.encode]
    exact Json.isWritten_choice _ (.record (by simp [ha, hb]))
  | .power a b, h => by
    simp only [Expr.scalars, List.forall_mem_append] at h
    have ha := Expr.isWritten_encode a h.1
    have hb := Expr.isWritten_encode b h.2
    rw [Expr.encode]
    exact Json.isWritten_choice _ (.record (by simp [ha, hb]))
  | .apply f args, h => by
    simp only [Expr.scalars, List.forall_mem_append] at h
    have hf := Func.isWritten_encode f h.1
    have hargs := Json.IsWritten.array (Expr.isWritten_encodeList args h.2)
    rw [Expr.encode]
    exact Json.isWritten_choice _ (.record (by simp [hf, hargs]))

theorem Expr.isWritten_encodeList : ∀ es : List (Expr K),
    (∀ x ∈ Expr.scalarsList es, (Json.ofScalar x).IsWritten) →
      ∀ j ∈ Expr.encodeList es, j.IsWritten
  | [], _ => by simp [Expr.encodeList]
  | e :: es, h => by
    simp only [Expr.scalarsList, List.forall_mem_append] at h
    rw [Expr.encodeList, List.forall_mem_cons]
    exact ⟨Expr.isWritten_encode e h.1, Expr.isWritten_encodeList es h.2⟩

theorem Func.isWritten_encode : ∀ f : Func K,
    (∀ x ∈ f.scalars, (Json.ofScalar x).IsWritten) → f.encode.IsWritten
  | .custom name params body, h => by
    rw [Func.scalars] at h
    have hbody := Expr.isWritten_encode body h
    have hname := Json.IsWritten.string name
    have hparams : (Json.array (params.map .ofString)).IsWritten := by
      refine .array fun j hj => ?_
      obtain ⟨param, -, rfl⟩ := List.mem_map.1 hj
      exact .string param
    rw [Func.encode]
    exact Json.isWritten_choice _ (.record (by simp [hname, hparams, hbody]))
  | .comp inner outer, h => by
    simp only [Func.scalars, List.forall_mem_append] at h
    have hinner := Func.isWritten_encode inner h.1
    have houter := Func.isWritten_encode outer h.2
    rw [Func.encode]
    exact Json.isWritten_choice _ (.record (by simp [hinner, houter]))
  | .builtin b, h => by
    have hparameter : ∀ x ∈ b.parameter?, (Json.ofScalar x).IsWritten := by
      simpa [Func.scalars] using h
    rw [Func.encode]
    exact Json.isWritten_choice _ (b.isWritten_encode hparameter)

end

end

/-! ## Materials and settings -/

/-- The numbers in a material. -/
def Material.scalars {K : Type} : Material K → List K
  | .ambient color => color.toList
  | .phong base diffuse specular exponent =>
    exponent :: (base.toList ++ diffuse.toList ++ specular.toList)

/-- The numbers in settings that are scalars. -/
def Settings.scalars {K : Type} (s : Settings K) : List K :=
  [s.maxDistance, s.rootTolerance, s.epsilon]

section

variable {K : Type} [Scalar K] [Decimal K]

theorem Vec3.decode_encode (v : Vec3 K) (depth : ℕ)
    (hscalars : ∀ x ∈ v.toList, (Json.ofScalar x).asScalar? = some x) :
    Stored.decode (depth + 1) (Stored.encode v) = some v := by
  simp only [Vec3.toList, List.forall_mem_cons] at hscalars
  obtain ⟨hx, hy, hz, -⟩ := hscalars
  simp [Stored.decode, Stored.encode, Vec3.toList, hx, hy, hz]

theorem Vec3.isWritten_encode (v : Vec3 K)
    (h : ∀ x ∈ v.toList, (Json.ofScalar x).IsWritten) : (Stored.encode v).IsWritten := by
  refine .array fun j hj => ?_
  obtain ⟨x, hx, rfl⟩ := List.mem_map.1 hj
  exact h x hx

/-- A material whose numbers are read back is read back itself. -/
theorem Material.decode_encode (m : Material K) (depth : ℕ)
    (hscalars : ∀ x ∈ m.scalars, (Json.ofScalar x).asScalar? = some x) :
    Stored.decode (depth + 3) (Stored.encode m) = some m := by
  cases m with
  | ambient color =>
    have hcolor := color.decode_encode depth hscalars
    simp only [Stored.encode, Stored.decode, Option.bind_eq_bind, Json.alternative?_choice,
      Json.field?_record, Option.bind_some] at hcolor ⊢
    rw [hcolor]
    rfl
  | phong base diffuse specular exponent =>
    simp only [Material.scalars, List.forall_mem_cons, List.forall_mem_append] at hscalars
    obtain ⟨hexponent, ⟨hbase, hdiffuse⟩, hspecular⟩ := hscalars
    have hbase := base.decode_encode depth hbase
    have hdiffuse := diffuse.decode_encode depth hdiffuse
    have hspecular := specular.decode_encode depth hspecular
    have hfields : (Json.record [("ambient", Stored.encode base),
        ("diffuse", Stored.encode diffuse), ("specular", Stored.encode specular),
        ("exponent", .ofScalar exponent)]).fields?
          ["ambient", "diffuse", "specular", "exponent"] =
        some [Stored.encode base, Stored.encode diffuse, Stored.encode specular,
          .ofScalar exponent] :=
      Json.fields?_record (by simp)
    simp only [Stored.encode, Stored.decode, Option.bind_eq_bind,
      Json.alternative?_choice] at hfields hbase hdiffuse hspecular ⊢
    simp only [hfields, Option.bind_some, hbase, hdiffuse, hspecular, hexponent]
    rfl

theorem Material.isWritten_encode (m : Material K)
    (h : ∀ x ∈ m.scalars, (Json.ofScalar x).IsWritten) : (Stored.encode m).IsWritten := by
  cases m with
  | ambient color =>
    have hcolor := color.isWritten_encode h
    exact Json.isWritten_choice _ (.record (by simp [hcolor]))
  | phong base diffuse specular exponent =>
    simp only [Material.scalars, List.forall_mem_cons, List.forall_mem_append] at h
    obtain ⟨hexponent, ⟨hbase, hdiffuse⟩, hspecular⟩ := h
    have hbase := base.isWritten_encode hbase
    have hdiffuse := diffuse.isWritten_encode hdiffuse
    have hspecular := specular.isWritten_encode hspecular
    exact Json.isWritten_choice _ (.record (by simp [hbase, hdiffuse, hspecular, hexponent]))

/-- Settings whose numbers are read back are read back themselves if the number of steps fits. -/
theorem Settings.decode_encode (s : Settings K) (depth : ℕ)
    (hscalars : ∀ x ∈ s.scalars, (Json.ofScalar x).asScalar? = some x)
    (hsteps : s.newtonSteps ≤ maxNewtonSteps) :
    Stored.decode (depth + 1) (Stored.encode s) = some s := by
  simp only [Settings.scalars, List.forall_mem_cons] at hscalars
  obtain ⟨hfar, htolerance, hepsilon, -⟩ := hscalars
  have hcount : (Json.ofNat s.newtonSteps).asNatural? maxNewtonSteps = some s.newtonSteps :=
    Json.Number.natural?_ofNat hsteps
  have hfields : (Json.record [("max_distance", .ofScalar s.maxDistance),
      ("root_tolerance", .ofScalar s.rootTolerance), ("epsilon", .ofScalar s.epsilon),
      ("newton_steps", .ofNat s.newtonSteps)]).partialFields?
        ["max_distance", "root_tolerance", "epsilon", "newton_steps"] =
      some [some (.ofScalar s.maxDistance), some (.ofScalar s.rootTolerance),
        some (.ofScalar s.epsilon), some (.ofNat s.newtonSteps)] :=
    Json.partialFields?_record (by simp)
  simp [Stored.encode, Stored.decode, hfields, orStandard, hfar, htolerance, hepsilon, hcount]

theorem Settings.isWritten_encode (s : Settings K)
    (h : ∀ x ∈ s.scalars, (Json.ofScalar x).IsWritten) : (Stored.encode s).IsWritten := by
  simp only [Settings.scalars, List.forall_mem_cons] at h
  obtain ⟨hfar, htolerance, hepsilon, -⟩ := h
  have hsteps : (Json.ofNat s.newtonSteps).IsWritten :=
    .number (Json.Number.isWritten_ofNat s.newtonSteps)
  exact .record (by simp [hfar, htolerance, hepsilon, hsteps])

/-! ## Reading what is written -/

namespace Stored

theorem read?_write_of_isWritten {α : Type} [Stored α] {a : α} (h : (encode a).IsWritten) :
    read? (write a) = (decode maxDepth (encode a) : Option α) := by
  rw [read?, write, h.read?_render, Option.bind_some]

/-- What is written is read back: an expression whose numbers and parameters are finite and which
is not nested too deeply, and any material and any settings.  An expression with anything else for
a number or a parameter is refused, and so is a file that holds it. -/
theorem read?_write :
    (∀ e : Expr K, (∀ x ∈ e.scalars, Json.Faithful x) →
      ((∀ x ∈ e.scalars, Scalar.isFinite x = true) → (encode e).depth ≤ maxDepth →
        read? (write e) = some e) ∧
      ((∃ x ∈ e.scalars, Scalar.isFinite x = false) →
        (read? (write e) : Option (Expr K)) = none ∧
          ∀ (files : Files) (path : String), files.read path = .ok (write e) →
            (files.loadStored path : Except StorageError (Expr K)) = .error .malformed)) ∧
    (∀ m : Material K, (∀ x ∈ m.scalars, Json.Faithful x ∧ Scalar.isFinite x = true) →
      read? (write m) = some m) ∧
    ∀ s : Settings K, (∀ x ∈ s.scalars, Json.Faithful x ∧ Scalar.isFinite x = true) →
      s.newtonSteps ≤ Settings.maxNewtonSteps → read? (write s) = some s := by
  refine ⟨fun e hfaithful => ?_, fun m hscalars => ?_, fun s hscalars hsteps => ?_⟩
  · have hread : read? (write e) = (decode maxDepth (encode e) : Option (Expr K)) :=
      read?_write_of_isWritten (e.isWritten_encode fun x hx => (hfaithful x hx).isWritten)
    refine ⟨fun hfinite hdepth => ?_, fun ⟨x, hx, hnot⟩ => ?_⟩
    · rw [hread]
      exact e.decode_encode maxDepth
        (fun x hx => (hfaithful x hx).asScalar?_ofScalar (hfinite x hx)) hdepth
    · have hnone : (read? (write e) : Option (Expr K)) = none := by
        rw [hread]
        exact e.decode_eq_none maxDepth ⟨x, hx, (hfaithful x hx).notFinite hnot⟩
      refine ⟨hnone, fun files path hpath => ?_⟩
      rw [Files.loadStored, hpath]
      dsimp only
      rw [hnone]
  · rw [read?_write_of_isWritten (m.isWritten_encode fun x hx => (hscalars x hx).1.isWritten)]
    exact m.decode_encode 124 fun x hx => (hscalars x hx).1.asScalar?_ofScalar (hscalars x hx).2
  · rw [read?_write_of_isWritten (s.isWritten_encode fun x hx => (hscalars x hx).1.isWritten)]
    exact s.decode_encode 126 (fun x hx => (hscalars x hx).1.asScalar?_ofScalar (hscalars x hx).2)
      hsteps

end Stored

end

/-- A function with a quotation mark in its name, after a root. -/
def quotedAfterRoot : Expr Float :=
  .apply (.comp (.builtin (.root 3)) (.custom "f\"" ["u"] (.var "u" * .num 0.1)))
    [.interval (.num 2) (.neg (.var "x"))]

/-- A logarithm to no finite base. -/
def logToInfinity : Expr Float := .apply (.builtin (.log (1 / 0))) [.num 2]

/-- A red surface with white highlights. -/
def redPlastic : Material Float := .phong ⟨0.1, 0, 0⟩ ⟨0.8, 0.1, 0.1⟩ ⟨1, 1, 1⟩ 32

theorem faithful_of_isFinite {xs : List Float}
    (h : ∀ x ∈ xs, Scalar.isFinite x = true ∧
      (Json.read? (Json.ofScalar x).render).bind Json.asScalar? = some x) :
    ∀ x ∈ xs, Json.Faithful x ∧ Scalar.isFinite x = true := by
  intro x hx
  obtain ⟨hfinite, hread⟩ := h x hx
  refine ⟨⟨fun _ => hread, fun hnot => ?_⟩, hfinite⟩
  rw [hfinite] at hnot
  cases hnot

/-- The tree with the quotation mark comes back, the logarithm is refused, and the material and
the standard settings come back. -/
theorem Stored.read?_write_quotedAfterRoot :
    Stored.read? (Stored.write quotedAfterRoot) = some quotedAfterRoot ∧
      (Files.loadStored ⟨fun _ => .ok (Stored.write logToInfinity)⟩ "log" :
        Except StorageError (Expr Float)) = .error .malformed ∧
      Stored.read? (Stored.write redPlastic) = some redPlastic ∧
      Stored.read? (Stored.write (Settings.standard : Settings Float)) =
        some (Settings.standard : Settings Float) := by
  obtain ⟨hexpr, hmaterial, hsettings⟩ := Stored.read?_write (K := Float)
  have hquoted : ∀ x ∈ quotedAfterRoot.scalars, Json.Faithful x ∧ Scalar.isFinite x = true :=
    faithful_of_isFinite (by decide +kernel)
  have hlog : ∀ x ∈ logToInfinity.scalars, Json.Faithful x := by
    have htwo : ∀ x ∈ [(2 : Float)], Json.Faithful x ∧ Scalar.isFinite x = true :=
      faithful_of_isFinite (by decide +kernel)
    have hinfinite : Scalar.isFinite (1 / 0 : Float) = false := by decide +kernel
    have hbase : Json.Faithful (1 / 0 : Float) := by
      refine ⟨fun hfinite => ?_, fun _ => rfl⟩
      rw [hinfinite] at hfinite
      cases hfinite
    rintro x hx
    rcases List.mem_cons.1 hx with rfl | hx
    · exact hbase
    · exact (htwo x hx).1
  refine ⟨?_, ?_, hmaterial redPlastic (faithful_of_isFinite (by decide +kernel)),
    hsettings .standard (faithful_of_isFinite (by decide +kernel)) (by decide +kernel)⟩
  · exact (hexpr quotedAfterRoot fun x hx => (hquoted x hx).1).1 (fun x hx => (hquoted x hx).2)
      (by decide +kernel)
  · have hmem : (1 / 0 : Float) ∈ logToInfinity.scalars := by
      simp [logToInfinity, Expr.scalars, Func.scalars, Builtin.parameter?]
    exact ((hexpr logToInfinity hlog).2 ⟨1 / 0, hmem, by decide +kernel⟩).2 _ "log" rfl

end ZeroSet
