import ZeroSet.Json.Tree

/-!
# JSON tokens

The lexical grammar: punctuation, the three words, numbers and strings, with spaces,
tabs and line ends between them.  `Json.tokens` takes a whole text apart; it is strict
about numbers (no leading zero, digits around the point) and about strings (no raw
control character, no unknown escape).

Each scanner returns the rest of the text, and `scanText_length` and its companions say
that the rest is shorter, which is why `Json.tokens` ends.
-/

namespace ZeroSet.Json

/-- A token of a JSON text. -/
inductive Token where
  /-- An opening bracket. -/
  | openArray
  /-- A closing bracket. -/
  | closeArray
  /-- An opening brace. -/
  | openObject
  /-- A closing brace. -/
  | closeObject
  /-- A comma. -/
  | comma
  /-- A colon. -/
  | colon
  /-- The word `null`. -/
  | null
  /-- The word `true` or `false`. -/
  | bool (b : Bool)
  /-- A number. -/
  | number (n : Number)
  /-- A string. -/
  | text (t : Text)

/-- The characters that may stand between tokens. -/
def isBlank (c : Char) : Bool := c == ' ' || c == '\n' || c == '\t' || c == '\r'

/-! ## Strings -/

/-- The value of a hexadecimal digit. -/
def hexDigit? (c : Char) : Option Nat :=
  if '0' ≤ c && c ≤ '9' then some (c.toNat - '0'.toNat)
  else if 'a' ≤ c && c ≤ 'f' then some (c.toNat - 'a'.toNat + 10)
  else if 'A' ≤ c && c ≤ 'F' then some (c.toNat - 'A'.toNat + 10)
  else none

/-- The value of four hexadecimal digits. -/
def hexNumber? (a b c d : Char) : Option Nat := do
  let a ← hexDigit? a
  let b ← hexDigit? b
  let c ← hexDigit? c
  let d ← hexDigit? d
  return ((a * 16 + b) * 16 + c) * 16 + d

/-- The code point that a letter after a backslash stands for. -/
def escape? (c : Char) : Option Nat :=
  match c with
  | '"' => some 0x22
  | '\\' => some 0x5C
  | '/' => some 0x2F
  | 'b' => some 0x08
  | 'f' => some 0x0C
  | 'n' => some 0x0A
  | 'r' => some 0x0D
  | 't' => some 0x09
  | _ => none

/-- The rest of a string after its opening quote, `read` holding what came before in reverse,
and the text after its closing quote. -/
def scanText (read : Text) : List Char → Option (Text × List Char)
  | [] => none
  | '"' :: rest => some (read.reverse, rest)
  | '\\' :: 'u' :: a :: b :: c :: d :: rest =>
    match hexNumber? a b c d with
    | some n => scanText (n :: read) rest
    | none => none
  | '\\' :: c :: rest =>
    match escape? c with
    | some n => scanText (n :: read) rest
    | none => none
  | c :: rest => if c == '\\' || c.toNat < 0x20 then none else scanText (c.toNat :: read) rest

theorem scanText_length {read : Text} {cs : List Char} {t : Text} {rest : List Char}
    (h : scanText read cs = some (t, rest)) : rest.length < cs.length := by
  fun_induction scanText read cs with
  | case1 => simp at h
  | case2 => simp at h; simp [h.2]
  | case3 read a b c d tail n _ ih => have := ih h; simp; omega
  | case4 => simp at h
  | case5 read c tail _ n _ ih => have := ih h; simp; omega
  | case6 => simp at h
  | case7 => simp at h
  | case8 read c tail _ _ _ _ ih => have := ih h; simp; omega

/-! ## Numbers -/

/-- The exponent of a number, if a letter for one stands next, and the rest of the text. -/
def scanExponent (cs : List Char) : Option (Option Int × List Char) :=
  match cs with
  | [] => some (none, [])
  | letter :: more =>
    if letter == 'e' || letter == 'E' then
      let parts := Numeral.splitSign more
      let digits := parts.2.takeWhile Char.isDigit
      if digits.isEmpty then none
      else some (some (Numeral.signed parts.1 digits), parts.2.dropWhile Char.isDigit)
    else some (none, letter :: more)

/-- The digits after the point of a number, if a point stands next, and the rest of the
text. -/
def scanFraction (cs : List Char) : Option (List Char × List Char) :=
  match cs with
  | '.' :: more =>
    let digits := more.takeWhile Char.isDigit
    if digits.isEmpty then none else some (digits, more.dropWhile Char.isDigit)
  | _ => some ([], cs)

/-- A number after its sign, and the rest of the text.  A whole part of several digits has no
zero in front. -/
def scanUnsigned (negative : Bool) (cs : List Char) : Option (Number × List Char) :=
  let whole := cs.takeWhile Char.isDigit
  if whole.isEmpty || (whole.head? == some '0' && whole != ['0']) then none
  else
    match scanFraction (cs.dropWhile Char.isDigit) with
    | none => none
    | some (fraction, tail) =>
      match scanExponent tail with
      | none => none
      | some (exponent, rest) => some (⟨negative, whole, fraction, exponent⟩, rest)

/-- A number and the rest of the text. -/
def scanNumber : List Char → Option (Number × List Char)
  | '-' :: rest => scanUnsigned true rest
  | cs => scanUnsigned false cs

theorem length_dropWhile_le (p : Char → Bool) (cs : List Char) :
    (cs.dropWhile p).length ≤ cs.length := (List.dropWhile_sublist p).length_le

theorem scanExponent_length {cs : List Char} {e : Option Int} {rest : List Char}
    (h : scanExponent cs = some (e, rest)) : rest.length ≤ cs.length := by
  unfold scanExponent at h
  split at h
  · simp at h
    simp [← h.2]
  · rename_i letter more
    split at h
    · simp only at h
      split at h
      · simp at h
      · simp only [Option.some.injEq, Prod.mk.injEq] at h
        rw [← h.2]
        have h₁ := length_dropWhile_le Char.isDigit (Numeral.splitSign more).2
        have h₂ := Numeral.length_splitSign_le more
        simp
        omega
    · simp at h
      simp [← h.2]

theorem scanFraction_length {cs : List Char} {f : List Char} {rest : List Char}
    (h : scanFraction cs = some (f, rest)) : rest.length ≤ cs.length := by
  unfold scanFraction at h
  split at h
  · rename_i more
    simp only at h
    split at h
    · simp at h
    · simp only [Option.some.injEq, Prod.mk.injEq] at h
      rw [← h.2]
      have := length_dropWhile_le Char.isDigit more
      simp
      omega
  · simp at h; simp [← h.2]

theorem length_dropWhile_lt {p : Char → Bool} {cs : List Char}
    (h : (cs.takeWhile p).isEmpty = false) : (cs.dropWhile p).length < cs.length := by
  have hsplit := congrArg List.length (@List.takeWhile_append_dropWhile _ p cs)
  rw [List.length_append] at hsplit
  have : (cs.takeWhile p).length ≠ 0 := by
    intro h0
    rw [List.isEmpty_iff_length_eq_zero.2 h0] at h
    exact absurd h (by decide)
  omega

theorem scanUnsigned_length {negative : Bool} {cs : List Char} {n : Number} {rest : List Char}
    (h : scanUnsigned negative cs = some (n, rest)) : rest.length < cs.length := by
  unfold scanUnsigned at h
  simp only at h
  split at h
  · simp at h
  · rename_i hwhole
    simp only [Bool.or_eq_true, not_or, Bool.not_eq_true] at hwhole
    have h₀ := length_dropWhile_lt hwhole.1
    split at h
    · simp at h
    · rename_i hf
      have h₁ := scanFraction_length hf
      split at h
      · simp at h
      · rename_i he
        have h₂ := scanExponent_length he
        simp only [Option.some.injEq, Prod.mk.injEq] at h
        rw [← h.2]
        omega

theorem scanNumber_length {cs : List Char} {n : Number} {rest : List Char}
    (h : scanNumber cs = some (n, rest)) : rest.length < cs.length := by
  unfold scanNumber at h
  split at h
  · have := scanUnsigned_length h
    simp
    omega
  · exact scanUnsigned_length h

/-! ## Whole texts -/

/-- The token of a punctuation mark. -/
def punctuation? (c : Char) : Option Token :=
  match c with
  | '[' => some .openArray
  | ']' => some .closeArray
  | '\x7b' => some .openObject
  | '\x7d' => some .closeObject
  | ',' => some .comma
  | ':' => some .colon
  | _ => none

/-- One of the three words and the rest of the text. -/
def scanWord : List Char → Option (Token × List Char)
  | 'n' :: 'u' :: 'l' :: 'l' :: rest => some (.null, rest)
  | 't' :: 'r' :: 'u' :: 'e' :: rest => some (.bool true, rest)
  | 'f' :: 'a' :: 'l' :: 's' :: 'e' :: rest => some (.bool false, rest)
  | _ => none

theorem scanWord_length {cs : List Char} {t : Token} {rest : List Char}
    (h : scanWord cs = some (t, rest)) : rest.length < cs.length := by
  unfold scanWord at h
  split at h <;> simp at h <;> simp [← h.2] <;> omega

/-- The first token of a text without leading blanks, and the rest of the text. -/
def scanToken : List Char → Option (Token × List Char)
  | [] => none
  | c :: rest =>
    match punctuation? c with
    | some t => some (t, rest)
    | none =>
      if c == '"' then (scanText [] rest).map fun r => (.text r.1, r.2)
      else if c == '-' || c.isDigit then
        (scanNumber (c :: rest)).map fun r => (.number r.1, r.2)
      else scanWord (c :: rest)

theorem scanToken_length {cs : List Char} {t : Token} {rest : List Char}
    (h : scanToken cs = some (t, rest)) : rest.length < cs.length := by
  unfold scanToken at h
  split at h
  · simp at h
  · rename_i c tail
    split at h
    · simp at h; simp [← h.2]
    · split at h
      · simp only [Option.map_eq_some_iff, Prod.mk.injEq] at h
        obtain ⟨⟨u, r⟩, hr, _, rfl⟩ := h
        have := scanText_length hr
        simp
        omega
      · split at h
        · simp only [Option.map_eq_some_iff, Prod.mk.injEq] at h
          obtain ⟨⟨u, r⟩, hr, _, rfl⟩ := h
          exact scanNumber_length hr
        · exact scanWord_length h

/-- All tokens of a text, `read` holding those that came before in reverse. -/
def tokensFrom (read : List Token) (cs : List Char) : Option (List Token) :=
  match cs with
  | [] => some read.reverse
  | c :: rest =>
    if isBlank c then tokensFrom read rest
    else
      match h : scanToken (c :: rest) with
      | some (t, tail) =>
        have := scanToken_length h
        tokensFrom (t :: read) tail
      | none => none
termination_by cs.length
decreasing_by
  · exact Nat.lt_succ_self _
  · exact this

/-- The tokens of a text. -/
def tokens (text : String) : Option (List Token) := tokensFrom [] text.toList

end ZeroSet.Json
