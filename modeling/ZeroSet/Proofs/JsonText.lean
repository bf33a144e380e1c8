import Mathlib
import ZeroSet.Json.Reader
import ZeroSet.Json.Writer

/-!
# JSON text and JSON trees

What is written for a tree is read as that tree.  The writer lays a text out over lines, the reader
takes it apart into tokens first and puts these together with a stack.  So the text is compared
with the tokens it spells, and the tokens with what the reader has put together when it comes to
the end of them.

* `Number.IsWritten` — the numbers whose digits are those of a JSON number.
* `scanText_quoted`, `scanNumber_text` — strings and numbers are scanned as they are written.
* `spelled` — the tokens that a tree is written with.
* `tokensFrom_renderAt` — the text of a tree is taken apart into these tokens.
* `foldlM_spelled` — the reader puts these tokens together to the tree.
* `read?_render` — a tree whose numbers and strings are written properly is read back.
-/

namespace ZeroSet

namespace Json

/-! ## Numbers -/

/-- A run of characters ends where the next character is not one of them. -/
theorem takeWhile_append {p : Char → Bool} {run rest : List Char} (hrun : ∀ c ∈ run, p c = true)
    (hrest : ∀ c cs, rest = c :: cs → p c = false) :
    (run ++ rest).takeWhile p = run ∧ (run ++ rest).dropWhile p = rest := by
  rw [List.takeWhile_append_of_pos hrun, List.dropWhile_append_of_pos hrun]
  cases rest with
  | nil => simp
  | cons c cs => simp [hrest c cs rfl]

namespace Number

/-- The digits are digits, and there are some before the point. -/
structure HasDigits (n : Number) : Prop where
  /-- There are digits before the point. -/
  whole_ne_nil : n.whole ≠ []
  /-- Nothing else stands before the point. -/
  whole : ∀ c ∈ n.whole, c.isDigit = true
  /-- Nothing else stands after the point. -/
  fraction : ∀ c ∈ n.fraction, c.isDigit = true

/-- Whether there is a zero in front of other digits. -/
def leadingZero (n : Number) : Bool := n.whole.head? == some '0' && n.whole != ['0']

/-- A number as JSON allows it to be written. -/
structure IsWritten (n : Number) : Prop extends HasDigits n where
  /-- There is no zero in front. -/
  leadingZero : n.leadingZero = false

/-- The characters of an exponent. -/
def exponentChars (n : Number) : List Char :=
  match n.exponent with
  | none => []
  | some e => 'e' :: (if e < 0 then '-' else '+') :: Nat.toDigits 10 e.natAbs

/-- The characters after the digits in front of the point. -/
def tailChars (n : Number) : List Char :=
  (if n.fraction.isEmpty then [] else '.' :: n.fraction) ++ n.exponentChars

theorem toList_text (n : Number) :
    n.text.toList = (if n.negative then ['-'] else []) ++ (n.whole ++ n.tailChars) := by
  have hsign : (Numeral.sign n.negative).toList = if n.negative then ['-'] else [] := by
    cases n.negative <;> rfl
  rw [text, tailChars, exponentChars]
  simp only [String.toList_append, hsign, String.toList_ofList, List.append_assoc]
  congr 2
  congr 1
  · split <;> simp
  · cases n.exponent with
    | none => rfl
    | some e => by_cases he : e < 0 <;> simp [he, Nat.repr]

end Number

/-- What may follow a number: nothing that goes on with it. -/
def Stops (rest : List Char) : Prop :=
  ∀ c cs, rest = c :: cs → c.isDigit = false ∧ c ≠ '.' ∧ c ≠ 'e' ∧ c ≠ 'E'

variable {n : Number} {rest : List Char}

theorem scanExponent_exponentChars (hrest : Stops rest) :
    scanExponent (n.exponentChars ++ rest) = some (n.exponent, rest) := by
  rw [Number.exponentChars]
  cases n.exponent with
  | none =>
    cases rest with
    | nil => rfl
    | cons c cs =>
      obtain ⟨-, -, he, hE⟩ := hrest c cs rfl
      simp [scanExponent, he, hE]
  | some e =>
    have hdigits : ∀ c ∈ Nat.toDigits 10 e.natAbs, c.isDigit = true :=
      fun c hc => Nat.isDigit_of_mem_toDigits (by decide) (by decide) hc
    obtain ⟨htake, hdrop⟩ := takeWhile_append hdigits fun c cs hc => (hrest c cs hc).1
    have hne : (Nat.toDigits 10 e.natAbs).isEmpty = false := by
      simp
    have hvalue : Numeral.ofDigits (Nat.toDigits 10 e.natAbs) = e.natAbs :=
      Nat.ofDigitChars_ten_toDigits
    by_cases he : e < 0
    · simp [scanExponent, he, Numeral.splitSign, htake, hdrop, Numeral.signed, hvalue,
        abs_of_neg he]
    · simp [scanExponent, he, Numeral.splitSign, htake, hdrop, Numeral.signed, hvalue,
        abs_of_nonneg (not_lt.1 he)]

/-- The digits of a number are scanned as they are written, unless there is a zero in front. -/
theorem scanUnsigned_tailChars (hn : n.HasDigits) (hrest : Stops rest) (negative : Bool) :
    scanUnsigned negative (n.whole ++ (n.tailChars ++ rest)) =
      if n.leadingZero then none else some (⟨negative, n.whole, n.fraction, n.exponent⟩, rest) := by
  have hexponent := @scanExponent_exponentChars n rest hrest
  -- what follows the digits does not begin with a digit
  have hstops : ∀ c cs, n.exponentChars ++ rest = c :: cs → c.isDigit = false ∧ c ≠ '.' := by
    intro c cs hc
    rw [Number.exponentChars] at hc
    split at hc
    · exact ⟨(hrest c cs hc).1, (hrest c cs hc).2.1⟩
    · cases hc
      decide
  have hfraction : scanFraction (n.tailChars ++ rest) =
      some (n.fraction, n.exponentChars ++ rest) := by
    rw [Number.tailChars, List.append_assoc]
    by_cases hempty : n.fraction = []
    · rw [hempty]
      cases hmore : n.exponentChars ++ rest with
      | nil => rfl
      | cons c cs =>
        have hpoint := (hstops c cs hmore).2
        simp [scanFraction, hpoint]
    · obtain ⟨htake, hdrop⟩ := takeWhile_append hn.fraction fun c cs hc => (hstops c cs hc).1
      simp [scanFraction, hempty, htake, hdrop]
  have htail : ∀ c cs, n.tailChars ++ rest = c :: cs → c.isDigit = false := by
    intro c cs hc
    rw [Number.tailChars, List.append_assoc] at hc
    split at hc
    · exact (hstops c cs hc).1
    · cases hc
      decide
  obtain ⟨htake, hdrop⟩ := takeWhile_append hn.whole htail
  have hwhole : n.whole.isEmpty = false := by
    simp [hn.whole_ne_nil]
  simp only [scanUnsigned, htake, hdrop, hfraction, hexponent, hwhole, Bool.false_or]
  rfl

/-- A number is scanned as it is written, unless there is a zero in front. -/
theorem scanNumber_text (hn : n.HasDigits) (hrest : Stops rest) :
    scanNumber (n.text.toList ++ rest) =
      if n.leadingZero then none else some (n, rest) := by
  have hscan := scanUnsigned_tailChars hn hrest n.negative
  have hn' : (⟨n.negative, n.whole, n.fraction, n.exponent⟩ : Number) = n := rfl
  rw [hn'] at hscan
  rw [Number.toList_text]
  cases hnegative : n.negative with
  | true =>
    rw [hnegative] at hscan
    simpa [scanNumber] using hscan
  | false =>
    rw [hnegative] at hscan
    obtain ⟨c, cs, hcs⟩ := List.exists_cons_of_ne_nil hn.whole_ne_nil
    have hc : c ≠ '-' := by
      rintro rfl
      exact absurd (hn.whole '-' (by simp [hcs])) (by decide)
    rw [hcs] at hscan
    simpa [scanNumber, hcs, hc] using hscan

/-! ## Strings -/

/-- A character is not half of a surrogate pair. -/
theorem Text.not_surrogate (c : Char) :
    isHighSurrogate c.toNat = false ∧ isLowSurrogate c.toNat = false := by
  have hvalid : c.toNat.isValidChar := c.valid
  unfold Nat.isValidChar at hvalid
  simp only [isHighSurrogate, isLowSurrogate, Bool.and_eq_false_iff, decide_eq_false_iff_not]
  omega

/-- Control characters are scanned as they are escaped. -/
theorem scanText_unicodeEscape {c : ℕ} (hc : c < 0x20) (read : Text) (rest : List Char) :
    scanText read ((unicodeEscape c).toList ++ rest) = scanText (c :: read) rest := by
  have hdigits : hexNumber? (hexChar (c / 4096)) (hexChar (c / 256)) (hexChar (c / 16))
      (hexChar c) = some c := by
    revert hc
    revert c
    decide +kernel
  rw [unicodeEscape]
  simp [scanText, hdigits]

/-- A character is scanned as it is escaped, if it is. -/
theorem scanText_escape (c : Char) (read : Text) (rest : List Char) :
    scanText read ((escape c.toNat).toList ++ rest) = scanText (c.toNat :: read) rest := by
  obtain ⟨hhigh, hlow⟩ := Text.not_surrogate c
  unfold escape
  split
  case h_8 hquote hbackslash _ _ _ _ _ =>
    by_cases hcontrol : c.toNat < 0x20
    · simp only [hcontrol, decide_true, Bool.true_or, if_true]
      exact scanText_unicodeEscape hcontrol read rest
    · have hne : c ≠ '"' ∧ c ≠ '\\' := by
        constructor
        · rintro rfl
          exact hquote rfl
        · rintro rfl
          exact hbackslash rfl
      simp [hcontrol, hhigh, hlow, scanText, hne]
  all_goals rename_i heq; rw [heq]; rfl

/-- A string is scanned as it is written. -/
theorem scanText_quoted (s : String) (rest : List Char) :
    ∃ cs, (Text.quoted (.ofString s)).toList ++ rest = '"' :: cs ∧
      scanText [] cs = some (.ofString s, rest) := by
  have hchars : ∀ (cs : List Char) (read : Text),
      scanText read ((cs.map Char.toNat).flatMap (fun c => (escape c).toList) ++ '"' :: rest) =
        some (read.reverse ++ cs.map Char.toNat, rest) := by
    intro cs
    induction cs with
    | nil =>
      intro read
      simp [scanText]
    | cons c cs ih =>
      intro read
      rw [List.map_cons, List.flatMap_cons, List.append_assoc, scanText_escape, ih]
      simp
  refine ⟨_, ?_, hchars s.toList []⟩
  rw [Text.quoted, String.toList_append, String.toList_append, String.toList_join]
  simp [Text.ofString, List.flatMap_map]

/-! ## Trees and tokens -/

/-- A property holds of every tree if arrays and objects take it from what they hold. -/
theorem treeInduction {P : Json → Prop} (null : P .null) (bool : ∀ b, P (.bool b))
    (number : ∀ n, P (.number n)) (string : ∀ t, P (.string t))
    (array : ∀ items, (∀ j ∈ items, P j) → P (.array items))
    (object : ∀ members, (∀ m ∈ members, P m.2) → P (.object members)) (j : Json) : P j := by
  refine Json.rec (motive_1 := P) (motive_2 := fun items => ∀ j ∈ items, P j)
    (motive_3 := fun members => ∀ m ∈ members, P m.2) (motive_4 := fun m => P m.2) null bool
    number string array object ?_ ?_ ?_ ?_ ?_ j
  · intro j hj
    cases hj
  · intro j js hj hjs
    exact List.forall_mem_cons.2 ⟨hj, hjs⟩
  · intro m hm
    cases hm
  · intro m ms hm hms
    exact List.forall_mem_cons.2 ⟨hm, hms⟩
  · intro key j hj
    exact hj

mutual

/-- The tokens that a tree is written with. -/
def spelled : Json → List Token
  | .null => [.null]
  | .bool b => [.bool b]
  | .number n => [.number n]
  | .string t => [.text t]
  | .array [] => [.openArray, .closeArray]
  | .array (item :: items) =>
    .openArray :: (spelled item ++ (spelledItems items ++ [Token.closeArray]))
  | .object [] => [.openObject, .closeObject]
  | .object ((key, v) :: members) =>
    .openObject :: .text key :: .colon ::
      (spelled v ++ (spelledMembers members ++ [Token.closeObject]))

/-- The tokens of the further items of an array. -/
def spelledItems : List Json → List Token
  | [] => []
  | item :: items => .comma :: (spelled item ++ spelledItems items)

/-- The tokens of the further members of an object. -/
def spelledMembers : List (Text × Json) → List Token
  | [] => []
  | (key, v) :: members => .comma :: .text key :: .colon :: (spelled v ++ spelledMembers members)

end

/-- Trees whose numbers and strings are written properly. -/
inductive IsWritten : Json → Prop where
  /-- The word `null`. -/
  | null : IsWritten .null
  /-- The words `true` and `false`. -/
  | bool (b : Bool) : IsWritten (.bool b)
  /-- A number. -/
  | number {n : Number} (hn : n.IsWritten) : IsWritten (.number n)
  /-- A string. -/
  | string (s : String) : IsWritten (.ofString s)
  /-- An array. -/
  | array {items : List Json} (h : ∀ j ∈ items, IsWritten j) : IsWritten (.array items)
  /-- An object. -/
  | record {members : List (String × Json)} (h : ∀ m ∈ members, IsWritten m.2) :
    IsWritten (.record members)

/-! ## From text to tokens -/

theorem tokensFrom_blank {c : Char} (hc : isBlank c = true) (read : List Token)
    (cs : List Char) : tokensFrom read (c :: cs) = tokensFrom read cs := by
  rw [tokensFrom, if_pos hc]

theorem tokensFrom_blanks {blanks : List Char} (h : ∀ c ∈ blanks, isBlank c = true)
    (read : List Token) (cs : List Char) :
    tokensFrom read (blanks ++ cs) = tokensFrom read cs := by
  induction blanks with
  | nil => rfl
  | cons c blanks ih =>
    obtain ⟨hc, hblanks⟩ := List.forall_mem_cons.1 h
    rw [List.cons_append, tokensFrom_blank hc, ih hblanks]

theorem tokensFrom_newline (depth : ℕ) (read : List Token) (cs : List Char) :
    tokensFrom read ((newline depth).toList ++ cs) = tokensFrom read cs := by
  refine tokensFrom_blanks ?_ read cs
  simp only [newline, String.toList_append, String.toList_ofList, List.forall_mem_append]
  refine ⟨by simp [isBlank], ?_⟩
  intro c hc
  rw [List.eq_of_mem_replicate hc]
  rfl

/-- The next token is taken off a text that does not begin with a blank. -/
theorem tokensFrom_token {c : Char} {cs rest : List Char} {t : Token} (hc : isBlank c = false)
    (ht : scanToken (c :: cs) = some (t, rest)) (read : List Token) :
    tokensFrom read (c :: cs) = tokensFrom (t :: read) rest := by
  rw [tokensFrom, if_neg (by simp [hc])]
  split
  · rename_i t' rest' h
    rw [ht] at h
    cases h
    rfl
  · rename_i h
    rw [ht] at h
    cases h

theorem tokensFrom_quoted (s : String) (read : List Token) (cs : List Char) :
    tokensFrom read ((Text.quoted (.ofString s)).toList ++ cs) =
      tokensFrom (.text (.ofString s) :: read) cs := by
  obtain ⟨more, hmore, hscan⟩ := scanText_quoted s cs
  rw [hmore]
  refine tokensFrom_token rfl ?_ read
  simp [scanToken, punctuation?, hscan]

/-- A number begins with its sign or a digit. -/
theorem Number.HasDigits.exists_cons (hn : n.HasDigits) :
    ∃ c cs, n.text.toList = c :: cs ∧ (c = '-' ∨ c.isDigit = true) := by
  obtain ⟨c, cs, hcs⟩ := List.exists_cons_of_ne_nil hn.whole_ne_nil
  rw [Number.toList_text]
  cases n.negative with
  | true => exact ⟨'-', _, rfl, .inl rfl⟩
  | false =>
    refine ⟨c, cs ++ n.tailChars, by simp [hcs], .inr ?_⟩
    exact hn.whole c (by simp [hcs])

/-- What begins like a number is scanned as a number. -/
theorem scanToken_of_digit {c : Char} (hc : c = '-' ∨ c.isDigit = true) (cs : List Char) :
    isBlank c = false ∧
      scanToken (c :: cs) = (scanNumber (c :: cs)).map fun r => (.number r.1, r.2) := by
  have hne : ∀ d : Char, d ≠ '-' → d.isDigit = false → c ≠ d := by
    rintro d hsign hdigit rfl
    rcases hc with hc | hc
    · exact hsign hc
    · rw [hc] at hdigit
      cases hdigit
  have hmark : punctuation? c = none := by
    unfold punctuation?
    split
    case h_7 => rfl
    all_goals exact absurd rfl (hne _ (by decide) (by decide))
  constructor
  · simp [isBlank, hne ' ' (by decide) (by decide), hne '\n' (by decide) (by decide),
      hne '\t' (by decide) (by decide), hne '\r' (by decide) (by decide)]
  · have hquote := hne '"' (by decide) (by decide)
    have hstart : (c == '-' || c.isDigit) = true := by
      rcases hc with rfl | hc
      · rfl
      · simp [hc]
    simp [scanToken, hmark, hquote, hstart]

theorem tokensFrom_number (hn : n.IsWritten) (hrest : Stops rest) (read : List Token) :
    tokensFrom read (n.text.toList ++ rest) = tokensFrom (.number n :: read) rest := by
  have hscan := scanNumber_text hn.toHasDigits hrest
  rw [hn.leadingZero] at hscan
  obtain ⟨c, cs, hcs, hc⟩ := hn.toHasDigits.exists_cons
  rw [hcs, List.cons_append] at hscan ⊢
  obtain ⟨hblank, htoken⟩ := scanToken_of_digit hc (cs ++ rest)
  refine tokensFrom_token hblank ?_ read
  rw [htoken, hscan]
  rfl

/-- What may follow a tree: nothing that goes on with a number. -/
theorem stops_newline (depth : ℕ) (cs : List Char) : Stops ((newline depth).toList ++ cs) := by
  intro c cs' h
  have hhead : (newline depth).toList = '\n' :: List.replicate (2 * depth) ' ' := by
    simp [newline]
  rw [hhead] at h
  cases h
  decide

theorem stops_comma (cs : List Char) : Stops (',' :: cs) := by
  rintro c cs' ⟨⟩
  decide

theorem stops_nil : Stops [] := by
  rintro c cs ⟨⟩

/-- A punctuation mark is taken off. -/
theorem tokensFrom_mark {c : Char} {t : Token} (h : punctuation? c = some t)
    (hc : isBlank c = false) (read : List Token) (cs : List Char) :
    tokensFrom read (c :: cs) = tokensFrom (t :: read) cs := by
  refine tokensFrom_token hc ?_ read
  simp [scanToken, h]

/-- The text of a tree is taken apart into the tokens that the tree is written with, wherever it
stands. -/
def TakenApart (j : Json) : Prop :=
  ∀ (depth : ℕ) (read : List Token) (rest : List Char), Stops rest →
    tokensFrom read ((renderAt depth j).toList ++ rest) =
      tokensFrom ((spelled j).reverse ++ read) rest

theorem stops_renderItems (depth : ℕ) (items : List Json) (hrest : Stops rest) :
    Stops ((renderItems depth items).toList ++ rest) := by
  cases items with
  | nil => simpa [renderItems] using hrest
  | cons => simpa [renderItems] using stops_comma _

theorem stops_renderMembers (depth : ℕ) (members : List (Text × Json)) (hrest : Stops rest) :
    Stops ((renderMembers depth members).toList ++ rest) := by
  cases members with
  | nil => simpa [renderMembers] using hrest
  | cons => simpa [renderMembers] using stops_comma _

theorem tokensFrom_renderItems {items : List Json} (h : ∀ j ∈ items, TakenApart j) (depth : ℕ)
    (read : List Token) (hrest : Stops rest) :
    tokensFrom read ((renderItems depth items).toList ++ rest) =
      tokensFrom ((spelledItems items).reverse ++ read) rest := by
  have hcomma : ",".toList = [','] := rfl
  induction items generalizing read with
  | nil => simp [renderItems, spelledItems]
  | cons item items ih =>
    obtain ⟨hitem, hitems⟩ := List.forall_mem_cons.1 h
    have hstops := stops_renderItems depth items hrest
    simp only [renderItems, String.toList_append, List.append_assoc, hcomma, List.cons_append,
      List.nil_append]
    rw [tokensFrom_mark rfl rfl, tokensFrom_newline, hitem _ _ _ hstops, ih hitems]
    simp [spelledItems]

theorem tokensFrom_member {key : String} {v : Json} (h : TakenApart v) (depth : ℕ)
    (read : List Token) (hrest : Stops rest) :
    tokensFrom read ((newline depth).toList ++ ((Text.quoted (.ofString key)).toList ++
        (": ".toList ++ ((renderAt depth v).toList ++ rest)))) =
      tokensFrom ((spelled v).reverse ++ .colon :: .text (.ofString key) :: read) rest := by
  have hcolon : ": ".toList = [':', ' '] := rfl
  rw [tokensFrom_newline, tokensFrom_quoted, hcolon, List.cons_append, List.cons_append,
    List.nil_append, tokensFrom_mark rfl rfl, tokensFrom_blank rfl, h _ _ _ hrest]

theorem tokensFrom_renderMembers {members : List (String × Json)}
    (h : ∀ m ∈ members, TakenApart m.2) (depth : ℕ) (read : List Token) (hrest : Stops rest) :
    tokensFrom read
        ((renderMembers depth (members.map fun m => (.ofString m.1, m.2))).toList ++ rest) =
      tokensFrom
        ((spelledMembers (members.map fun m => (.ofString m.1, m.2))).reverse ++ read) rest := by
  have hcomma : ",".toList = [','] := rfl
  induction members generalizing read with
  | nil => simp [renderMembers, spelledMembers]
  | cons m members ih =>
    obtain ⟨hm, hmembers⟩ := List.forall_mem_cons.1 h
    have hstops := stops_renderMembers depth
      (members.map fun m => (Text.ofString m.1, m.2)) hrest
    simp only [List.map_cons, renderMembers, String.toList_append, List.append_assoc, hcomma,
      List.cons_append, List.nil_append]
    rw [tokensFrom_mark rfl rfl, tokensFrom_member hm _ _ hstops, ih hmembers]
    simp [spelledMembers]

/-- The text of a tree is taken apart into the tokens that the tree is written with. -/
theorem IsWritten.takenApart {j : Json} (h : j.IsWritten) : TakenApart j := by
  have hwords : ∀ (word : String) (t : Token) (cs : List Char),
      (∃ c more, word.toList = c :: more ∧ isBlank c = false) →
        scanToken (word.toList ++ cs) = some (t, cs) → ∀ read,
          tokensFrom read (word.toList ++ cs) = tokensFrom (t :: read) cs := by
    intro word t cs ⟨c, more, hword, hc⟩ hscan read
    rw [hword] at hscan ⊢
    exact tokensFrom_token hc hscan read
  induction h with
  | null =>
    intro depth read rest hrest
    exact hwords "null" .null rest ⟨_, _, rfl, rfl⟩ rfl read
  | bool b =>
    intro depth read rest hrest
    cases b with
    | true => exact hwords "true" (.bool true) rest ⟨_, _, rfl, rfl⟩ rfl read
    | false => exact hwords "false" (.bool false) rest ⟨_, _, rfl, rfl⟩ rfl read
  | number hn =>
    intro depth read rest hrest
    exact tokensFrom_number hn hrest read
  | string s =>
    intro depth read rest hrest
    exact tokensFrom_quoted s read rest
  | @array items _ ih =>
    intro depth read rest hrest
    have hopen : "[".toList = ['['] := rfl
    have hclose : "]".toList = [']'] := rfl
    cases items with
    | nil =>
      have hempty : "[]".toList = ['[', ']'] := rfl
      rw [renderAt, hempty, List.cons_append, List.cons_append, tokensFrom_mark rfl rfl,
        tokensFrom_mark rfl rfl]
      simp [spelled]
    | cons item items =>
      obtain ⟨hitem, hitems⟩ := List.forall_mem_cons.1 ih
      have hend : Stops ((newline depth).toList ++ (']' :: rest)) := stops_newline depth _
      have hstops := stops_renderItems (depth + 1) items hend
      simp only [renderAt, String.toList_append, List.append_assoc, hopen, hclose,
        List.cons_append, List.nil_append]
      rw [tokensFrom_mark rfl rfl, tokensFrom_newline, hitem _ _ _ hstops,
        tokensFrom_renderItems hitems _ _ hend, tokensFrom_newline, tokensFrom_mark rfl rfl]
      simp [spelled]
  | @record members _ ih =>
    intro depth read rest hrest
    have hopen : "\x7b".toList = ['\x7b'] := rfl
    have hclose : "\x7d".toList = ['\x7d'] := rfl
    cases members with
    | nil =>
      have hempty : "\x7b\x7d".toList = ['\x7b', '\x7d'] := rfl
      rw [Json.record, List.map_nil, renderAt, hempty, List.cons_append, List.cons_append,
        tokensFrom_mark rfl rfl, tokensFrom_mark rfl rfl]
      simp [spelled]
    | cons m members =>
      obtain ⟨hm, hmembers⟩ := List.forall_mem_cons.1 ih
      have hend : Stops ((newline depth).toList ++ ('\x7d' :: rest)) := stops_newline depth _
      have hstops := stops_renderMembers (depth + 1)
        (members.map fun m => (Text.ofString m.1, m.2)) hend
      simp only [Json.record, List.map_cons, renderAt, String.toList_append, List.append_assoc,
        hopen, hclose, List.cons_append, List.nil_append]
      rw [tokensFrom_mark rfl rfl, tokensFrom_member hm _ _ hstops,
        tokensFrom_renderMembers hmembers _ _ hend, tokensFrom_newline, tokensFrom_mark rfl rfl]
      simp [spelled]

/-! ## From tokens to trees -/

/-- The tokens of a tree are put together to the tree, wherever a value may stand. -/
def PutTogether (j : Json) : Prop :=
  ∃ t ts, spelled j = t :: ts ∧ t ≠ .closeArray ∧
    ∀ stack, (Phase.startValue stack t).bind (ts.foldlM Phase.step) = Phase.place j stack

theorem PutTogether.foldlM_value {j : Json} (h : PutTogether j) (stack : List Frame) :
    (spelled j).foldlM Phase.step (.value stack) = Phase.place j stack := by
  obtain ⟨t, ts, hts, -, hplace⟩ := h
  rw [hts, List.foldlM_cons]
  exact hplace stack

theorem PutTogether.foldlM_firstItem {j : Json} (h : PutTogether j) (stack : List Frame) :
    (spelled j).foldlM Phase.step (.firstItem stack) = Phase.place j stack := by
  obtain ⟨t, ts, hts, hclose, hplace⟩ := h
  rw [hts, List.foldlM_cons]
  have hstep : Phase.step (.firstItem stack) t = Phase.startValue stack t := by
    rw [Phase.step]
    rintro stack rfl rfl
    exact hclose rfl
  rw [hstep]
  exact hplace stack

theorem foldlM_spelledItems {items : List Json} (h : ∀ j ∈ items, PutTogether j)
    (acc : List Json) (stack : List Frame) :
    (spelledItems items ++ [Token.closeArray]).foldlM Phase.step
        (.separator (.array acc :: stack)) =
      Phase.place (.array (acc.reverse ++ items)) stack := by
  induction items generalizing acc with
  | nil => simp [spelledItems, Phase.step]
  | cons item items ih =>
    obtain ⟨hitem, hitems⟩ := List.forall_mem_cons.1 h
    have hmore := ih hitems (item :: acc)
    rw [List.reverse_cons, List.append_assoc] at hmore
    rw [spelledItems, List.cons_append, List.foldlM_cons, List.append_assoc]
    show ((spelled item ++ (spelledItems items ++ [Token.closeArray])).foldlM Phase.step
      (.value (.array acc :: stack))) = _
    rw [List.foldlM_append, hitem.foldlM_value]
    exact hmore

theorem foldlM_spelledMembers {members : List (Text × Json)} (h : ∀ m ∈ members, PutTogether m.2)
    (acc : List (Text × Json)) (stack : List Frame) :
    (spelledMembers members ++ [Token.closeObject]).foldlM Phase.step
        (.separator (.object acc :: stack)) =
      Phase.place (.object (acc.reverse ++ members)) stack := by
  induction members generalizing acc with
  | nil => simp [spelledMembers, Phase.step]
  | cons m members ih =>
    obtain ⟨hm, hmembers⟩ := List.forall_mem_cons.1 h
    obtain ⟨key, v⟩ := m
    have hmore := ih hmembers ((key, v) :: acc)
    rw [List.reverse_cons, List.append_assoc] at hmore
    rw [spelledMembers, List.cons_append, List.cons_append, List.cons_append, List.append_assoc]
    show ((spelled v ++ (spelledMembers members ++ [Token.closeObject])).foldlM Phase.step
      (.value (.member acc key :: stack))) = _
    rw [List.foldlM_append, PutTogether.foldlM_value hm]
    exact hmore

/-- The tokens that a tree is written with are put together to the tree. -/
theorem putTogether (j : Json) : PutTogether j := by
  induction j using treeInduction with
  | null => exact ⟨_, _, rfl, by simp, fun stack => by simp [Phase.startValue]⟩
  | bool b => exact ⟨_, _, rfl, by simp, fun stack => by simp [Phase.startValue]⟩
  | number n => exact ⟨_, _, rfl, by simp, fun stack => by simp [Phase.startValue]⟩
  | string t => exact ⟨_, _, rfl, by simp, fun stack => by simp [Phase.startValue]⟩
  | array items ih =>
    cases items with
    | nil => exact ⟨_, _, rfl, by simp, fun stack => by simp [Phase.startValue, Phase.step]⟩
    | cons item items =>
      obtain ⟨hitem, hitems⟩ := List.forall_mem_cons.1 ih
      refine ⟨.openArray, _, by rw [spelled], by simp, fun stack => ?_⟩
      rw [Phase.startValue, Option.bind_some, List.foldlM_append, hitem.foldlM_firstItem]
      exact foldlM_spelledItems hitems [item] stack
  | object members ih =>
    cases members with
    | nil => exact ⟨_, _, rfl, by simp, fun stack => by simp [Phase.startValue, Phase.step]⟩
    | cons m members =>
      obtain ⟨hm, hmembers⟩ := List.forall_mem_cons.1 ih
      obtain ⟨key, v⟩ := m
      refine ⟨.openObject, _, by rw [spelled], by simp, fun stack => ?_⟩
      show ((spelled v ++ (spelledMembers members ++ [Token.closeObject])).foldlM Phase.step
        (.value (.member [] key :: stack))) = _
      rw [List.foldlM_append, PutTogether.foldlM_value hm]
      exact foldlM_spelledMembers hmembers [(key, v)] stack

/-- A tree whose numbers and strings are written properly is read back from its text. -/
theorem IsWritten.read?_render {j : Json} (h : j.IsWritten) : read? j.render = some j := by
  have htokens : tokens j.render = some (spelled j) := by
    have hapart := h.takenApart 0 [] [] stops_nil
    rw [List.append_nil, List.append_nil] at hapart
    rw [tokens, render, hapart, tokensFrom, List.reverse_reverse]
  rw [read?, htokens, Option.bind_some, ofTokens?, (putTogether j).foldlM_value]
  rfl

/-! ## Numbers that are written -/

/-- The text of a number with a zero in front of other digits is not JSON. -/
theorem read?_render_of_leadingZero (hn : n.HasDigits) (h : n.leadingZero = true) :
    read? (Json.number n).render = none := by
  have hscan := scanNumber_text hn stops_nil
  rw [h] at hscan
  obtain ⟨c, cs, hcs, hc⟩ := hn.exists_cons
  rw [hcs, List.append_nil] at hscan
  obtain ⟨hblank, htoken⟩ := scanToken_of_digit hc cs
  have htokens : tokensFrom [] (c :: cs) = none := by
    rw [tokensFrom, if_neg (by simp [hblank])]
    split
    · rename_i ht
      rw [htoken, hscan] at ht
      cases ht
    · rfl
  rw [read?, tokens, render, renderAt, hcs, htokens]
  rfl

namespace Number

/-- Numerals are written with digits. -/
theorem hasDigits_of_ofNumeral? {x : Numeral} (h : ofNumeral? x = some n) : n.HasDigits := by
  have hne : ∀ d : ℕ, Nat.toDigits 10 d ≠ [] := fun d => Nat.toDigits_ne_nil
  have hdigits : ∀ d : ℕ, ∀ c ∈ Nat.toDigits 10 d, c.isDigit = true :=
    fun d c hc => Nat.isDigit_of_mem_toDigits (by decide) (by decide) hc
  have hzeros : ∀ k : ℕ, ∀ c ∈ List.replicate k '0', c.isDigit = true := by
    intro k c hc
    rw [List.eq_of_mem_replicate hc]
    rfl
  cases x with
  | nan => cases h
  | infinite => cases h
  | finite negative digits exponent =>
    rw [ofNumeral?] at h
    split at h
    · cases h
      refine ⟨?_, fun c hc => hdigits digits c (List.mem_of_mem_take hc),
        fun c hc => hdigits digits c (List.mem_of_mem_drop hc)⟩
      simp [hne]
    · split at h
      · cases h
        refine ⟨by simp [hne], ?_, hzeros 1⟩
        simp only [List.forall_mem_append]
        exact ⟨hdigits digits, hzeros _⟩
      · split at h
        · rename_i hpoint
          cases h
          refine ⟨?_, fun c hc => hdigits digits c (List.mem_of_mem_take hc),
            fun c hc => hdigits digits c (List.mem_of_mem_drop hc)⟩
          simp only [ne_eq, List.take_eq_nil_iff, hne, or_false]
          omega
        · cases h
          refine ⟨by simp, hzeros 1, ?_⟩
          simp only [List.forall_mem_append]
          exact ⟨hzeros _, hdigits digits⟩

/-- The digits of a natural number other than zero do not begin with a zero. -/
theorem head?_toDigits {k : ℕ} (hk : k ≠ 0) : (Nat.toDigits 10 k).head? ≠ some '0' := by
  induction k using Nat.strong_induction_on with
  | _ k ih =>
    by_cases hlt : k < 10
    · rw [Nat.toDigits_of_lt_base hlt]
      interval_cases k
      all_goals simp_all [Nat.digitChar]
    · rw [Nat.toDigits_of_base_le (by decide) (not_lt.1 hlt),
        List.head?_append_of_ne_nil _ Nat.toDigits_ne_nil]
      exact ih (k / 10) (by omega) (by omega)

/-- Natural numbers are written properly. -/
theorem isWritten_ofNat (k : ℕ) : (ofNat k).IsWritten where
  whole_ne_nil := Nat.toDigits_ne_nil
  whole := fun c hc => Nat.isDigit_of_mem_toDigits (by decide) (by decide) hc
  fraction := by
    intro c hc
    cases hc
  leadingZero := by
    by_cases hk : k = 0
    · subst hk
      rfl
    · simp [leadingZero, ofNat, head?_toDigits hk]

theorem natural?_ofNat {k limit : ℕ} (h : k ≤ limit) : (ofNat k).natural? limit = some k := by
  have hvalue : Numeral.ofDigits (Nat.toDigits 10 k) = k := Nat.ofDigitChars_ten_toDigits
  simp [natural?, ofNat, hvalue, h]

end Number

end Json

end ZeroSet
