import Mathlib
import ZeroSet.Expr.Text
import ZeroSet.Proofs.Trees
import ZeroSet.Scalar.Binary64

/-!
# Formulas can be read back

Formulas are written with as few parentheses as possible.  They are enough: two expressions that
are written alike are the same tree, whichever way they nest.

Nothing reads formulas here, but what a reader could do is what the proof does.  It goes through
two texts that begin with operands from the left, and finds the same operand in both as long as
what follows does not continue it (`Ends`).  Atoms are told apart by how they begin, and by the
parenthesis behind the name of a function.  Operands of a weaker strength are chains of stronger
ones, so one strength follows from the next, and parentheses lead back to shorter texts.

* `Expr.Legible` — the expressions in question: no names or numbers that look like anything else.
* `Expr.operand` — the text of an operand, in parentheses if need be.
* `Reads` — an operand can be told from whatever follows.
* `Reads.chain`, `Reads.sign`, `Reads.power`, `Reads.atom` — one strength after the other.
* `Expr.eq_of_text_eq` — expressions that are written alike are the same.
-/

namespace ZeroSet

variable {K : Type}

/-! ## Legible expressions -/

/-- The characters that names are made of. -/
def isNameChar (c : Char) : Bool := c.isAlphanum || c == '_' || 128 ≤ c.toNat

/-- The characters that names and numbers are made of. -/
def isWordChar (c : Char) : Bool := isNameChar c || c == '.'

/-- A name that does not begin with a digit. -/
structure IsIdentifier (name : String) : Prop where
  /-- There are no other characters. -/
  nameChars : ∀ c ∈ name.toList, isNameChar c = true
  /-- The first character is there and is not a digit. -/
  first : ∃ c cs, name.toList = c :: cs ∧ c.isDigit = false

variable [Scalar K] [Decimal K]

/-- Numbers that are not negative and are written with digits and points, no two of them alike. -/
structure PlainNumbers (numbers : Set K) : Prop where
  /-- There is no sign. -/
  not_neg : ∀ v ∈ numbers, ¬v < 0
  /-- There are no other characters. -/
  digits : ∀ v ∈ numbers, ∀ c ∈ (Decimal.text v).toList, c.isDigit = true ∨ c = '.'
  /-- No two numbers are written alike. -/
  injOn : Set.InjOn Decimal.text numbers

/-- Expressions over some numbers in which variables have proper names, functions are built in and
vectors do not have exactly one element, which would be written like a parenthesis. -/
inductive Expr.Legible (numbers : Set K) : Expr K → Prop where
  /-- One of the numbers. -/
  | num {v : K} : v ∈ numbers → Legible numbers (.num v)
  /-- A variable. -/
  | var {name : String} : IsIdentifier name → Legible numbers (.var name)
  /-- A vector. -/
  | vec {items : List (Expr K)} : items.length ≠ 1 → (∀ e ∈ items, Legible numbers e) →
    Legible numbers (.vec items)
  /-- An interval. -/
  | interval {lo hi : Expr K} : Legible numbers lo → Legible numbers hi →
    Legible numbers (.interval lo hi)
  /-- A negation. -/
  | neg {a : Expr K} : Legible numbers a → Legible numbers (.neg a)
  /-- An arithmetic operation. -/
  | binary {op : BinOp} {a b : Expr K} : Legible numbers a → Legible numbers b →
    Legible numbers (.binary op a b)
  /-- A power. -/
  | power {a b : Expr K} : Legible numbers a → Legible numbers b → Legible numbers (.power a b)
  /-- A built-in function, applied to any number of arguments. -/
  | apply {b : Builtin K} {args : List (Expr K)} : (∀ p ∈ b.parameter?, p ∈ numbers) →
    (∀ e ∈ args, Legible numbers e) → Legible numbers (.apply (.builtin b) args)

/-! ## Operands -/

namespace Expr

/-- The characters of a formula. -/
def chars (e : Expr K) : List Char := e.text.toList

/-- The characters of formulas with commas between them. -/
def charsList (es : List (Expr K)) : List Char := (textList es).toList

/-- The characters of an operand, in parentheses if it binds more loosely than asked for. -/
def operand (least : Strength) (e : Expr K) : List Char :=
  (parenthesize least e.strength e.text).toList

variable {least : Strength} {e : Expr K}

theorem operand_of_le (h : least.rank ≤ e.strength.rank) : e.operand least = e.chars := by
  rw [operand, parenthesize, if_neg (by omega), chars]

theorem operand_of_lt (h : e.strength.rank < least.rank) :
    e.operand least = '(' :: (e.chars ++ [')']) := by
  rw [operand, parenthesize, if_pos h]
  simp [chars]

theorem operand_of_strength (h : e.strength = least) : e.operand least = e.chars :=
  operand_of_le (by rw [h])

theorem operand_of_atom (h : e.strength = .atom) : e.operand least = e.chars := by
  refine operand_of_le ?_
  rw [h]
  cases least <;> decide

theorem operand_sum (e : Expr K) : e.operand .sum = e.chars := operand_of_le (Nat.zero_le _)

/-- Only an operand of exactly the strength that is asked for needs parentheses if more is asked
for. -/
theorem operand_of_ne {next : Strength} (hnext : next.rank = least.rank + 1)
    (h : e.strength ≠ least) : e.operand least = e.operand next := by
  have hrank : e.strength.rank ≠ least.rank := by
    intro heq
    apply h
    revert heq
    cases e.strength <;> cases least <;> decide
  by_cases hlt : e.strength.rank < least.rank
  · rw [operand_of_lt hlt, operand_of_lt (by omega)]
  · rw [operand_of_le (by omega), operand_of_le (by omega)]

section

attribute [local simp] chars text

theorem chars_neg (a : Expr K) : (neg a).chars = '-' :: a.operand .power := by
  simp [operand]

theorem chars_binary (op : BinOp) (a b : Expr K) :
    (binary op a b).chars =
      a.operand op.strength ++ (op.symbol.toList ++ b.operand op.rightStrength) := by
  simp [operand]

theorem chars_power (a b : Expr K) :
    (power a b).chars = a.operand .atom ++ '^' :: b.operand .power := by
  simp [operand]

theorem chars_interval (lo hi : Expr K) :
    (interval lo hi).chars = '[' :: (lo.chars ++ ',' :: ' ' :: (hi.chars ++ [']'])) := by
  simp

theorem chars_vec (items : List (Expr K)) :
    (vec items).chars = '(' :: (charsList items ++ [')']) := by
  simp [charsList]

theorem chars_apply (b : Builtin K) (args : List (Expr K)) :
    (apply (.builtin b) args).chars = b.name.toList ++ '(' :: (charsList args ++ [')']) := by
  simp [charsList, Func.name]

end

/-- Formulas with a comma in front of each. -/
def further (es : List (Expr K)) : List Char := es.flatMap fun e => ',' :: ' ' :: e.chars

theorem charsList_cons (e : Expr K) (es : List (Expr K)) :
    charsList (e :: es) = e.chars ++ further es := by
  induction es generalizing e with
  | nil => simp [charsList, chars, textList, further]
  | cons e' es ih =>
    have hnext : charsList (e :: e' :: es) = e.chars ++ ',' :: ' ' :: charsList (e' :: es) := by
      simp [charsList, chars, textList]
    rw [hnext, ih]
    simp [further]

theorem charsList_singleton (e : Expr K) : charsList [e] = e.chars := by
  simp [charsList_cons, further]

theorem further_cons (e : Expr K) (es : List (Expr K)) :
    further (e :: es) = ',' :: ' ' :: charsList (e :: es) := by
  rw [charsList_cons]
  rfl

end Expr

/-! ## What may follow an operand -/

/-- What can stand behind an operand of some strength and does not continue it: the end, a closing
sign, an operator that binds more loosely, and behind an atom the sign of a power. -/
inductive Ends : Strength → List Char → Prop where
  /-- Nothing follows. -/
  | nil {least : Strength} : Ends least []
  /-- The end of a group. -/
  | closer {least : Strength} {c : Char} {rest : List Char} (h : c = ')' ∨ c = ']' ∨ c = ',') :
    Ends least (c :: rest)
  /-- An operator. -/
  | operator {least : Strength} (op : BinOp) {rest : List Char}
    (h : op.strength.rank < least.rank) : Ends least (op.symbol.toList ++ rest)
  /-- An exponent. -/
  | caret {rest : List Char} : Ends .atom ('^' :: rest)

theorem BinOp.eq_of_symbol_append {op op' : BinOp} {t t' : List Char}
    (h : op.symbol.toList ++ t = op'.symbol.toList ++ t') : op = op' ∧ t = t' := by
  cases op <;> cases op' <;> simp_all [BinOp.symbol]

theorem BinOp.exists_symbol (op : BinOp) : ∃ cs, op.symbol.toList = ' ' :: cs := by
  cases op <;> exact ⟨_, rfl⟩

namespace Ends

variable {least least' : Strength} {r : List Char}

theorem mono (h : Ends least r) (hle : least.rank ≤ least'.rank) : Ends least' r := by
  cases h with
  | nil => exact .nil
  | closer hc => exact .closer hc
  | operator op hop => exact .operator op (hop.trans_le hle)
  | caret =>
    have hatom : least' = .atom := by
      revert hle
      cases least' <;> decide
    rw [hatom]
    exact .caret

/-- No operator continues an operand that asks for at least its strength. -/
theorem not_operator {op : BinOp} {rest : List Char}
    (h : Ends least (op.symbol.toList ++ rest)) : op.strength.rank < least.rank := by
  generalize ht : op.symbol.toList ++ rest = t at h
  obtain ⟨cs, hspace⟩ := op.exists_symbol
  cases h with
  | operator op' hop =>
    obtain ⟨rfl, -⟩ := BinOp.eq_of_symbol_append ht
    exact hop
  | nil => simp [hspace] at ht
  | closer hc =>
    rw [hspace] at ht
    cases ht
    exact absurd hc (by decide)
  | caret =>
    rw [hspace] at ht
    cases ht

/-- Only an atom can be the base of a power. -/
theorem eq_atom {rest : List Char} (h : Ends least ('^' :: rest)) : least = .atom := by
  generalize ht : '^' :: rest = t at h
  cases h with
  | nil => cases ht
  | closer hc =>
    cases ht
    simp at hc
  | operator op _ => cases op <;> cases ht
  | caret => rfl

/-- No word goes on and no group begins behind an operand. -/
theorem head (h : Ends least r) {c : Char} {rest : List Char} (hr : r = c :: rest) :
    isWordChar c = false ∧ c ≠ '(' ∧ c ≠ '[' := by
  cases h with
  | nil => cases hr
  | closer hc =>
    cases hr
    rcases hc with rfl | rfl | rfl <;> decide
  | operator op _ => cases op <;> cases hr <;> decide
  | caret =>
    cases hr
    decide

end Ends

/-- Two words are the same if what follows does not continue them. -/
theorem eq_of_word_append {w w' r r' : List Char} (hw : ∀ c ∈ w, isWordChar c = true)
    (hw' : ∀ c ∈ w', isWordChar c = true)
    (hr : ∀ c rest, r = c :: rest → isWordChar c = false)
    (hr' : ∀ c rest, r' = c :: rest → isWordChar c = false) (h : w ++ r = w' ++ r') :
    w = w' ∧ r = r' := by
  induction w generalizing w' with
  | nil =>
    cases w' with
    | nil => exact ⟨rfl, h⟩
    | cons c cs =>
      have hc := hw' c (List.mem_cons_self ..)
      rw [hr c _ h] at hc
      cases hc
  | cons c cs ih =>
    cases w' with
    | nil =>
      have hc := hw c (List.mem_cons_self ..)
      rw [hr' c _ h.symm] at hc
      cases hc
    | cons c' cs' =>
      obtain ⟨rfl, hrest⟩ := List.cons.inj h
      obtain ⟨rfl, rfl⟩ := ih (fun c hc => hw c (List.mem_cons_of_mem _ hc))
        (fun c hc => hw' c (List.mem_cons_of_mem _ hc)) hrest
      exact ⟨rfl, rfl⟩

/-- A word that ends an operand is not followed by a group. -/
theorem Ends.ne_append {least : Strength} {w r u : List Char} {c : Char} (hr : Ends least r)
    (w' : List Char) (hw : ∀ c ∈ w, isWordChar c = true) (hw' : ∀ c ∈ w', isWordChar c = true)
    (hc : c = '(' ∨ c = '[') : w ++ r ≠ w' ++ c :: u := by
  intro h
  have hstops : ∀ d rest, c :: u = d :: rest → isWordChar d = false := by
    rintro d rest ⟨⟩
    rcases hc with rfl | rfl <;> decide
  obtain ⟨-, hrest⟩ := eq_of_word_append hw hw' (fun d rest hd => (hr.head hd).1) hstops h
  obtain ⟨-, hparen, hbracket⟩ := hr.head hrest
  rcases hc with rfl | rfl
  · exact hparen rfl
  · exact hbracket rfl

/-- What begins with a word is not an interval. -/
theorem ne_bracket {w u v : List Char} (hw : ∀ c ∈ w, isWordChar c = true) :
    w ++ '(' :: u ≠ '[' :: v := by
  intro h
  cases w with
  | nil => simp at h
  | cons c cs =>
    obtain ⟨rfl, -⟩ := List.cons.inj h
    exact absurd (hw _ (List.mem_cons_self ..)) (by decide)

/-! ## Atoms -/

theorem isWordChar_of_isNameChar {c : Char} (h : isNameChar c = true) : isWordChar c = true := by
  simp [isWordChar, h]

theorem isWordChar_of_digit {c : Char} (h : c.isDigit = true ∨ c = '.') :
    isWordChar c = true := by
  rcases h with h | rfl
  · simp [isWordChar, isNameChar, Char.isAlphanum, h]
  · decide

/-- Numbers have digits. -/
theorem Numeral.plain_ne_nil (n : Numeral) : n.plain.toList ≠ [] := by
  cases n with
  | nan => decide
  | infinite negative => simp [plain]
  | finite negative digits exponent =>
    cases exponent <;> simp [plain, positional, Nat.repr]

theorem Builtin.isWordChar_name {numbers : Set K} (hnumbers : PlainNumbers numbers)
    {b : Builtin K} (hb : ∀ p ∈ b.parameter?, p ∈ numbers) :
    ∀ c ∈ b.name.toList, isWordChar c = true := by
  have hparameter : ∀ {start : List Char} {p : K}, (∀ c ∈ start, isWordChar c = true) →
      p ∈ numbers → ∀ c ∈ start ++ (Decimal.text p).toList, isWordChar c = true := by
    intro start p hstart hp c hc
    rcases List.mem_append.1 hc with hc | hc
    · exact hstart c hc
    · exact isWordChar_of_digit (hnumbers.digits p hp c hc)
  have hnames : ∀ start ∈ ["exp", "ln", "sqrt", "log_", "root_"],
      ∀ c ∈ start.toList, isWordChar c = true := by
    simp [isWordChar, isNameChar]
  cases b with
  | exp => exact hnames "exp" (by simp)
  | ln => exact hnames "ln" (by simp)
  | sqrt => exact hnames "sqrt" (by simp)
  | log base =>
    rw [name, String.toList_append]
    exact hparameter (hnames "log_" (by simp)) (hb base rfl)
  | root degree =>
    rw [name, String.toList_append]
    exact hparameter (hnames "root_" (by simp)) (hb degree rfl)

/-- Built-in functions have different names. -/
theorem Builtin.eq_of_name_eq {numbers : Set K} (hnumbers : PlainNumbers numbers)
    {b b' : Builtin K} (hb : ∀ p ∈ b.parameter?, p ∈ numbers)
    (hb' : ∀ p ∈ b'.parameter?, p ∈ numbers) (h : b.name = b'.name) : b = b' := by
  have hparameter : ∀ {start : String} {p p' : K}, p ∈ numbers → p' ∈ numbers →
      start ++ Decimal.text p = start ++ Decimal.text p' → p = p' := by
    intro start p p' hp hp' h
    refine hnumbers.injOn hp hp' ?_
    rw [← String.toList_inj, String.toList_append, String.toList_append] at h
    exact String.toList_inj.1 (List.append_cancel_left h)
  have hchars := congrArg String.toList h
  cases b with
  | log base =>
    cases b' with
    | log base' => rw [hparameter (hb base rfl) (hb' base' rfl) h]
    | _ => simp [name] at hchars
  | root degree =>
    cases b' with
    | root degree' => rw [hparameter (hb degree rfl) (hb' degree' rfl) h]
    | _ => simp [name] at hchars
  | _ =>
    cases b' with
    | _ =>
      first
      | rfl
      | simp [name] at hchars

namespace Expr

variable {numbers : Set K} {e e' : Expr K}

/-- Numbers and variables with the word they are written as. -/
inductive Literal (numbers : Set K) : Expr K → List Char → Prop where
  /-- A number. -/
  | num {v : K} (hv : v ∈ numbers) : Literal numbers (.num v) (Decimal.text v).toList
  /-- A variable. -/
  | var {name : String} (hname : IsIdentifier name) : Literal numbers (.var name) name.toList

/-- Whatever is written as a word, if any, and a list in parentheses. -/
inductive Grouped (numbers : Set K) : Expr K → List Char → List (Expr K) → Prop where
  /-- A function with its arguments. -/
  | call {b : Builtin K} {args : List (Expr K)} (hb : ∀ p ∈ b.parameter?, p ∈ numbers) :
    Grouped numbers (.apply (.builtin b) args) b.name.toList args
  /-- A vector. -/
  | tuple {items : List (Expr K)} (hitems : items.length ≠ 1) :
    Grouped numbers (.vec items) [] items
  /-- A single expression that needs parentheses. -/
  | parens {e : Expr K} : Grouped numbers e [] [e]

/-- The three ways to write what needs no parentheses around it. -/
inductive Atom (numbers : Set K) : Expr K → List Char → Prop where
  /-- A word. -/
  | literal {e : Expr K} {w : List Char} : Literal numbers e w → Atom numbers e w
  /-- A list in parentheses. -/
  | grouped {e : Expr K} {w : List Char} {items : List (Expr K)} : Grouped numbers e w items →
    (∀ i ∈ items, i.Legible numbers) → Atom numbers e (w ++ '(' :: (charsList items ++ [')']))
  /-- An interval. -/
  | interval {lo hi : Expr K} : lo.Legible numbers → hi.Legible numbers →
    Atom numbers (.interval lo hi) ('[' :: (lo.chars ++ ',' :: ' ' :: (hi.chars ++ [']'])))

theorem Legible.atom (hnumbers : PlainNumbers numbers) (h : e.Legible numbers) :
    Atom numbers e (e.operand .atom) := by
  -- an operand that is not an atom is put in parentheses
  have hparens : e.strength.rank < Strength.atom.rank → Atom numbers e (e.operand .atom) := by
    intro hlt
    rw [operand_of_lt hlt, ← charsList_singleton]
    refine Atom.grouped (w := []) .parens ?_
    intro i hi
    rw [List.mem_singleton.1 hi]
    exact h
  cases h with
  | num hv =>
    rename_i v
    have hatom : (Expr.num v).strength = .atom := if_neg (hnumbers.not_neg v hv)
    rw [operand_of_atom hatom, chars, text]
    exact .literal (.num hv)
  | var hname =>
    rw [operand_of_atom rfl, chars, text]
    exact .literal (.var hname)
  | vec hlength hitems =>
    rw [operand_of_atom rfl, chars_vec]
    exact .grouped (w := []) (.tuple hlength) hitems
  | interval hlo hhi =>
    rw [operand_of_atom rfl, chars_interval]
    exact .interval hlo hhi
  | neg => exact hparens (by simp [strength, Strength.rank])
  | @binary op =>
    refine hparens ?_
    cases op <;> simp [strength, BinOp.strength, Strength.rank]
  | power => exact hparens (by simp [strength, Strength.rank])
  | apply hb hargs =>
    rw [operand_of_atom rfl, chars_apply]
    exact .grouped (.call hb) hargs

/-- An operand at least as strong as a power is an atom with or without an exponent. -/
theorem Legible.operand_power (h : e.Legible numbers) :
    e.operand .power = e.operand .atom ∨
      ∃ a b, e = .power a b ∧ a.Legible numbers ∧ b.Legible numbers ∧
        e.operand .power = a.operand .atom ++ '^' :: b.operand .power := by
  by_cases hstrength : e.strength = .power
  · right
    rw [operand_of_strength hstrength]
    cases h with
    | power ha hb => exact ⟨_, _, rfl, ha, hb, chars_power _ _⟩
    | num =>
      rw [strength] at hstrength
      split at hstrength <;> cases hstrength
    | @binary op => cases op <;> cases hstrength
    | _ => cases hstrength
  · exact .inl (operand_of_ne rfl hstrength)

/-- An operand at least as strong as a negation is a power with or without a sign. -/
theorem Legible.operand_sign (hnumbers : PlainNumbers numbers) (h : e.Legible numbers) :
    e.operand .sign = e.operand .power ∨
      ∃ a, e = .neg a ∧ a.Legible numbers ∧ e.operand .sign = '-' :: a.operand .power := by
  by_cases hstrength : e.strength = .sign
  · right
    rw [operand_of_strength hstrength]
    cases h with
    | neg ha => exact ⟨_, rfl, ha, chars_neg _⟩
    | num hv =>
      rw [strength, if_neg (hnumbers.not_neg _ hv)] at hstrength
      cases hstrength
    | @binary op => cases op <;> cases hstrength
    | _ => cases hstrength
  · exact .inl (operand_of_ne rfl hstrength)

/-- Operands one after the other, with the operators in front of them. -/
def links (ls : List (BinOp × Expr K)) : List Char :=
  ls.flatMap fun l => l.1.symbol.toList ++ l.2.operand l.1.rightStrength

omit [Scalar K] [Decimal K] in
/-- The expression in which these operations are carried out one after the other. -/
def chain (head : Expr K) (ls : List (BinOp × Expr K)) : Expr K :=
  ls.foldl (fun a l => .binary l.1 a l.2) head

theorem links_cons (l : BinOp × Expr K) (ls : List (BinOp × Expr K)) :
    links (l :: ls) = l.1.symbol.toList ++ (l.2.operand l.1.rightStrength ++ links ls) := by
  simp [links]

/-- An operand at least as strong as a sum is a chain of products, and so on. -/
theorem Legible.exists_chain {least next : Strength} (hnumbers : PlainNumbers numbers)
    (hleast : least.rank < Strength.sign.rank) (hnext : next.rank = least.rank + 1)
    (h : e.Legible numbers) :
    ∃ head ls, head.Legible numbers ∧
      (∀ l ∈ ls, l.1.strength = least ∧ l.2.Legible numbers) ∧ e = chain head ls ∧
        e.operand least = head.operand next ++ links ls := by
  -- whatever is stronger is a chain without links
  have hhead : ∀ {e : Expr K}, e.Legible numbers → e.strength ≠ least →
      ∃ head ls, head.Legible numbers ∧
        (∀ l ∈ ls, l.1.strength = least ∧ l.2.Legible numbers) ∧ e = chain head ls ∧
          e.operand least = head.operand next ++ links ls := by
    intro e he hstrength
    refine ⟨e, [], he, by simp, rfl, ?_⟩
    rw [operand_of_ne hnext hstrength]
    exact (List.append_nil _).symm
  have hne : ∀ {s : Strength}, s = .sign ∨ s = .power ∨ s = .atom → s ≠ least := by
    rintro s (rfl | rfl | rfl) rfl
    all_goals exact absurd hleast (by decide)
  induction h with
  | num hv =>
    exact hhead (.num hv) (hne (.inr (.inr (if_neg (hnumbers.not_neg _ hv)))))
  | var hname => exact hhead (.var hname) (hne (.inr (.inr rfl)))
  | vec hlength hitems => exact hhead (.vec hlength hitems) (hne (.inr (.inr rfl)))
  | interval hlo hhi => exact hhead (.interval hlo hhi) (hne (.inr (.inr rfl)))
  | neg ha => exact hhead (.neg ha) (hne (.inl rfl))
  | power ha hb => exact hhead (.power ha hb) (hne (.inr (.inl rfl)))
  | apply hb hargs => exact hhead (.apply hb hargs) (hne (.inr (.inr rfl)))
  | @binary op a b ha hb iha _ =>
    by_cases hop : op.strength = least
    · obtain ⟨head, ls, hhead, hls, rfl, hoperand⟩ := iha
      refine ⟨head, ls ++ [(op, b)], hhead, ?_, ?_, ?_⟩
      · simp only [List.forall_mem_append, List.forall_mem_singleton]
        exact ⟨hls, hop, hb⟩
      · simp [chain]
      · have hstrength : (Expr.binary op (chain head ls) b).strength = least := hop
        rw [operand_of_strength hstrength, chars_binary, hop, hoperand]
        simp [links]
    · exact hhead (.binary ha hb) hop

/-! ### How atoms begin -/

theorem Literal.word (hnumbers : PlainNumbers numbers) {w : List Char}
    (h : Literal numbers e w) : ∀ c ∈ w, isWordChar c = true := by
  cases h with
  | num hv => exact fun c hc => isWordChar_of_digit (hnumbers.digits _ hv c hc)
  | var hname => exact fun c hc => isWordChar_of_isNameChar (hname.nameChars c hc)

omit [Scalar K] in
theorem Literal.ne_nil {w : List Char} (h : Literal numbers e w) : w ≠ [] := by
  cases h with
  | num hv => exact Numeral.plain_ne_nil _
  | var hname =>
    obtain ⟨c, cs, hcs, -⟩ := hname.first
    simp [hcs]

/-- Numbers and variables are told apart by how they are written. -/
theorem Literal.unique (hnumbers : PlainNumbers numbers) {w : List Char}
    (h : Literal numbers e w) (h' : Literal numbers e' w) : e = e' := by
  -- a number does not begin as a name does
  have hne : ∀ {v : K} {name : String}, v ∈ numbers → IsIdentifier name →
      (Decimal.text v).toList ≠ name.toList := by
    intro v name hv hname heq
    obtain ⟨c, cs, hcs, hdigit⟩ := hname.first
    have hname := hname.nameChars c (by simp [hcs])
    rcases hnumbers.digits v hv c (by simp [heq, hcs]) with hc | rfl
    · rw [hc] at hdigit
      cases hdigit
    · exact absurd hname (by decide)
  generalize hw : w = w' at h'
  cases h with
  | num hv =>
    cases h' with
    | num hv' => rw [hnumbers.injOn hv hv' (String.toList_inj.1 hw)]
    | var hname' => exact (hne hv hname' hw).elim
  | var hname =>
    cases h' with
    | num hv' => exact (hne hv' hname hw.symm).elim
    | var hname' => rw [String.toList_inj.1 hw]

theorem Grouped.word (hnumbers : PlainNumbers numbers) {w : List Char} {items : List (Expr K)}
    (h : Grouped numbers e w items) : ∀ c ∈ w, isWordChar c = true := by
  cases h with
  | call hb => exact Builtin.isWordChar_name hnumbers hb
  | tuple => simp
  | parens => simp

/-- What is written as a list is told apart by the word in front of it and the number of
elements. -/
theorem Grouped.unique (hnumbers : PlainNumbers numbers) {w : List Char} {items : List (Expr K)}
    (h : Grouped numbers e w items) (h' : Grouped numbers e' w items) : e = e' := by
  have hname : ∀ b : Builtin K, b.name.toList ≠ [] := by
    intro b
    cases b <;> simp [Builtin.name]
  generalize hw : w = w' at h'
  generalize hitems : items = items' at h'
  cases h with
  | call hb =>
    cases h' with
    | call hb' => rw [Builtin.eq_of_name_eq hnumbers hb hb' (String.toList_inj.1 hw), hitems]
    | tuple => exact (hname _ hw).elim
    | parens => exact (hname _ hw).elim
  | tuple hlength =>
    cases h' with
    | call => exact (hname _ hw.symm).elim
    | tuple => rw [hitems]
    | parens =>
      rw [hitems] at hlength
      exact (hlength rfl).elim
  | parens =>
    cases h' with
    | call => exact (hname _ hw.symm).elim
    | tuple hlength =>
      rw [← hitems] at hlength
      exact (hlength rfl).elim
    | parens => exact (List.cons.inj hitems).1

/-- The characters that formulas begin with. -/
def Opens (c : Char) : Prop := isWordChar c = true ∨ c = '(' ∨ c = '['

theorem Atom.exists_cons (hnumbers : PlainNumbers numbers) {w : List Char}
    (h : Atom numbers e w) : ∃ c cs, w = c :: cs ∧ Opens c := by
  cases h with
  | literal h =>
    cases w with
    | nil => exact (h.ne_nil rfl).elim
    | cons c cs => exact ⟨c, cs, rfl, .inl (h.word hnumbers c (List.mem_cons_self ..))⟩
  | @grouped _ w _ h =>
    cases w with
    | nil => exact ⟨_, _, rfl, .inr (.inl rfl)⟩
    | cons c cs => exact ⟨c, _, rfl, .inl (h.word hnumbers c (List.mem_cons_self ..))⟩
  | interval => exact ⟨_, _, rfl, .inr (.inr rfl)⟩

/-- Neither atoms nor powers begin with a minus sign. -/
theorem Legible.ne_operand_power (hnumbers : PlainNumbers numbers) (h : e.Legible numbers)
    (t u : List Char) : '-' :: u ≠ e.operand .power ++ t := by
  have hatom : ∀ {e : Expr K} {t : List Char}, e.Legible numbers →
      '-' :: u ≠ e.operand .atom ++ t := by
    intro e t he heq
    obtain ⟨c, cs, hcs, hc⟩ := (he.atom hnumbers).exists_cons hnumbers
    rw [hcs] at heq
    obtain ⟨rfl, -⟩ := List.cons.inj heq
    rcases hc with hc | hc | hc
    all_goals exact absurd hc (by decide)
  rcases h.operand_power with hoperand | ⟨a, b, -, ha, -, hoperand⟩
  · rw [hoperand]
    exact hatom h
  · rw [hoperand, List.append_assoc]
    exact hatom ha

/-- A formula begins like an atom or with a minus sign. -/
theorem Legible.exists_cons (hnumbers : PlainNumbers numbers) (h : e.Legible numbers) :
    ∃ c cs, e.chars = c :: cs ∧ (Opens c ∨ c = '-') := by
  -- the left operand begins like this if its formula does
  have hoperand : ∀ {a : Expr K} (least : Strength) (tail : List Char),
      (∃ c cs, a.chars = c :: cs ∧ (Opens c ∨ c = '-')) →
        ∃ c cs, a.operand least ++ tail = c :: cs ∧ (Opens c ∨ c = '-') := by
    intro a least tail ⟨c, cs, hcs, hc⟩
    by_cases hlt : a.strength.rank < least.rank
    · rw [operand_of_lt hlt]
      exact ⟨_, _, rfl, .inl (.inr (.inl rfl))⟩
    · rw [operand_of_le (not_lt.1 hlt), hcs]
      exact ⟨_, _, rfl, hc⟩
  have hatom : ∀ {e : Expr K}, e.strength = .atom → e.Legible numbers →
      ∃ c cs, e.chars = c :: cs ∧ (Opens c ∨ c = '-') := by
    intro e hstrength h
    have hchars := h.atom hnumbers
    rw [operand_of_atom hstrength] at hchars
    obtain ⟨c, cs, hcs, hc⟩ := hchars.exists_cons hnumbers
    exact ⟨c, cs, hcs, .inl hc⟩
  induction h with
  | num hv => exact hatom (if_neg (hnumbers.not_neg _ hv)) (.num hv)
  | var hname => exact hatom rfl (.var hname)
  | vec hlength hitems => exact hatom rfl (.vec hlength hitems)
  | interval hlo hhi => exact hatom rfl (.interval hlo hhi)
  | neg =>
    rw [chars_neg]
    exact ⟨_, _, rfl, .inr rfl⟩
  | binary _ _ ih =>
    rw [chars_binary]
    exact hoperand _ _ ih
  | power _ _ ih =>
    rw [chars_power]
    exact hoperand _ _ ih
  | apply hb hargs => exact hatom rfl (.apply hb hargs)

end Expr

/-! ## Reading operands -/

/-- An operand of a strength with at most `n` characters can be told from what follows: if two texts
begin with operands that what follows does not continue, and the texts are the same, so are the
operands. -/
def Reads (numbers : Set K) (n : ℕ) (least : Strength) : Prop :=
  ∀ ⦃a b : Expr K⦄ ⦃r s : List Char⦄, a.Legible numbers → b.Legible numbers →
    Ends least r → Ends least s → (a.operand least).length ≤ n →
      a.operand least ++ r = b.operand least ++ s → a = b ∧ r = s

namespace Reads

variable {numbers : Set K} {n : ℕ} {e e' : Expr K}

/-- A formula can be told from what follows the comma or the closing sign behind it. -/
theorem closed (ih : ∀ k < n, Reads numbers k .sum) {c c' : Char} {t t' : List Char}
    (he : e.Legible numbers) (he' : e'.Legible numbers) (hlength : e.chars.length < n)
    (hc : c = ')' ∨ c = ']' ∨ c = ',') (hc' : c' = ')' ∨ c' = ']' ∨ c' = ',')
    (h : e.chars ++ c :: t = e'.chars ++ c' :: t') : e = e' ∧ c = c' ∧ t = t' := by
  rw [← Expr.operand_sum, ← Expr.operand_sum] at h
  rw [← Expr.operand_sum] at hlength
  obtain ⟨rfl, hrest⟩ := ih _ hlength he he' (.closer hc) (.closer hc') (le_refl _) h
  exact ⟨rfl, List.cons.inj hrest⟩

/-- With a comma in front of each, formulas are read one after the other. -/
theorem further (ih : ∀ k < n, Reads numbers k .sum) {es es' : List (Expr K)} {r s : List Char}
    (hes : ∀ e ∈ es, e.Legible numbers) (hes' : ∀ e ∈ es', e.Legible numbers)
    (hlength : (Expr.further es).length < n + 2)
    (h : Expr.further es ++ ')' :: r = Expr.further es' ++ ')' :: s) : es = es' ∧ r = s := by
  -- behind a formula there is a comma or the end
  have hcons : ∀ (es : List (Expr K)) (r : List Char), ∃ c t,
      Expr.further es ++ ')' :: r = c :: t ∧ (c = ')' ∨ c = ']' ∨ c = ',') := by
    intro es r
    cases es with
    | nil => exact ⟨_, _, rfl, .inl rfl⟩
    | cons e es => exact ⟨_, _, rfl, .inr (.inr rfl)⟩
  induction es generalizing es' with
  | nil =>
    cases es' with
    | nil => exact ⟨rfl, (List.cons.inj h).2⟩
    | cons => cases h
  | cons e es ihes =>
    cases es' with
    | nil => cases h
    | cons e' es' =>
      obtain ⟨he, hmore⟩ := List.forall_mem_cons.1 hes
      obtain ⟨he', hmore'⟩ := List.forall_mem_cons.1 hes'
      rw [Expr.further_cons, Expr.further_cons, Expr.charsList_cons, Expr.charsList_cons] at h
      rw [Expr.further_cons, Expr.charsList_cons] at hlength
      simp only [List.cons_append, List.append_assoc, List.cons.injEq, true_and,
        List.length_cons, List.length_append] at h hlength
      obtain ⟨c, t, hct, hc⟩ := hcons es r
      obtain ⟨c', t', hct', hc'⟩ := hcons es' s
      rw [hct, hct'] at h
      obtain ⟨rfl, rfl, rfl⟩ := closed ih he he' (by omega) hc hc' h
      obtain ⟨rfl, rfl⟩ := ihes hmore hmore' (by omega) (hct.trans hct'.symm)
      exact ⟨rfl, rfl⟩

/-- Lists of formulas can be told from what follows the parenthesis behind them. -/
theorem list (hnumbers : PlainNumbers numbers) (ih : ∀ k < n, Reads numbers k .sum)
    {items items' : List (Expr K)} {r s : List Char} (hitems : ∀ e ∈ items, e.Legible numbers)
    (hitems' : ∀ e ∈ items', e.Legible numbers) (hlength : (Expr.charsList items).length < n)
    (h : Expr.charsList items ++ ')' :: r = Expr.charsList items' ++ ')' :: s) :
    items = items' ∧ r = s := by
  -- a list that is not empty does not begin with the parenthesis
  have hopens : ∀ {e : Expr K} {es : List (Expr K)} {t t' : List Char}, e.Legible numbers →
      ')' :: t' ≠ Expr.charsList (e :: es) ++ t := by
    intro e es t t' he heq
    obtain ⟨c, cs, hcs, hc⟩ := he.exists_cons hnumbers
    rw [Expr.charsList_cons, hcs] at heq
    obtain ⟨rfl, -⟩ := List.cons.inj heq
    rcases hc with (hc | hc | hc) | hc
    all_goals exact absurd hc (by decide)
  cases items with
  | nil =>
    cases items' with
    | nil => exact ⟨rfl, (List.cons.inj h).2⟩
    | cons e' es' => exact (hopens (hitems' e' (List.mem_cons_self ..)) h).elim
  | cons e es =>
    cases items' with
    | nil => exact (hopens (hitems e (List.mem_cons_self ..)) h.symm).elim
    | cons e' es' =>
      refine further ih hitems hitems' ?_ ?_
      · rw [Expr.further_cons, List.length_cons, List.length_cons]
        omega
      · rw [Expr.further_cons, Expr.further_cons]
        exact congrArg (',' :: ' ' :: ·) h

/-- Atoms can be read if shorter formulas can. -/
theorem atom (hnumbers : PlainNumbers numbers) (ih : ∀ k < n, Reads numbers k .sum) :
    Reads numbers n .atom := by
  intro a b r s ha hb hr hs hlength h
  have hatom := ha.atom hnumbers
  have hatom' := hb.atom hnumbers
  generalize a.operand .atom = t at hatom h hlength
  generalize b.operand .atom = t' at hatom' h
  cases hatom with
  | literal hw =>
    have hword := hw.word hnumbers
    cases hatom' with
    | literal hw' =>
      obtain ⟨rfl, rfl⟩ := eq_of_word_append hword (hw'.word hnumbers)
        (fun c rest hc => (hr.head hc).1) (fun c rest hc => (hs.head hc).1) h
      exact ⟨hw.unique hnumbers hw', rfl⟩
    | grouped hw' =>
      rw [List.append_assoc, List.cons_append] at h
      exact (hr.ne_append _ hword (hw'.word hnumbers) (.inl rfl) h).elim
    | interval => exact (hr.ne_append [] hword (by simp) (.inr rfl) h).elim
  | @grouped _ w items hw hitems =>
    have hword := hw.word hnumbers
    simp only [List.length_append, List.length_cons] at hlength
    simp only [List.append_assoc, List.cons_append, List.nil_append] at h
    cases hatom' with
    | literal hw' => exact (hs.ne_append _ (hw'.word hnumbers) hword (.inl rfl) h.symm).elim
    | grouped hw' hitems' =>
      simp only [List.append_assoc, List.cons_append, List.nil_append] at h
      have hstops : ∀ (u : List Char) c rest, '(' :: u = c :: rest → isWordChar c = false := by
        rintro u c rest ⟨⟩
        decide
      obtain ⟨rfl, hlist⟩ :=
        eq_of_word_append hword (hw'.word hnumbers) (hstops _) (hstops _) h
      obtain ⟨rfl, rfl⟩ := list hnumbers ih hitems hitems' (by omega) (List.cons.inj hlist).2
      exact ⟨hw.unique hnumbers hw', rfl⟩
    | interval => exact (ne_bracket hword h).elim
  | interval hlo hhi =>
    cases hatom' with
    | literal hw' =>
      exact (hs.ne_append [] (hw'.word hnumbers) (by simp) (.inr rfl) h.symm).elim
    | grouped hw' =>
      rw [List.append_assoc] at h
      exact (ne_bracket (hw'.word hnumbers) h.symm).elim
    | interval hlo' hhi' =>
      simp only [List.length_append, List.length_cons] at hlength
      simp only [List.cons_append, List.append_assoc, List.cons.injEq, true_and] at h
      obtain ⟨rfl, -, hrest⟩ :=
        closed ih hlo hlo' (by omega) (.inr (.inr rfl)) (.inr (.inr rfl)) h
      obtain ⟨rfl, -, rfl⟩ :=
        closed ih hhi hhi' (by omega) (.inr (.inl rfl)) (.inr (.inl rfl)) (List.cons.inj hrest).2
      exact ⟨rfl, rfl⟩

/-- A power is read from its base on. -/
theorem power (ih : ∀ k < n, Reads numbers k .power) (hatom : Reads numbers n .atom) :
    Reads numbers n .power := by
  have hatomic : ∀ {r : List Char}, Ends .power r → Ends .atom r := fun hr => hr.mono (by decide)
  intro a b r s ha hb hr hs hlength h
  rcases ha.operand_power with hoperand | ⟨x, y, rfl, hx, hy, hoperand⟩
  · rw [hoperand] at h hlength
    rcases hb.operand_power with hoperand' | ⟨x', y', rfl, hx', hy', hoperand'⟩
    · rw [hoperand'] at h
      exact hatom ha hb (hatomic hr) (hatomic hs) hlength h
    · rw [hoperand', List.append_assoc] at h
      obtain ⟨-, rfl⟩ := hatom ha hx' (hatomic hr) .caret hlength h
      cases hr.eq_atom
  · rw [hoperand, List.append_assoc] at h
    rw [hoperand, List.length_append, List.length_cons] at hlength
    rcases hb.operand_power with hoperand' | ⟨x', y', rfl, hx', hy', hoperand'⟩
    · rw [hoperand'] at h
      obtain ⟨-, rfl⟩ := hatom hx hb .caret (hatomic hs) (by omega) h
      cases hs.eq_atom
    · rw [hoperand', List.append_assoc] at h
      obtain ⟨rfl, hrest⟩ := hatom hx hx' .caret .caret (by omega) h
      obtain ⟨rfl, rfl⟩ := ih _ (by omega) hy hy' hr hs (le_refl _) (List.cons.inj hrest).2
      exact ⟨rfl, rfl⟩

/-- A negation is told from a power by its sign. -/
theorem sign (hnumbers : PlainNumbers numbers) (ih : ∀ k < n, Reads numbers k .power)
    (hpower : Reads numbers n .power) : Reads numbers n .sign := by
  have hstronger : ∀ {r : List Char}, Ends .sign r → Ends .power r :=
    fun hr => hr.mono (by decide)
  intro a b r s ha hb hr hs hlength h
  rcases ha.operand_sign hnumbers with hoperand | ⟨x, rfl, hx, hoperand⟩
  · rw [hoperand] at h hlength
    rcases hb.operand_sign hnumbers with hoperand' | ⟨x', rfl, hx', hoperand'⟩
    · rw [hoperand'] at h
      exact hpower ha hb (hstronger hr) (hstronger hs) hlength h
    · rw [hoperand'] at h
      exact (ha.ne_operand_power hnumbers _ _ h.symm).elim
  · rw [hoperand] at h
    rw [hoperand, List.length_cons] at hlength
    rcases hb.operand_sign hnumbers with hoperand' | ⟨x', rfl, hx', hoperand'⟩
    · rw [hoperand'] at h
      exact (hb.ne_operand_power hnumbers _ _ h).elim
    · rw [hoperand'] at h
      obtain ⟨rfl, rfl⟩ := ih _ (by omega) hx hx' (hstronger hr) (hstronger hs) (le_refl _)
        (List.cons.inj h).2
      exact ⟨rfl, rfl⟩

/-- The next operator binds more loosely than the operand in front of it. -/
theorem ends_links {least next : Strength} (hlt : least.rank < next.rank)
    {ls : List (BinOp × Expr K)} {r : List Char}
    (hls : ∀ l ∈ ls, l.1.strength = least ∧ l.2.Legible numbers) (hr : Ends least r) :
    Ends next (Expr.links ls ++ r) := by
  cases ls with
  | nil => exact hr.mono hlt.le
  | cons l ls =>
    rw [Expr.links_cons, List.append_assoc]
    refine .operator l.1 ?_
    rw [(hls l (List.mem_cons_self ..)).1]
    exact hlt

/-- With an operator in front of each, operands are read one after the other. -/
theorem links {least : Strength} (ih : ∀ k < n, ∀ least, Reads numbers k least)
    {ls ls' : List (BinOp × Expr K)} {r s : List Char}
    (hls : ∀ l ∈ ls, l.1.strength = least ∧ l.2.Legible numbers)
    (hls' : ∀ l ∈ ls', l.1.strength = least ∧ l.2.Legible numbers) (hr : Ends least r)
    (hs : Ends least s) (hlength : (Expr.links ls).length ≤ n)
    (h : Expr.links ls ++ r = Expr.links ls' ++ s) : ls = ls' ∧ r = s := by
  -- no operator of the chain is missing at the end
  have hnil : ∀ {l : BinOp × Expr K} {t t' : List Char}, l.1.strength = least → Ends least t →
      t ≠ l.1.symbol.toList ++ t' := by
    rintro l t t' hl ht rfl
    have hlt := ht.not_operator
    rw [hl] at hlt
    exact lt_irrefl _ hlt
  have hright : ∀ {op : BinOp}, op.strength = least → least.rank < op.rightStrength.rank := by
    rintro op rfl
    cases op <;> decide
  induction ls generalizing ls' with
  | nil =>
    cases ls' with
    | nil => exact ⟨rfl, h⟩
    | cons l' ls' =>
      rw [Expr.links_cons, List.append_assoc] at h
      exact (hnil (hls' l' (List.mem_cons_self ..)).1 hr h).elim
  | cons l ls ihls =>
    obtain ⟨⟨hop, hl⟩, hmore⟩ := List.forall_mem_cons.1 hls
    rw [Expr.links_cons, List.append_assoc, List.append_assoc] at h
    rw [Expr.links_cons, List.length_append, List.length_append] at hlength
    cases ls' with
    | nil => exact (hnil hop hs h.symm).elim
    | cons l' ls' =>
      obtain ⟨⟨hop', hl'⟩, hmore'⟩ := List.forall_mem_cons.1 hls'
      rw [Expr.links_cons, List.append_assoc, List.append_assoc] at h
      obtain ⟨op, b⟩ := l
      obtain ⟨op', b'⟩ := l'
      obtain ⟨rfl, hoperand⟩ := BinOp.eq_of_symbol_append h
      obtain ⟨cs, hsymbol⟩ := op.exists_symbol
      have hshorter : (b.operand op.rightStrength).length < n := by
        rw [hsymbol] at hlength
        simp only [List.length_cons] at hlength
        omega
      obtain ⟨rfl, hrest⟩ := ih _ hshorter _ hl hl' (ends_links (hright hop) hmore hr)
        (ends_links (hright hop) hmore' hs) (le_refl _) hoperand
      obtain ⟨rfl, rfl⟩ := ihls hmore hmore' (by omega) hrest
      exact ⟨rfl, rfl⟩

/-- Sums are read product by product, and products factor by factor. -/
theorem chain {least next : Strength} (hnumbers : PlainNumbers numbers)
    (hleast : least.rank < Strength.sign.rank) (hnext : next.rank = least.rank + 1)
    (ih : ∀ k < n, ∀ least, Reads numbers k least) (hread : Reads numbers n next) :
    Reads numbers n least := by
  have hlt : least.rank < next.rank := by omega
  intro a b r s ha hb hr hs hlength h
  obtain ⟨head, ls, hhead, hls, rfl, hoperand⟩ := ha.exists_chain hnumbers hleast hnext
  obtain ⟨head', ls', hhead', hls', rfl, hoperand'⟩ := hb.exists_chain hnumbers hleast hnext
  rw [hoperand, hoperand', List.append_assoc, List.append_assoc] at h
  rw [hoperand, List.length_append] at hlength
  obtain ⟨rfl, hrest⟩ := hread hhead hhead' (ends_links hlt hls hr) (ends_links hlt hls' hs)
    (by omega) h
  obtain ⟨rfl, rfl⟩ := links ih hls hls' hr hs (by omega) hrest
  exact ⟨rfl, rfl⟩

/-- Operands of all strengths can be told from what follows, one strength after the other. -/
theorem all (hnumbers : PlainNumbers numbers) (n : ℕ) (least : Strength) :
    Reads numbers n least := by
  induction n using Nat.strong_induction_on generalizing least with
  | _ n ih =>
    have hatom : Reads numbers n .atom := atom hnumbers fun k hk => ih k hk .sum
    have hpower : Reads numbers n .power := power (fun k hk => ih k hk .power) hatom
    have hsign : Reads numbers n .sign := sign hnumbers (fun k hk => ih k hk .power) hpower
    have hproduct : Reads numbers n .product := chain hnumbers (by decide) rfl ih hsign
    have hsum : Reads numbers n .sum := chain hnumbers (by decide) rfl ih hproduct
    cases least <;> assumption

end Reads

/-- Formulas are unambiguous: over numbers that are written with digits and points only and no two
of them alike, expressions with proper names, built-in functions and vectors of any length but one
that are written alike are the same tree. -/
theorem Expr.eq_of_text_eq {numbers : Set K} (hnumbers : PlainNumbers numbers) {a b : Expr K}
    (ha : a.Legible numbers) (hb : b.Legible numbers) (h : a.text = b.text) : a = b := by
  have hchars : a.operand .sum ++ [] = b.operand .sum ++ [] := by
    rw [operand_sum, operand_sum, chars, chars, h]
  exact (Reads.all hnumbers _ .sum ha hb .nil .nil (le_refl _) hchars).1

/-! ### Differences and powers -/

/-- Two numbers, one of which is not whole. -/
def halfAndTwo : Set Float := {0.5, 2}

theorem text_half : Decimal.text (0.5 : Float) = "0.5" := by
  decide +kernel

theorem text_two : Decimal.text (2 : Float) = "2" := by
  decide +kernel

theorem plainNumbers_halfAndTwo : PlainNumbers halfAndTwo where
  not_neg := by
    rintro v (rfl | rfl)
    · decide +kernel
    · decide +kernel
  digits := by
    rintro v (rfl | rfl)
    · simp [text_half, Char.isDigit]
    · simp [text_two, Char.isDigit]
  injOn := by
    have hne : Decimal.text (0.5 : Float) ≠ Decimal.text (2 : Float) := by
      simp [text_half, text_two]
    rintro v (rfl | rfl) w (rfl | rfl) h
    · rfl
    · exact (hne h).elim
    · exact (hne h.symm).elim
    · rfl

/-- What is left after two differences, to a power that is a logarithm. -/
def nestedDifference : Expr Float :=
  .power (.binary .sub (.var "x") (.binary .sub (.num 2) (.neg (.var "y"))))
    (.apply (.builtin (.log 0.5)) [.vec [], .interval (.num 0.5) (.var "x")])

theorem isIdentifier_x : IsIdentifier "x" := ⟨by simp [isNameChar], 'x', [], rfl, rfl⟩

theorem isIdentifier_y : IsIdentifier "y" := ⟨by simp [isNameChar], 'y', [], rfl, rfl⟩

theorem legible_nestedDifference : nestedDifference.Legible halfAndTwo := by
  have htwo : (Expr.num (2 : Float)).Legible halfAndTwo := .num (.inr rfl)
  have hhalf : (Expr.num (0.5 : Float)).Legible halfAndTwo := .num (.inl rfl)
  refine .power (.binary (.var isIdentifier_x) (.binary htwo (.neg (.var isIdentifier_y))))
    (.apply ?_ ?_)
  · rintro p ⟨⟩
    exact .inl rfl
  · simp only [List.forall_mem_cons]
    exact ⟨.vec (by simp) (by simp), .interval hhalf (.var isIdentifier_x), by simp⟩

/-- The tree can be read off the text. -/
theorem Expr.eq_of_text_eq_nestedDifference :
    nestedDifference.text = "(x - (2 - -y))^log_0.5((), [0.5, x])" ∧
      nestedDifference = .power (.var "x" - (.num 2 - -.var "y"))
        (.apply (.builtin (.log 0.5)) [.vec [], .interval (.num 0.5) (.var "x")]) := by
  have htext : nestedDifference.text = "(x - (2 - -y))^log_0.5((), [0.5, x])" := by
    decide +kernel
  refine ⟨htext, eq_of_text_eq plainNumbers_halfAndTwo legible_nestedDifference ?_ ?_⟩
  · exact legible_nestedDifference
  · rw [htext]
    decide +kernel

end ZeroSet
