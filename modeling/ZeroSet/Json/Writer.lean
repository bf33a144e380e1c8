import ZeroSet.Json.Tree

/-!
# Writing JSON

Trees are written over several lines: each item of an array and each member of an object
stands on its own line, two spaces further in than what holds it, and an empty array or
object is written on one line.  Strings keep every character except quotes,
backslashes and control characters, which are escaped.
-/

namespace ZeroSet.Json

/-- A number by its digits, the sign of an exponent always shown. -/
def Number.text (x : Number) : String :=
  Numeral.sign x.negative ++ String.ofList x.whole ++
    (if x.fraction.isEmpty then "" else "." ++ String.ofList x.fraction) ++
    match x.exponent with
    | none => ""
    | some e => (if e < 0 then "e-" else "e+") ++ Nat.repr e.natAbs

/-- A hexadecimal digit in lower case. -/
def hexChar (n : Nat) : Char := Nat.digitChar (n % 16)

/-- A code point as an escape of four digits. -/
def unicodeEscape (c : Nat) : String :=
  "\\u" ++ String.ofList
    [hexChar (c / 4096), hexChar (c / 256), hexChar (c / 16), hexChar c]

/-- A code point of a string as it is written. -/
def escape (c : Nat) : String :=
  match c with
  | 0x22 => "\\\""
  | 0x5C => "\\\\"
  | 0x08 => "\\b"
  | 0x09 => "\\t"
  | 0x0A => "\\n"
  | 0x0C => "\\f"
  | 0x0D => "\\r"
  | _ =>
    if c < 0x20 || Text.isHighSurrogate c || Text.isLowSurrogate c then unicodeEscape c
    else String.singleton (Char.ofNat c)

/-- A string in quotes. -/
def Text.quoted (t : Text) : String := "\"" ++ String.join (t.map escape) ++ "\""

/-- The end of a line and the margin of the next one. -/
def newline (depth : Nat) : String := "\n" ++ String.ofList (List.replicate (2 * depth) ' ')

mutual

/-- The text of a tree that is held by `depth` arrays and objects. -/
def renderAt (depth : Nat) : Json → String
  | .null => "null"
  | .bool b => if b then "true" else "false"
  | .number n => n.text
  | .string t => Text.quoted t
  | .array [] => "[]"
  | .array (item :: items) =>
    "[" ++ newline (depth + 1) ++ renderAt (depth + 1) item ++ renderItems (depth + 1) items ++
      newline depth ++ "]"
  | .object [] => "\x7b\x7d"
  | .object ((key, v) :: members) =>
    "\x7b" ++ newline (depth + 1) ++ Text.quoted key ++ ": " ++ renderAt (depth + 1) v ++
      renderMembers (depth + 1) members ++ newline depth ++ "\x7d"

/-- The further items of an array. -/
def renderItems (depth : Nat) : List Json → String
  | [] => ""
  | item :: items => "," ++ newline depth ++ renderAt depth item ++ renderItems depth items

/-- The further members of an object. -/
def renderMembers (depth : Nat) : List (Text × Json) → String
  | [] => ""
  | (key, v) :: members =>
    "," ++ newline depth ++ Text.quoted key ++ ": " ++ renderAt depth v ++
      renderMembers depth members

end

/-- The text of a tree. -/
def render (j : Json) : String := renderAt 0 j

end ZeroSet.Json
