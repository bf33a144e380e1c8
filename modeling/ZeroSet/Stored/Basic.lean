import ZeroSet.Json.Reader
import ZeroSet.Json.Writer

/-!
# Stored forms

How values are kept as JSON.  A structure is an object with a member for each field, and is
also read from an array of its fields in order; a choice is an object with one member, the
name of the alternative with what belongs to it, or the name alone if nothing belongs to
it.  Members nobody knows are skipped.

Decoding counts the arrays and objects it goes into and gives up beyond a depth, so a
deeply nested text is refused; what is skipped may be nested to any depth.
-/

namespace ZeroSet

/-- Values with a stored form. -/
class Stored (α : Type) where
  /-- The stored form of a value. -/
  encode : α → Json
  /-- The value of a stored form that goes at most `depth` arrays and objects deep. -/
  decode : (depth : Nat) → Json → Option α

namespace Stored

/-- The deepest nesting that is read. -/
def maxDepth : Nat := 127

/-- The text of a value. -/
def write {α : Type} [Stored α] (a : α) : String := (encode a).render

/-- The value that a text stands for. -/
def read? {α : Type} [Stored α] (text : String) : Option α :=
  (Json.read? text).bind (decode maxDepth)

end Stored

namespace Json

/-! ## Reading parts of a tree -/

/-- The string of a string. -/
def asString? : Json → Option String
  | string t => t.toString?
  | _ => none

/-- The scalar of a number. -/
def asScalar? {K : Type} [Scalar K] [Decimal K] : Json → Option K
  | number n => n.value?
  | _ => none

/-- The natural number up to `limit` that a number is written as. -/
def asNatural? (limit : Nat) : Json → Option Nat
  | number n => n.natural? limit
  | _ => none

/-- The items of an array. -/
def asItems? : Json → Option (List Json)
  | array items => some items
  | _ => none

/-- What the members of an object hold for a name: at most one value. -/
def member? (name : String) (members : List (String × Json)) : Option (Option Json) :=
  match members.filter (·.1 = name) with
  | [] => some none
  | [m] => some (some m.2)
  | _ => none

/-- The fields of a structure in order, those that are left out being absent. -/
def partialFields? (names : List String) : Json → Option (List (Option Json))
  | array items =>
    if items.length ≤ names.length then
      some (items.map some ++ List.replicate (names.length - items.length) none)
    else none
  | object members => do
    let members ← members.mapM fun m => m.1.toString?.map (·, m.2)
    names.mapM fun name => member? name members
  | _ => none

/-- The fields of a structure in order, none of them left out. -/
def fields? (names : List String) (j : Json) : Option (List Json) :=
  (j.partialFields? names).bind fun fields => fields.mapM id

/-- The field of a structure with one field. -/
def field? (name : String) (j : Json) : Option Json :=
  match j.fields? [name] with
  | some [a] => some a
  | _ => none

/-- The fields of a structure with two fields. -/
def twoFields? (first second : String) (j : Json) : Option (Json × Json) :=
  match j.fields? [first, second] with
  | some [a, b] => some (a, b)
  | _ => none

/-- The name of an alternative and what belongs to it. -/
def alternative? : Json → Option (String × Json)
  | object [(tag, payload)] => tag.toString?.map (·, payload)
  | _ => none

/-- The name of an alternative to which nothing belongs: the name alone or, where another
array or object may be gone into, with `null`. -/
def bareName? (depth : Nat) (j : Json) : Option String :=
  match j with
  | string t => t.toString?
  | j =>
    match depth, j.alternative? with
    | _ + 1, some (tag, null) => some tag
    | _, _ => none

/-- An alternative with what belongs to it. -/
def choice (tag : String) (payload : Json) : Json := record [(tag, payload)]

end Json

end ZeroSet
