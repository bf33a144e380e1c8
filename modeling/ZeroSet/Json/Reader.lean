import ZeroSet.Json.Token

/-!
# Reading JSON

A pushdown reader over tokens.  The stack holds the arrays and objects that are still
open, innermost first, and the phase says what may come next.  Reading is a fold over
the tokens, so it takes texts nested to any depth.
-/

namespace ZeroSet.Json

/-- An array or object that is still open, with what it holds so far in reverse. -/
inductive Frame where
  /-- An array. -/
  | array (items : List Json)
  /-- An object between two members. -/
  | object (members : List (Text × Json))
  /-- An object whose next member has its key but no value yet. -/
  | member (members : List (Text × Json)) (key : Text)

/-- What a reader waits for. -/
inductive Phase where
  /-- A value. -/
  | value (stack : List Frame)
  /-- The first item of an array, or its end. -/
  | firstItem (stack : List Frame)
  /-- The first key of an object, or its end. -/
  | firstKey (stack : List Frame)
  /-- A key. -/
  | key (stack : List Frame)
  /-- The colon after a key. -/
  | colon (key : Text) (stack : List Frame)
  /-- A comma, or the end of the innermost array or object. -/
  | separator (stack : List Frame)
  /-- Nothing more: the value is complete. -/
  | done (value : Json)

namespace Phase

/-- The phase after a complete value. -/
def place (v : Json) : List Frame → Option Phase
  | [] => some (.done v)
  | .array items :: stack => some (.separator (.array (v :: items) :: stack))
  | .member members k :: stack => some (.separator (.object ((k, v) :: members) :: stack))
  | .object _ :: _ => none

/-- The phase after a token where a value may start. -/
def startValue (stack : List Frame) : Token → Option Phase
  | .null => place .null stack
  | .bool b => place (.bool b) stack
  | .number n => place (.number n) stack
  | .text t => place (.string t) stack
  | .openArray => some (.firstItem (.array [] :: stack))
  | .openObject => some (.firstKey (.object [] :: stack))
  | _ => none

/-- The phase after one more token, if the token may stand there. -/
def step : Phase → Token → Option Phase
  | .value stack, t => startValue stack t
  | .firstItem (.array [] :: stack), .closeArray => place (.array []) stack
  | .firstItem stack, t => startValue stack t
  | .firstKey (.object [] :: stack), .closeObject => place (.object []) stack
  | .firstKey stack, .text k => some (.colon k stack)
  | .key stack, .text k => some (.colon k stack)
  | .colon k (.object members :: stack), .colon => some (.value (.member members k :: stack))
  | .separator (.array items :: stack), .comma => some (.value (.array items :: stack))
  | .separator (.array items :: stack), .closeArray => place (.array items.reverse) stack
  | .separator (.object members :: stack), .comma => some (.key (.object members :: stack))
  | .separator (.object members :: stack), .closeObject =>
    place (.object members.reverse) stack
  | _, _ => none

end Phase

/-- The tree that a list of tokens spells. -/
def ofTokens? (ts : List Token) : Option Json :=
  match ts.foldlM Phase.step (.value []) with
  | some (.done v) => some v
  | _ => none

/-- The tree that a text spells: one value, with nothing but blanks around it. -/
def read? (text : String) : Option Json := (tokens text).bind ofTokens?

end ZeroSet.Json
