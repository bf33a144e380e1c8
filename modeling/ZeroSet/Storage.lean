import ZeroSet.Stored.Expr
import ZeroSet.Stored.Scene
import ZeroSet.Expr.Names
import ZeroSet.Expr.Text

/-!
# Files

Expressions are kept in files with the extension `json`, which is checked before a file is
opened; settings are read from files of any name.  Reading files is left to a `Files`
value, so everything here is a function of their contents.

* `extension?` — the part of a file name after its last dot.
* `Files.load`, `save` — expressions in files.
* `summary` — a formula, its variables and its size.
-/

namespace ZeroSet

/-- What can go wrong with a file. -/
inductive StorageError where
  /-- The file cannot be read or written. -/
  | unavailable (cause : String)
  /-- The name does not end in the right extension. -/
  | invalidFormat (path : String)
  /-- The content is not the stored form of what was asked for. -/
  | malformed

/-- What is wrong with a file, in words. -/
def StorageError.message : StorageError → String
  | .unavailable cause => "IO error: " ++ cause
  | .invalidFormat path => "Invalid file format: " ++ path ++ ": expected a .json file"
  | .malformed => "Serialization error: the content does not have the expected form"

/-- Contents of files by their paths, or the reason why there is none. -/
structure Files where
  /-- The content of a file. -/
  read : String → Except String String

/-- The last component of a path, unless it leads upwards. -/
def fileName? (path : String) : Option String :=
  match ((path.splitOn "/").filter fun part => part ≠ "" ∧ part ≠ ".").getLast? with
  | some name => if name = ".." then none else some name
  | none => none

/-- The part of a file name after its last dot; a dot in front does not count. -/
def extension? (path : String) : Option String := do
  let name ← fileName? path
  let reversed := name.toList.reverse
  let tail := reversed.takeWhile (· ≠ '.')
  let stem := (reversed.dropWhile (· ≠ '.')).drop 1
  if stem.isEmpty then none else some (String.ofList tail.reverse)

/-- Requires the extension of stored expressions. -/
def checkExtension (path : String) : Except StorageError Unit :=
  if extension? path = some "json" then .ok () else .error (.invalidFormat path)

namespace Files

/-- The value stored in a file of any name. -/
def loadStored {α : Type} [Stored α] (files : Files) (path : String) : Except StorageError α :=
  match files.read path with
  | .error cause => .error (.unavailable cause)
  | .ok text =>
    match Stored.read? text with
    | some a => .ok a
    | none => .error .malformed

variable {K : Type} [Scalar K] [Decimal K]

/-- The expression stored in a file. -/
def load (files : Files) (path : String) : Except StorageError (Expr K) := do
  checkExtension path
  files.loadStored path

end Files

variable {K : Type} [Scalar K] [Decimal K]

/-- The content of a file that stores an expression under a path. -/
def save (path : String) (e : Expr K) : Except StorageError String := do
  checkExtension path
  return Stored.write e

/-- A formula, its variables and its size, a line for each. -/
def summary (e : Expr K) : String :=
  "Formula: " ++ e.text ++ "\nVariables: " ++ ", ".intercalate e.distinctNames ++
    "\nNode count: " ++ Nat.repr e.size

/-- The summary of an expression in a file. -/
def Files.summary (files : Files) (path : String) : Except StorageError String := do
  let e : Expr K ← files.load path
  return ZeroSet.summary e

end ZeroSet
