import ZeroSet.Command.Blank
import ZeroSet.Space
import ZeroSet.Decimal.Numeral

/-!
# Command lines

The grammar of the command line: `cast` with a function file, an origin, a direction and
perhaps a settings file, `show` with a file, and requests for help or for the version.  An
option takes its value from the next argument or after an equals sign; only coordinates may
begin with a hyphen there.  Anything else is a usage error.
-/

namespace ZeroSet

/-- What help is asked about. -/
inductive Topic where
  /-- The program as a whole. -/
  | program
  /-- The command that casts a ray. -/
  | cast
  /-- The command that shows a formula. -/
  | inspect
  /-- Asking for help. -/
  | help
deriving DecidableEq

/-- What the program is asked to do. -/
inductive Command (K : Type) where
  /-- Tell the version. -/
  | version
  /-- Tell how to use the program. -/
  | help (topic : Topic)
  /-- Cast a ray at the surface in a file. -/
  | cast (function : String) (origin direction : Vec3 K) (settings : Option String)
  /-- Show the formula in a file and its derivatives. -/
  | inspect (file : String)

/-! ## Values of options -/

/-- Three numbers with commas between them and white space around them. -/
def Vec3.parse? {K : Type} [Decimal K] (text : String) : Option (Vec3 K) := do
  let numbers ← (text.splitOn ",").mapM fun part => Numeral.parse? (trimBlank part)
  match numbers with
  | [x, y, z] => some (Vec3.map Decimal.nearest ⟨x, y, z⟩)
  | _ => none

/-- What stands in a text after the part before it, if the text begins with that part. -/
def after? (part text : String) : Option String :=
  if part.toList.isPrefixOf text.toList then
    some (String.ofList (text.toList.drop part.length))
  else none

/-- The options of the command that casts a ray. -/
inductive CastOption where
  /-- The file with the function. -/
  | function
  /-- Where the ray starts. -/
  | origin
  /-- Where the ray goes. -/
  | direction
  /-- The file with the settings. -/
  | settings
deriving DecidableEq

namespace CastOption

/-- All options. -/
def all : List CastOption := [function, origin, direction, settings]

/-- The long name of an option. -/
def long : CastOption → String
  | function => "--function"
  | origin => "--origin"
  | direction => "--direction"
  | settings => "--config"

/-- The short name of an option, if it has one. -/
def short? : CastOption → Option String
  | function => some "-f"
  | settings => some "-c"
  | _ => none

/-- Whether the next argument is a value even if it begins with a hyphen. -/
def takesHyphens : CastOption → Bool
  | origin | direction => true
  | _ => false

/-- The value attached to the long name of an option, if that is what an argument is. -/
def matchLong? (o : CastOption) (arg : String) : Option (Option String) :=
  if arg = o.long then some none else (after? (o.long ++ "=") arg).map some

/-- The value attached to the short name of an option, if that is what an argument is; an
equals sign before it does not belong to it. -/
def matchShort? (o : CastOption) (arg : String) : Option (Option String) := do
  let name ← o.short?
  if arg = name then some none
  else
    let attached ← after? name arg
    some (some ((after? "=" attached).getD attached))

/-- The option that an argument names, with the value attached to it. -/
def ofArgument? (arg : String) : Option (CastOption × Option String) :=
  all.findSome? fun o => ((o.matchLong? arg).or (o.matchShort? arg)).map (o, ·)

end CastOption

/-- The options read so far. -/
structure CastArguments (K : Type) where
  /-- The file with the function. -/
  function : Option String
  /-- Where the ray starts. -/
  origin : Option (Vec3 K)
  /-- Where the ray goes. -/
  direction : Option (Vec3 K)
  /-- The file with the settings. -/
  settings : Option String

namespace CastArguments

variable {K : Type}

/-- A value for an option that has none yet. -/
def fill {α : Type} (parse : String → Option α) (old : Option α) (value : String) :
    Option (Option α) :=
  match old with
  | some _ => none
  | none => (parse value).map some

/-- A path is not empty. -/
def parsePath? (text : String) : Option String := if text = "" then none else some text

/-- The options with one more value; no option may be given twice. -/
def set [Decimal K] (a : CastArguments K) (o : CastOption) (value : String) :
    Option (CastArguments K) :=
  match o with
  | .function => (fill parsePath? a.function value).map fun v => { a with function := v }
  | .origin => (fill Vec3.parse? a.origin value).map fun v => { a with origin := v }
  | .direction => (fill Vec3.parse? a.direction value).map fun v => { a with direction := v }
  | .settings => (fill parsePath? a.settings value).map fun v => { a with settings := v }

/-- The command, if every option that is needed has a value. -/
def finish (a : CastArguments K) : Option (Command K) := do
  let function ← a.function
  let origin ← a.origin
  let direction ← a.direction
  return .cast function origin direction a.settings

end CastArguments

/-! ## Commands -/

/-- Whether an argument is a flag with the given names.  What is attached to the short name is
never looked at, since a flag is acted on at once. -/
def isFlag (long short arg : String) : Bool := arg = long || (after? short arg).isSome

/-- Whether an argument asks for help. -/
def asksForHelp (arg : String) : Bool := isFlag "--help" "-h" arg

/-- Whether an argument looks like an option and not like a value. -/
def looksLikeOption (arg : String) : Bool := arg.toList.head? == some '-' && arg ≠ "-"

namespace Command

variable {K : Type} [Decimal K]

/-- The arguments of the command that casts a ray. -/
def parseCast (a : CastArguments K) : List String → Option (Command K)
  | [] => a.finish
  | arg :: rest =>
    if asksForHelp arg then some (.help .cast)
    else if arg = "--" then if rest.isEmpty then a.finish else none
    else
      match CastOption.ofArgument? arg, rest with
      | some (o, some value), rest => (a.set o value).bind fun a => parseCast a rest
      | some (o, none), value :: rest =>
        if o.takesHyphens || !looksLikeOption value then
          (a.set o value).bind fun a => parseCast a rest
        else none
      | _, _ => none

/-- The arguments of the command that shows a formula. -/
def parseInspect (file : Option String) : List String → Option (Command K)
  | [] => file.map .inspect
  | arg :: rest =>
    if asksForHelp arg then some (.help .inspect)
    else if arg = "--" then
      match file, rest with
      | none, [path] => (CastArguments.parsePath? path).map .inspect
      | some path, [] => some (.inspect path)
      | _, _ => none
    else if looksLikeOption arg then none
    else
      match file with
      | none => (CastArguments.parsePath? arg).bind fun path => parseInspect (some path) rest
      | some _ => none

/-- The command that a command line asks for; nothing on a usage error. -/
def parse : List String → Option (Command K)
  | [] => none
  | arg :: rest =>
    if arg = "cast" then parseCast ⟨none, none, none, none⟩ rest
    else if arg = "show" then parseInspect none rest
    else if asksForHelp arg then some (.help .program)
    else if isFlag "--version" "-V" arg then some .version
    else if arg = "help" then
      match rest with
      | [] => some (.help .program)
      | ["cast"] => some (.help .cast)
      | ["show"] => some (.help .inspect)
      | ["help"] => some (.help .help)
      | _ => none
    else none

end Command

end ZeroSet
