import ZeroSet.Command.Arguments
import ZeroSet.Storage
import ZeroSet.Shape.Scene

/-!
# Running commands

What the program prints and the code it ends with, as a function of the command and of the
contents of files.  What was printed before an error stays printed.

* `Command.run` — the report of a command.
* `Report.ofArguments` — the report of a command line.
-/

namespace ZeroSet

/-- The version of the library. -/
def version : String := "0.1.0"

/-- What a run leaves behind. -/
structure Report where
  /-- The code the program ends with. -/
  code : Nat
  /-- What it printed. -/
  output : String
  /-- What it printed about errors. -/
  errors : String

/-- Why a command gives up. -/
inductive Failure (K : Type) where
  /-- A file is missing or wrong. -/
  | storage (e : StorageError)
  /-- Building or evaluating went wrong. -/
  | evaluation (e : EvalError K)
  /-- A ray needs a direction. -/
  | zeroDirection

/-- Printing while something may go wrong. -/
abbrev Printing (K α : Type) := ExceptT (Failure K) (StateM String) α

variable {K : Type} [Scalar K] [Decimal K]

/-- Why a command gives up, in words. -/
def Failure.message : Failure K → String
  | .storage e => e.message
  | .evaluation e => e.message
  | .zeroDirection => "ray direction must be non-zero"

namespace Printing

/-- Prints a line. -/
def line (text : String) : Printing K Unit := modify (· ++ text ++ "\n")

/-- Gives up if a file is missing or wrong. -/
def orStorage {α : Type} (r : Except StorageError α) : Printing K α :=
  ExceptT.mk (pure (r.mapError .storage))

/-- Gives up if building or evaluating went wrong. -/
def orEvaluation {α : Type} (r : Except (EvalError K) α) : Printing K α :=
  ExceptT.mk (pure (r.mapError .evaluation))

/-- The report of what was printed. -/
def report (p : Printing K Unit) : Report :=
  match p.run.run "" with
  | (.ok (), output) => ⟨0, output, ""⟩
  | (.error failure, output) => ⟨1, output, "Error: " ++ failure.message ++ "\n"⟩

end Printing

/-- A scalar to six decimal places. -/
def sixPlaces (x : K) : String := (Decimal.rounded 6 x).plain

/-- A triple to six decimal places. -/
def Vec3.sixPlaces (v : Vec3 K) : String :=
  "DVec3(" ++ ", ".intercalate (v.toList.map ZeroSet.sixPlaces) ++ ")"

/-- The counters of a search. -/
def Effort.text (e : Effort) : String :=
  "Bisection: " ++ Nat.repr e.evaluations ++ " evaluations, " ++ Nat.repr e.pruned ++
    " pruned, " ++ Nat.repr e.leaves ++ " leaves, depth " ++ Nat.repr e.maxDepth

/-- How to use the program. -/
def Topic.text : Topic → String
  | .program =>
    "Ray tracing of implicit surfaces\n\n" ++
    "Usage: implicit-trace <COMMAND>\n\n" ++
    "Commands:\n" ++
    "  cast  Intersect one ray with the surface f(x, y, z) = 0\n" ++
    "  show  Print a formula and its partial derivatives\n" ++
    "  help  Print this message or the help of the given subcommand(s)\n\n" ++
    "Options:\n" ++
    "  -h, --help     Print help\n" ++
    "  -V, --version  Print version\n"
  | .cast =>
    "Intersect one ray with the surface f(x, y, z) = 0\n\n" ++
    "Usage: implicit-trace cast [OPTIONS] --function <FUNCTION> --origin <ORIGIN> " ++
    "--direction <DIRECTION>\n\n" ++
    "Options:\n" ++
    "  -f, --function <FUNCTION>    Expression file (.json) holding f\n" ++
    "      --origin <ORIGIN>        Ray origin as x,y,z\n" ++
    "      --direction <DIRECTION>  Ray direction as x,y,z\n" ++
    "  -c, --config <CONFIG>        Trace configuration (.json); " ++
    "defaults are used when absent\n" ++
    "  -h, --help                   Print help\n"
  | .inspect =>
    "Print a formula and its partial derivatives\n\n" ++
    "Usage: implicit-trace show <FILE>\n\n" ++
    "Arguments:\n" ++
    "  <FILE>  Expression file (.json)\n\n" ++
    "Options:\n" ++
    "  -h, --help  Print help\n"
  | .help =>
    "Print this message or the help of the given subcommand(s)\n\n" ++
    "Usage: implicit-trace help [COMMAND]...\n\n" ++
    "Arguments:\n" ++
    "  [COMMAND]...  Print help for the subcommand(s)\n"

namespace Command

/-- The settings in a file, or the standard ones if there is no file. -/
def loadSettings (files : Files) : Option String → Except StorageError (Settings K)
  | some path => files.loadStored path
  | none => .ok .standard

/-- Builds the surface of a field and a scene of it. -/
def buildScene (field : Expr K) (settings : Settings K) : Building K (Surface K × Scene K) := do
  let surface ← Surface.build field settings
  let scene ← (Scene.build : StateM _ (Scene K))
  return (surface, scene.add (.leaf (.surface surface)))

/-- Casts a ray and prints what it meets. -/
def runCast (files : Files) (function : String) (origin direction : Vec3 K)
    (settings : Option String) : Printing K Unit := do
  let field ← Printing.orStorage (files.load function)
  let settings ← Printing.orStorage (loadSettings files settings)
  if direction.lengthSquared == 0 then throw .zeroDirection
  let (surface, scene) ← Printing.orEvaluation ((buildScene field settings).run.run .fresh).1
  let ray := Ray.towards origin direction
  let (_, effort) ← Printing.orEvaluation (surface.findRoot ray)
  Printing.line effort.text
  match ← Printing.orEvaluation (scene.trace ray) with
  | some hit =>
    Printing.line ("Distance: " ++ sixPlaces hit.distance)
    Printing.line ("Point:    " ++ hit.point.sixPlaces)
    Printing.line ("Normal:   " ++ hit.shading.normal.sixPlaces)
  | none => Printing.line ("No intersection within " ++ Decimal.text settings.maxDistance)

/-- Prints a formula and its derivatives in all its variables. -/
def runInspect (files : Files) (file : String) : Printing K Unit := do
  let field : Expr K ← Printing.orStorage (files.load file)
  Printing.line (summary field)
  for name in field.distinctNames do
    let derivative ← Printing.orEvaluation (field.derivative name)
    let simple ← Printing.orEvaluation derivative.simplify
    Printing.line ("d/d" ++ name ++ ": " ++ simple.text)

/-- The files that a command reads. -/
def inputs : Command K → List String
  | cast function _ _ settings => function :: settings.toList
  | inspect file => [file]
  | _ => []

/-- The report of a command. -/
def run (files : Files) : Command K → Report
  | version => ⟨0, "implicit-trace " ++ ZeroSet.version ++ "\n", ""⟩
  | help topic => ⟨0, topic.text, ""⟩
  | cast function origin direction settings =>
    (runCast files function origin direction settings).report
  | inspect file => (runInspect files file : Printing K Unit).report

end Command

/-- The report of a command line that the program does not understand. -/
def Report.usageError : Report :=
  ⟨2, "", "error: the command line was not understood\n\n" ++ Topic.text .program⟩

end ZeroSet
