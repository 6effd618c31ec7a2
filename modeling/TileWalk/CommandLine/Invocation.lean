import TileWalk.Catalog.Builtin
import TileWalk.CommandLine.Options
import TileWalk.Files
import TileWalk.Output.Display
import TileWalk.Player

/-!
Invocations of the command line program: from arguments and files to a player, or to an exit code
and the texts printed before it. What can fail does so before anything is played: the catalog, then
the script, then the index of the first level.
-/

namespace TileWalk.CommandLine

inductive Failure
  | read (path : String) (cause : ReadError)
  | catalog (path : String) (cause : Catalog.Defect)
  | noLevels
  | script (text : String) (cause : Script.Fault)
  | levelIndex (index count : Nat)
deriving DecidableEq, Inhabited

namespace Failure

def message : Failure → String
  | read path _ => s!"failed to read level catalog at {path}"
  | catalog path _ => s!"invalid level catalog at {path}"
  | noLevels => "level catalog contains no levels"
  | script text _ => s!"invalid program `{text}`"
  | levelIndex index count =>
    s!"level index {index} is out of range; the catalog has {count} levels"

def cause? : Failure → Option String
  | read _ cause => some cause.message
  | catalog _ cause => some cause.message
  | script _ cause => some cause.message
  | noLevels | levelIndex _ _ => none

/-- A text with each of its lines moved to the right. -/
def indented (text : String) : String :=
  String.ofList ("    ".toList ++
    text.toList.flatMap fun c => if c = '\n' then "\n    ".toList else [c])

/-- The failure as it is printed, the cause in a paragraph of its own. -/
def report (f : Failure) : String :=
  "Error: " ++ f.message ++ "\n" ++
    match f.cause? with
    | some cause => "\nCaused by:\n" ++ indented cause ++ "\n"
    | none => ""

end Failure

def loadCatalog (readFile : String → Except ReadError ByteArray) (path : String) :
    Except Failure Catalog :=
  match (readFile path).bind decodeText with
  | .error e => .error (.read path e)
  | .ok text => (Catalog.parse text).mapError (.catalog path)

def chooseCatalog (readFile : String → Except ReadError ByteArray) (options : Options) :
    Except Failure Catalog :=
  match options.catalogPath with
  | some path => loadCatalog readFile path
  | none => .ok .builtin

def enterPlay (catalog : Catalog) (script : List ScriptLine) (options : Options) :
    Except Failure (Step Player) :=
  let campaign := Campaign.ofSource catalog.source (.ofPacing options.pacing)
  match Player.start? ⟨script, options.continues, options.budget⟩ campaign options.level with
  | some step => .ok step
  | none => .error (.levelIndex options.level catalog.size)

/-- The player on the first level, or the first failure on the way there. -/
def preparePlay (readFile : String → Except ReadError ByteArray) (options : Options) :
    Except Failure (Step Player) := do
  let catalog ← chooseCatalog readFile options
  if catalog.levels.isEmpty then throw .noLevels
  let script ← (Script.parse options.script).mapError (.script options.script)
  enterPlay catalog script options

/-- The name and the version of the program. -/
def versionText : String := "algorun 0.1.0\n"

def helpText : String :=
  "Plays Algorun puzzle programs in the terminal\n\n" ++
  "Usage: algorun [OPTIONS] --program <NOTATION>\n\n" ++
  "Options:\n" ++
  "      --levels <PATH>       Level catalog to play instead of the built-in levels\n" ++
  "      --level <INDEX>       Zero-based index of the first level [default: 0]\n" ++
  "      --pacing-ms <MS>      Delay before each command, in milliseconds [default: 300]\n" ++
  "      --program <NOTATION>  Program to run, for example \"F1: F R g:2 1; F2: L\"\n" ++
  "      --all                 Go on to the following levels after a win\n" ++
  "      --quiet               Print messages only, without grid frames\n" ++
  "      --no-wait             Do not wait between commands\n" ++
  "      --max-steps <STEPS>   Abort a run once it has executed this many commands\n" ++
  "  -h, --help                Print help\n" ++
  "  -V, --version             Print version\n"

/-- The end of the program: its exit code and what it prints. -/
structure Exit where
  code : UInt8
  output : String
  errors : String
deriving DecidableEq, Inhabited

inductive Invocation
  | ended (exit : Exit)
  /-- A player is on the first level; the report tells how it came there. -/
  | playing (options : Options) (step : Step Player)

/-- What comes of the arguments, given the contents of files. -/
def Invocation.ofArguments (readFile : String → Except ReadError ByteArray)
    (arguments : List String) : Invocation :=
  match parse arguments with
  | .error e => .ended ⟨2, "", "error: " ++ e.message ++ "\n"⟩
  | .ok .version => .ended ⟨0, versionText, ""⟩
  | .ok .help => .ended ⟨0, helpText, ""⟩
  | .ok (.play options) =>
    match preparePlay readFile options with
    | .ok step => .playing options step
    | .error f => .ended ⟨1, "", f.report⟩

/-- The events that are shown: all, or without the frames. -/
def shown (quiet : Bool) (events : List Event) : List Event :=
  if quiet then
    events.filter fun
      | .cursor _ => false
      | _ => true
  else events

/-- The exit code after the last run ended: zero only for a win. -/
def exitCode (outcome : Option Outcome) : UInt8 :=
  if outcome = some .won then 0 else 1

end TileWalk.CommandLine
