import TileWalk.Duration
import TileWalk.Text.Digits

/-!
The options of the command line. Arguments are read from left to right; the first fault, or the
first request for the version or for help, decides. A setting takes its value after an equals sign
or from the next argument, which then must not begin with a hyphen.
-/

namespace TileWalk.CommandLine

/-- What to play and how, as asked for on the command line. -/
structure Options where
  /-- The path of a level catalog to play instead of the built-in levels. -/
  catalogPath : Option String
  /-- The index of the first level. -/
  level : Nat
  pacing : Pacing
  script : String
  /-- A win leads on to the next level. -/
  continues : Bool
  /-- No frames are shown. -/
  quiet : Bool
  /-- No time is spent waiting. -/
  instant : Bool
  /-- The number of commands after which a run is cut off. -/
  budget : Option UInt32
deriving DecidableEq, Inhabited

inductive Switch
  | continues
  | quiet
  | instant
deriving DecidableEq, Inhabited

namespace Switch

def all : List Switch := [continues, quiet, instant]

/-- The name of a switch, without its hyphens. -/
def name : Switch → String
  | continues => "all"
  | quiet => "quiet"
  | instant => "no-wait"

def ofName? (text : String) : Option Switch := all.find? fun s => s.name == text

end Switch

inductive Setting
  | catalogPath
  | level
  | pacing
  | script
  | budget
deriving DecidableEq, Inhabited

namespace Setting

def all : List Setting := [catalogPath, level, pacing, script, budget]

/-- The name of a setting, without its hyphens. -/
def name : Setting → String
  | catalogPath => "levels"
  | level => "level"
  | pacing => "pacing-ms"
  | script => "program"
  | budget => "max-steps"

def ofName? (text : String) : Option Setting := all.find? fun s => s.name == text

end Setting

inductive Request
  | play (options : Options)
  | version
  | help
deriving DecidableEq, Inhabited

inductive UsageError
  | unexpected (argument : String)
  | repeated (name : String)
  | missingValue (name : String)
  /-- A switch was given a value. -/
  | needlessValue (name : String)
  | invalidValue (name value : String)
  | missing (name : String)
deriving DecidableEq, Inhabited

def UsageError.message : UsageError → String
  | unexpected argument => s!"unexpected argument '{argument}'"
  | repeated name => s!"the argument '--{name}' cannot be used multiple times"
  | missingValue name => s!"a value is required for '--{name}'"
  | needlessValue name => s!"the argument '--{name}' takes no value"
  | invalidValue name value => s!"invalid value '{value}' for '--{name}'"
  | missing name => s!"the required argument '--{name}' was not provided"

/-! ### Values -/

/-- A number of decimal digits, with or without a plus, below a bound. -/
def natBelow? (bound : Nat) (text : String) : Option Nat := do
  let digits := match text.toList with
    | '+' :: rest => rest
    | cs => cs
  let n ← Text.natOfDigits? digits
  if n < bound then some n else none

/-- A number of decimal digits, with or without a sign, from zero up to a bound. Only zero may have
a minus. -/
def signedBelow? (bound : Nat) (text : String) : Option Nat :=
  match text.toList with
  | '-' :: rest => if Text.natOfDigits? rest = some 0 then some 0 else none
  | _ => natBelow? bound text

/-! ### Arguments -/

structure Draft where
  catalogPath : Option String
  level : Option Nat
  pacing : Option Pacing
  script : Option String
  budget : Option UInt32
  switches : List Switch
deriving DecidableEq, Inhabited

namespace Draft

def blank : Draft := ⟨none, none, none, none, none, []⟩

def switchOn (d : Draft) (s : Switch) : Except UsageError Draft :=
  if s ∈ d.switches then .error (.repeated s.name)
  else .ok { d with switches := s :: d.switches }

def has (d : Draft) : Setting → Bool
  | .catalogPath => d.catalogPath.isSome
  | .level => d.level.isSome
  | .pacing => d.pacing.isSome
  | .script => d.script.isSome
  | .budget => d.budget.isSome

/-- The options with a setting added, if its value is of the kind that the setting takes. -/
def add? (d : Draft) (value : String) : Setting → Option Draft
  | .catalogPath => if value = "" then none else some { d with catalogPath := some value }
  | .level => (natBelow? 18446744073709551616 value).map fun n => { d with level := some n }
  | .pacing => do
    let n ← natBelow? 18446744073709551616 value
    let pacing ← (Pacing.ofInterval (.ofMillis (UInt64.ofNat n))).toOption
    some { d with pacing := some pacing }
  | .script => some { d with script := some value }
  | .budget =>
    (signedBelow? 4294967296 value).map fun n => { d with budget := some (UInt32.ofNat n) }

def add (d : Draft) (s : Setting) (value : String) : Except UsageError Draft :=
  if d.has s then .error (.repeated s.name)
  else
    match d.add? value s with
    | some d => .ok d
    | none => .error (.invalidValue s.name value)

/-- The options when all arguments are read. Only the script has no default. -/
def finish (d : Draft) : Except UsageError Request :=
  match d.script with
  | none => .error (.missing Setting.script.name)
  | some script =>
    .ok (.play
      { catalogPath := d.catalogPath
        level := d.level.getD 0
        pacing := d.pacing.getD .standard
        script
        continues := d.switches.contains .continues
        quiet := d.switches.contains .quiet
        instant := d.switches.contains .instant
        budget := d.budget })

end Draft

inductive Argument
  /-- Two hyphens alone: no options follow. -/
  | terminator
  | long (name : String) (value : Option String)
  | short (first : Char)
  | plain
deriving DecidableEq, Inhabited

/-- The shape of an argument, from its hyphens. -/
def Argument.ofString (text : String) : Argument :=
  match text.toList with
  | ['-', '-'] => .terminator
  | '-' :: '-' :: rest =>
    let name := String.ofList (rest.takeWhile (· != '='))
    match rest.dropWhile (· != '=') with
    | [] => .long name none
    | _ :: value => .long name (some (String.ofList value))
  | '-' :: c :: _ => .short c
  | _ => .plain

/-- An argument that may be the value of the setting before it. -/
def Argument.mayBeValue (text : String) : Bool :=
  match text.toList with
  | '-' :: _ :: _ => false
  | _ => true

/-- What the remaining arguments ask for after the options in a draft. -/
def readArguments (d : Draft) : List String → Except UsageError Request
  | [] => d.finish
  | argument :: rest =>
    match Argument.ofString argument with
    | .terminator =>
      match rest with
      | [] => d.finish
      | extra :: _ => .error (.unexpected extra)
    | .short 'V' | .long "version" none => .ok .version
    | .short 'h' | .long "help" none => .ok .help
    | .long name value =>
      match Switch.ofName? name with
      | some s =>
        match value with
        | some _ => .error (.needlessValue name)
        | none => do
          let d ← d.switchOn s
          readArguments d rest
      | none =>
        match Setting.ofName? name with
        | none => .error (.unexpected argument)
        | some s =>
          match value with
          | some value => do
            let d ← d.add s value
            readArguments d rest
          | none =>
            match rest with
            | [] => .error (.missingValue name)
            | value :: rest =>
              if Argument.mayBeValue value then do
                let d ← d.add s value
                readArguments d rest
              else .error (.missingValue name)
    | .short _ | .plain => .error (.unexpected argument)

def parse (arguments : List String) : Except UsageError Request :=
  readArguments .blank arguments

end TileWalk.CommandLine
