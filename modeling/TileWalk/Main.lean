import TileWalk.CommandLine.Screening

/-!
The command line program: reads the catalog file, prints what the display shows, and sleeps between
commands.
-/

namespace TileWalk

/-- The number of an error of the operating system, which may come with its sign turned. -/
def errorNumber (code : UInt32) : Nat :=
  if code.toNat < 2147483648 then code.toNat else 4294967296 - code.toNat

/-- Why a file could not be read, from what the operating system reports. -/
def readErrorOf : IO.Error → ReadError
  | .noFileOrDirectory .. => .notFound
  | .inappropriateType _ code details =>
    if errorNumber code = 21 then .isDirectory
    else if errorNumber code = 20 then .notDirectory
    else .other details
  | .invalidArgument _ code details =>
    if errorNumber code = 36 then .nameTooLong else .other details
  | e => .other (toString e)

/-- The bytes of a file, or why there are none. -/
def readFile (path : String) : IO (Except ReadError ByteArray) := do
  try
    return .ok (← IO.FS.readBinFile path)
  catch e =>
    return .error (readErrorOf e)

/-- Prints a text at once. -/
def printNow (text : String) : IO Unit := do
  IO.print text
  (← IO.getStdout).flush

partial def playOn (options : CommandLine.Options) (s : Screening) : IO (Option Outcome) := do
  match s.player.next with
  | .stop => return s.player.outcome
  | move =>
    if let .wait delay := move then
      if !options.instant then
        IO.sleep (UInt32.ofNat (min delay.millis 4294967295))
    let (step, text) := s.perform options.quiet move
    printNow text
    playOn options step.state

end TileWalk

open TileWalk in
/-- Runs the program with its arguments. -/
def main (arguments : List String) : IO UInt32 := do
  let contents ← match CommandLine.parse arguments with
    | .ok (.play options) =>
      match options.catalogPath with
      | some path => readFile path
      | none => pure (.error .notFound)
    | _ => pure (.error .notFound)
  match CommandLine.Invocation.ofArguments (fun _ => contents) arguments with
  | .ended exit =>
    IO.print exit.output
    IO.eprint exit.errors
    return exit.code.toUInt32
  | .playing options step =>
    let (step, text) := Screening.follow options.quiet .blank step
    printNow text
    let outcome ← playOn options step.state
    return (CommandLine.exitCode outcome).toUInt32
