import TileWalk.Subroutine

/-!
Why a session refuses input. A refusal is reported to the player and changes nothing.
-/

namespace TileWalk

inductive Refusal
  /-- The labels of a submitted command name no command; `input` is the offending text. -/
  | malformed (input : String)
  | slotFull (s : Subroutine)
  | allFull
  /-- The level does not let commands call the subroutine. -/
  | disabled (s : Subroutine)
  /-- The queues are frozen while a run is in flight. -/
  | running
  | zeroPacing
  | noLevel
deriving DecidableEq, Inhabited

def Refusal.message : Refusal → String
  | malformed input => s!"malformed command input '{input}'"
  | slotFull s => s.label ++ " is full"
  | allFull => "all subroutines are full"
  | disabled s => s.label ++ " is not available on this level"
  | running => "queues are locked while the program runs"
  | zeroPacing => "pacing interval must be positive"
  | noLevel => "no level is loaded"

end TileWalk
