import TileWalk.Duration
import TileWalk.Level

/-!
What a session is told and what it tells: actions, and events for the sinks that show the session.
The events carry all that a sink needs to follow along.
-/

namespace TileWalk

/-- How a run ended. -/
inductive Outcome
  /-- A command was due while the cursor was on void. -/
  | offPath
  /-- The cursor came to the goal. -/
  | won
  /-- The program ended elsewhere. -/
  | exhausted
  /-- The run was cut off, or started while the cancellation flag was raised. -/
  | cancelled
deriving DecidableEq, Inhabited

namespace Outcome

def message : Outcome → String
  | offPath => "cursor left the path"
  | won => "goal reached"
  | exhausted => "program finished"
  | cancelled => "run cancelled"

/-- A run that ends this way raises the cancellation flag. -/
def raisesFlag : Outcome → Bool
  | offPath | won => true
  | exhausted | cancelled => false

end Outcome

inductive Placement
  /-- The first subroutine with room, in slot order. -/
  | firstOpen
  | slot (s : Subroutine)
deriving DecidableEq, Inhabited

inductive Action
  | load (level : Level)
  | add (command : Command) (placement : Placement)
  /-- Adds the command that two labels describe. -/
  | submit (operation : String) (condition : Option String) (placement : Placement)
  | takeBack
  | reset
  | start
  | abort
  | pace (interval : Duration)
  /-- Lets time pass. -/
  | tick (elapsed : Duration)
deriving DecidableEq, Inhabited

/-- A change of a session or campaign that a sink may show. -/
inductive Event
  /-- A level was loaded. -/
  | level (level : Level)
  /-- The cursor has this pose now. -/
  | cursor (cursor : Cursor)
  /-- The queue of a subroutine holds these commands now. -/
  | queue (s : Subroutine) (commands : List Command)
  | refused (reason : Refusal)
  | started
  | victory
  /-- A run ended after this many commands. -/
  | ended (outcome : Outcome) (executed : UInt32)
  /-- The player moved on from the last level. -/
  | complete
deriving DecidableEq, Inhabited

end TileWalk
