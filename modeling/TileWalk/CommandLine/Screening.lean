import TileWalk.CommandLine.Invocation

/-!
Screenings: a player who is shown on a display, move by move. The frames may be left out. What is
shown never reaches the player, who goes on as if no one looked.
-/

namespace TileWalk

/-- A player and the display that shows what the player does. -/
structure Screening where
  player : Player
  display : Display

namespace Screening

/-- Shows a step of the player on a display. The text is what the display adds. -/
def follow (quiet : Bool) (d : Display) (step : Step Player) : Step Screening × String :=
  let (display, text) := d.play (CommandLine.shown quiet step.report.events)
  (step.map fun player => ⟨player, display⟩, text)

def perform (quiet : Bool) (s : Screening) (move : Move) : Step Screening × String :=
  follow quiet s.display (s.player.perform move)

/-- What is shown first, then what is shown from there. -/
def andThen (first : Step Screening × String) (f : Screening → Step Screening × String) :
    Step Screening × String :=
  (first.1.next fun s => (f s).1, first.2 ++ (f first.1.state).2)

/-- The next moves of the player, as many as `Player.play` makes. -/
def play (quiet : Bool) (s : Screening) : Nat → Step Screening × String
  | 0 => (.stay s, "")
  | moves + 1 => andThen (s.perform quiet s.player.next) fun s => s.play quiet moves

/-- The step that leads to the first level, and some moves from there. -/
def playFrom (quiet : Bool) (start : Step Player) (moves : Nat) : Step Screening × String :=
  andThen (follow quiet .blank start) fun s => s.play quiet moves

end Screening

/-- The first level and some moves of a player on the command line, shown as the options ask for. -/
def CommandLine.screen (catalog : Catalog) (script : List ScriptLine) (options : Options)
    (moves : Nat) : Except Failure (Step Screening × String) :=
  (enterPlay catalog script options).map fun start =>
    Screening.playFrom options.quiet start moves

end TileWalk
