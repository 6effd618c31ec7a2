import TileWalk.Level.Frame
import TileWalk.Session.Event

/-!
A display turns events into lines of text. It keeps the level, the cursor and the queues that the
events told of; each event adds lines that depend on the event and, for a frame, on the level.
-/

namespace TileWalk

/-- The commands of a queue in words, unknown ones left out. -/
def Command.listing (commands : List Command) : String :=
  ", ".intercalate ((commands.filter fun c => c.operation != .unknown).map Command.wording)

/-- The frame with the cursor, without the line breaks at its end. -/
def Level.picture (level : Level) (cursor : Cursor) : String :=
  String.ofList ((level.frame (some cursor)).toList.reverse.dropWhile (· == '\n')).reverse

/-- What events told of so far. -/
structure Display where
  level : Option Level
  /-- The cursor since the level appeared. -/
  cursor : Option Cursor
  queues : Slots (List Command)
deriving DecidableEq, Inhabited

namespace Display

def blank : Display := ⟨none, none, .const []⟩

def update (d : Display) : Event → Display
  | .level level => { d with level := some level, cursor := none }
  | .cursor cursor => { d with cursor := some cursor }
  | .queue s commands => { d with queues := d.queues.set s commands }
  | .refused _ | .started | .victory | .ended _ _ | .complete => d

/-- The lines that an event adds. An empty queue adds none. -/
def lines (d : Display) : Event → List String
  | .level level =>
    (if level.description = "" then [] else [level.description]) ++ [level.summary]
  | .cursor cursor => "" :: (d.level.map fun level => level.picture cursor).toList
  | .queue s commands =>
    if commands.isEmpty then [] else [s.label ++ ": " ++ Command.listing commands]
  | .refused reason => ["rejected: " ++ reason.message]
  | .started => ["Running F1..."]
  | .victory => ["Goal reached!"]
  | .ended outcome executed =>
    let steps := executed.toNat
    let words := outcome.message
    [s!"{words} after {steps} steps"]
  | .complete => ["All levels complete."]

/-- Lines as text, a line break after each. -/
def textOf (lines : List String) : String :=
  String.join (lines.map fun line => line ++ "\n")

/-- The text that each of some events adds. -/
def chunks (d : Display) : List Event → List String
  | [] => []
  | e :: events => textOf (d.lines e) :: chunks (d.update e) events

/-- The display after some events, and the text that they add. -/
def play (d : Display) (events : List Event) : Display × String :=
  (events.foldl update d, String.join (d.chunks events))

@[simp] theorem chunks_nil (d : Display) : d.chunks [] = [] := rfl

@[simp] theorem chunks_cons (d : Display) (e : Event) (events : List Event) :
    d.chunks (e :: events) = textOf (d.lines e) :: (d.update e).chunks events := rfl

theorem chunks_append (d : Display) (a b : List Event) :
    d.chunks (a ++ b) = d.chunks a ++ (a.foldl update d).chunks b := by
  induction a generalizing d with
  | nil => rfl
  | cons e a ih => simp [ih]

/-- Only a frame depends on what the display holds, and of that only on the level. -/
theorem lines_congr {a b : Display} (h : a.level = b.level) (e : Event) :
    a.lines e = b.lines e := by
  cases e <;> simp [lines, h]

end Display

end TileWalk
