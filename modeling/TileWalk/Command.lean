import TileWalk.Cursor
import TileWalk.Refusal
import TileWalk.Tile

/-!
Commands: an operation and, optionally, the color it waits for. Command sources name both by labels;
`Command.ofLabels` reads such a pair.
-/

namespace TileWalk

inductive Operation
  | move (motion : Motion)
  /-- Runs the queue of the subroutine before going on. -/
  | call (subroutine : Subroutine)
  /-- An operation that the label of a command source did not name; it is never executed. -/
  | unknown
deriving DecidableEq, Inhabited

namespace Operation

/-- The operations that have a label of their own. -/
def known : List Operation :=
  [move .forward, move (.turn .left), move (.turn .right), call .f1, call .f2, call .f3]

theorem mem_known {op : Operation} : op ∈ known ↔ op ≠ unknown := by
  cases op with
  | move m =>
    cases m with
    | forward => decide
    | turn side => cases side <;> decide
  | call s => cases s <;> decide
  | unknown => decide

def label : Operation → String
  | move .forward => "move forward"
  | move (.turn .left) => "turn left"
  | move (.turn .right) => "turn right"
  | call .f1 => "function 1"
  | call .f2 => "function 2"
  | call .f3 => "function 3"
  | unknown => "unknown"

/-- The operation that a person means by `text`, `unknown` if there is none. -/
def ofLabel (text : String) : Operation :=
  (Text.named? label known text).getD unknown

def name : Operation → String
  | move .forward => "MoveForward"
  | move (.turn .left) => "TurnLeft"
  | move (.turn .right) => "TurnRight"
  | call subroutine => "Call(" ++ subroutine.label ++ ")"
  | unknown => "Unknown"

end Operation

structure Command where
  operation : Operation
  /-- The marking that the tile under the cursor must have for the command to run. -/
  condition : Option Color
deriving DecidableEq, Inhabited

namespace Command

/-- The color that a condition label names. A blank label is no condition. -/
def readCondition (operation : String) : Option String → Except Refusal (Option Color)
  | none => .ok none
  | some label =>
    let trimmed := Text.trim label
    if trimmed = "" then .ok none
    else
      match Color.ofLabel? trimmed with
      | some color => .ok (some color)
      | none => .error (.malformed s!"{operation} [{trimmed}]")

/-- The command that a pair of labels names. A blank operation and a condition that is no color are
malformed; any other operation is read, if need be as `unknown`. -/
def ofLabels (operation : String) (condition : Option String) : Except Refusal Command :=
  if Text.trim operation = "" then .error (.malformed operation)
  else (readCondition operation condition).map fun color => ⟨.ofLabel operation, color⟩

/-- The command does nothing on this tile and is passed over at no cost. -/
def isSkipped (c : Command) (tile : Tile) : Bool :=
  c.operation == .unknown || !tile.admits c.condition

def wording (c : Command) : String :=
  match c.condition with
  | some color => color.label ++ ": " ++ c.operation.label
  | none => c.operation.label

end Command

end TileWalk
