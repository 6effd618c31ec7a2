import TileWalk.Saturating

/-!
The cursor: where the token stands and which way it faces, and how motions change it. Turns run
through the four directions in a circle; a step forward stops at the upper and left edge of the
plane and at the greatest coordinate, but knows nothing of any grid.
-/

namespace TileWalk

/-- A facing on the grid, listed clockwise. -/
inductive Direction
  | up
  | right
  | down
  | left
deriving DecidableEq, Inhabited

inductive Turn
  | left
  | right
deriving DecidableEq, Inhabited

namespace Direction

/-- The four directions, clockwise from `up`. -/
def all : List Direction := [up, right, down, left]

theorem mem_all (d : Direction) : d ∈ all := by cases d <;> decide

def clockwise : Direction → Direction
  | up => right
  | right => down
  | down => left
  | left => up

def counterclockwise : Direction → Direction
  | up => left
  | right => up
  | down => right
  | left => down

@[simp] theorem clockwise_counterclockwise (d : Direction) : d.counterclockwise.clockwise = d := by
  cases d <;> rfl

@[simp] theorem counterclockwise_clockwise (d : Direction) : d.clockwise.counterclockwise = d := by
  cases d <;> rfl

def turn (d : Direction) : Turn → Direction
  | .left => d.counterclockwise
  | .right => d.clockwise

/-- The name used in level files and messages. -/
def label : Direction → String
  | up => "up"
  | right => "right"
  | down => "down"
  | left => "left"

/-- The direction with exactly this name. -/
def ofLabel? (text : String) : Option Direction :=
  all.find? fun d => d.label == text

theorem ofLabel?_label (d : Direction) : ofLabel? d.label = some d := by cases d <;> decide

end Direction

/-- Position and facing of the token: zero-based column and row, the row counted downwards. -/
structure Cursor where
  x : UInt32
  y : UInt32
  direction : Direction
deriving DecidableEq, Inhabited

/-- What a token can do on its own: step ahead or turn in place. -/
inductive Motion
  | forward
  | turn (side : Turn)
deriving DecidableEq, Inhabited

namespace Cursor

/-- The pose a session has before any level is loaded. -/
def origin : Cursor := ⟨0, 0, .up⟩

/-- One cell ahead. The coordinates saturate at both ends of their range. -/
def forward (c : Cursor) : Cursor :=
  match c.direction with
  | .up => { c with y := decrement c.y }
  | .right => { c with x := increment c.x }
  | .down => { c with y := increment c.y }
  | .left => { c with x := decrement c.x }

def turn (c : Cursor) (side : Turn) : Cursor :=
  { c with direction := c.direction.turn side }

def step (c : Cursor) : Motion → Cursor
  | .forward => c.forward
  | .turn side => c.turn side

/-- The poses of a walk: the start, then the pose after each motion. -/
def walk (c : Cursor) : List Motion → List Cursor
  | [] => [c]
  | m :: motions => c :: walk (c.step m) motions

/-- The pose at the end of a walk. -/
def follow (c : Cursor) (motions : List Motion) : Cursor :=
  motions.foldl step c

@[simp] theorem direction_forward (c : Cursor) : c.forward.direction = c.direction := by
  cases c with
  | mk x y d => cases d <;> rfl

@[simp] theorem direction_turn (c : Cursor) (side : Turn) :
    (c.turn side).direction = c.direction.turn side := rfl

@[simp] theorem follow_nil (c : Cursor) : c.follow [] = c := rfl

@[simp] theorem follow_cons (c : Cursor) (m : Motion) (motions : List Motion) :
    c.follow (m :: motions) = (c.step m).follow motions := rfl

theorem follow_append (c : Cursor) (a b : List Motion) :
    c.follow (a ++ b) = (c.follow a).follow b := List.foldl_append

@[simp] theorem length_walk (c : Cursor) (motions : List Motion) :
    (c.walk motions).length = motions.length + 1 := by
  induction motions generalizing c with
  | nil => rfl
  | cons m motions ih => simp [walk, ih]

/-- A walk ends where following its motions leads. -/
theorem getLast?_walk (c : Cursor) (motions : List Motion) :
    (c.walk motions).getLast? = some (c.follow motions) := by
  induction motions generalizing c with
  | nil => rfl
  | cons m motions ih => simp [walk, List.getLast?_cons, ih]

end Cursor

end TileWalk
