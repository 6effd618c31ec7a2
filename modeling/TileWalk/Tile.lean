import TileWalk.Text.Label

/-!
The cells of a level: void, marked path and goal, and which commands may run on them.
-/

namespace TileWalk

/-- The marking of a path tile, named by the conditions of commands. -/
inductive Color
  | grey
  | green
  | red
  | blue
deriving DecidableEq, Inhabited

namespace Color

def all : List Color := [grey, green, red, blue]

theorem mem_all (c : Color) : c ∈ all := by cases c <;> decide

def label : Color → String
  | grey => "grey"
  | green => "green"
  | red => "red"
  | blue => "blue"

/-- The color that a person means by `name`. -/
def ofLabel? (name : String) : Option Color :=
  Text.named? label all name

end Color

inductive Tile
  | void
  | path (color : Color)
  | goal
deriving DecidableEq, Inhabited

namespace Tile

/-- The tile that a number stands for in a level file. -/
def ofCode? : Nat → Option Tile
  | 0 => some void
  | 1 => some (path .grey)
  | 2 => some (path .green)
  | 3 => some (path .red)
  | 4 => some (path .blue)
  | 9 => some goal
  | _ => none

/-- The number that stands for the tile in a level file. -/
def code : Tile → Nat
  | void => 0
  | path .grey => 1
  | path .green => 2
  | path .red => 3
  | path .blue => 4
  | goal => 9

theorem ofCode?_code (t : Tile) : ofCode? t.code = some t := by
  cases t with
  | path c => cases c <;> rfl
  | _ => rfl

theorem code_of_ofCode? {n : Nat} {t : Tile} (h : ofCode? n = some t) : t.code = n := by
  unfold ofCode? at h
  split at h <;> simp only [Option.some.injEq, reduceCtorEq] at h <;> subst h <;> rfl

/-- The marking of the tile; only path has one. -/
def color? : Tile → Option Color
  | path color => some color
  | void | goal => none

/-- A command with this condition may run on the tile: no condition and grey pass everywhere, any
other color only on path of that color. -/
def admits (t : Tile) : Option Color → Bool
  | none | some .grey => true
  | some color => t.color? == some color

def name : Tile → String
  | void => "Void"
  | path .grey => "Path(Grey)"
  | path .green => "Path(Green)"
  | path .red => "Path(Red)"
  | path .blue => "Path(Blue)"
  | goal => "Goal"

@[simp] theorem admits_none (t : Tile) : t.admits none = true := rfl

@[simp] theorem admits_grey (t : Tile) : t.admits (some .grey) = true := rfl

end Tile

end TileWalk
