import TileWalk.Command

/-!
Levels: a grid of tiles, a start pose, and what programs on the level may hold and call. Rows may
differ in length; every cell outside the rows is void.
-/

namespace TileWalk

structure Level where
  /-- The rows of tiles, from top to bottom. -/
  grid : List (List Tile)
  start : Cursor
  /-- The greatest number of commands in each subroutine. -/
  capacities : Slots Nat
  /-- Which subroutines commands may call. -/
  enabled : Slots Bool
  description : String
deriving DecidableEq, Inhabited

namespace Level

def cell (level : Level) (row column : Nat) : Tile :=
  ((level.grid[row]?).bind fun tiles => tiles[column]?).getD .void

def tile (level : Level) (x y : UInt32) : Tile :=
  level.cell y.toNat x.toNat

/-- The length of the longest row. -/
def width (level : Level) : Nat :=
  (level.grid.map List.length).foldr max 0

def height (level : Level) : Nat :=
  level.grid.length

theorem length_le_width {level : Level} {tiles : List Tile} (h : tiles ∈ level.grid) :
    tiles.length ≤ level.width := by
  unfold width
  generalize level.grid = grid at h
  induction grid with
  | nil => simp at h
  | cons row rest ih =>
    rw [List.map_cons, List.foldr_cons]
    rcases List.mem_cons.mp h with rfl | h
    · omega
    · have := ih h; omega

/-- Cells below the grid are void. -/
theorem cell_of_height_le {level : Level} {row column : Nat} (h : level.height ≤ row) :
    level.cell row column = .void := by
  simp [cell, List.getElem?_eq_none h]

/-- Cells to the right of every row are void. -/
theorem cell_of_width_le {level : Level} {row column : Nat} (h : level.width ≤ column) :
    level.cell row column = .void := by
  unfold cell
  cases hr : level.grid[row]? with
  | none => rfl
  | some tiles =>
    have := length_le_width (List.mem_of_getElem? hr)
    simp [List.getElem?_eq_none (show tiles.length ≤ column by omega)]

end Level

end TileWalk
