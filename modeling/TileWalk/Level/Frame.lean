import TileWalk.Level

/-!
A level as text: a frame of glyphs, one for each cell, with the cursor drawn over its cell, and a
summary of the start pose and of the room in each subroutine.
-/

namespace TileWalk

def Tile.glyph : Tile → Char
  | void => '#'
  | path .grey => '.'
  | path .green => 'g'
  | path .red => 'r'
  | path .blue => 'b'
  | goal => '*'

/-- The glyph of a cursor that faces this way. -/
def Direction.glyph : Direction → Char
  | up => '^'
  | right => '>'
  | down => 'v'
  | left => '<'

theorem Tile.glyph_injective {a b : Tile} (h : a.glyph = b.glyph) : a = b := by
  rcases a with _ | (_ | _ | _ | _) | _ <;> rcases b with _ | (_ | _ | _ | _) | _ <;>
    revert h <;> decide

theorem Direction.glyph_injective {a b : Direction} (h : a.glyph = b.glyph) : a = b := by
  cases a <;> cases b <;> revert h <;> decide

/-- No tile looks like a cursor. -/
theorem Tile.glyph_ne_direction (t : Tile) (d : Direction) : t.glyph ≠ d.glyph := by
  rcases t with _ | (_ | _ | _ | _) | _ <;> cases d <;> decide

namespace Level

/-- The glyph drawn in a row and column over the tile there. -/
def glyphOver (cursor : Option Cursor) (row column : Nat) (tile : Tile) : Char :=
  match cursor with
  | some c => if c.x.toNat = column ∧ c.y.toNat = row then c.direction.glyph else tile.glyph
  | none => tile.glyph

/-- The tiles of a row, with void up to the width of the level. -/
def paddedRow (level : Level) (tiles : List Tile) : List Tile :=
  tiles ++ List.replicate (level.width - tiles.length) .void

/-- The lines of a frame, from top to bottom. A cursor outside the grid is not drawn. -/
def frameLines (level : Level) (cursor : Option Cursor) : List (List Char) :=
  level.grid.mapIdx fun row tiles => (level.paddedRow tiles).mapIdx (glyphOver cursor row)

/-- The frame as text, a line break after each line. -/
def frame (level : Level) (cursor : Option Cursor) : String :=
  String.ofList ((level.frameLines cursor).flatMap (· ++ ['\n']))

@[simp] theorem length_frameLines (level : Level) (cursor : Option Cursor) :
    (level.frameLines cursor).length = level.height := by
  simp [frameLines, height]

/-- Every line of a frame is as wide as the level. -/
theorem length_of_mem_frameLines {level : Level} {cursor : Option Cursor} {line : List Char}
    (h : line ∈ level.frameLines cursor) : line.length = level.width := by
  obtain ⟨row, hrow, rfl⟩ := List.mem_mapIdx.mp h
  have := length_le_width (List.getElem_mem hrow)
  simp only [paddedRow, List.length_mapIdx, List.length_append, List.length_replicate]
  omega

/-- One clause for each subroutine with room, separated by commas. -/
def roomSummary (level : Level) : String :=
  let usable := Subroutine.all.filter fun s => 0 < level.capacities.get s
  ", ".intercalate (usable.map fun s => s.label ++ " holds " ++ toString (level.capacities.get s))

/-- The start pose and the room in each subroutine. -/
def summary (level : Level) : String :=
  let x := level.start.x.toNat
  let y := level.start.y.toNat
  let facing := level.start.direction.label
  let room := level.roomSummary
  s!"Start at ({x}, {y}) facing {facing}; {room}."

end Level

end TileWalk
