import TileWalk.Level.Frame
import TileWalk.Proofs.Text.Padding

/-!
What a frame shows, and what can be read off it. A frame is the drawing of its level, cell by cell,
with the cursor over the tile it is on (`frameLines_eq_drawing`). So the cursor can be found in the
text again, by counting the glyphs and line breaks before it, and frames without a cursor differ
where their levels do (`frame_shows_level_and_cursor`).
-/

namespace TileWalk

theorem Tile.glyph_ne_break (t : Tile) : t.glyph ≠ '\n' := by
  rcases t with _ | (_ | _ | _ | _) | _ <;> decide

theorem Direction.glyph_ne_break (d : Direction) : d.glyph ≠ '\n' := by
  cases d <;> decide

namespace Frame

/-- The lines that show a glyph in each cell of a box. -/
def drawing (height width : Nat) (glyph : Nat → Nat → Char) : List (List Char) :=
  (List.range height).map fun row => (List.range width).map (glyph row)

/-- The text of some lines, a line break after each. -/
def text (lines : List (List Char)) : String :=
  String.ofList (lines.flatMap (· ++ ['\n']))

/-! ### Drawings -/

section Drawing

variable {height width : Nat} {glyph glyph' : Nat → Nat → Char}

@[simp] theorem length_drawing : (drawing height width glyph).length = height := by
  simp [drawing]

theorem getElem_drawing {row : Nat} (h : row < (drawing height width glyph).length) :
    (drawing height width glyph)[row] = (List.range width).map (glyph row) := by
  simp [drawing]

theorem drawing_congr
    (h : ∀ row < height, ∀ column < width, glyph row column = glyph' row column) :
    drawing height width glyph = drawing height width glyph' :=
  List.map_congr_left fun row hrow => List.map_congr_left fun column hcolumn =>
    h row (List.mem_range.mp hrow) column (List.mem_range.mp hcolumn)

/-- A drawing tells its height, its width if there is any row, and every glyph. -/
theorem drawing_inj {height' width' : Nat} :
    drawing height width glyph = drawing height' width' glyph' ↔
      height = height' ∧ (0 < height → width = width') ∧
        ∀ row < height, ∀ column < width, glyph row column = glyph' row column := by
  constructor
  · intro h
    obtain rfl : height = height' := by simpa using congrArg List.length h
    have hrow : ∀ row < height,
        (List.range width).map (glyph row) = (List.range width').map (glyph' row) := by
      intro row hrow
      have hget := List.getElem_of_eq h (i := row) (by simpa using hrow)
      rwa [getElem_drawing, getElem_drawing] at hget
    refine ⟨rfl, fun hpos => ?_, fun row h column hcolumn => ?_⟩
    · simpa using congrArg List.length (hrow 0 hpos)
    · have hget := List.getElem_of_eq (hrow row h) (i := column) (by simpa using hcolumn)
      simpa using hget
  · rintro ⟨rfl, hwidth, hglyph⟩
    -- without a row nothing tells the width, and there is nothing to draw
    rcases Nat.eq_zero_or_pos height with rfl | hpos
    · rfl
    · rw [← hwidth hpos]
      exact drawing_congr hglyph

end Drawing

/-! ### Lines of a text -/

variable {lines lines' : List (List Char)} {line : List Char} {row column : Nat}

theorem splitOn_lines (h : ∀ line ∈ lines, '\n' ∉ line) :
    (lines.flatMap (· ++ ['\n'])).splitOn '\n' = lines ++ [[]] := by
  induction lines with
  | nil => rfl
  | cons line lines ih =>
    rw [List.flatMap_cons, List.append_assoc, List.singleton_append, Text.splitOn_append_cons,
      List.splitOn_eq_singleton (h line List.mem_cons_self),
      ih fun other hother => h other (List.mem_cons_of_mem _ hother)]
    rfl

theorem text_inj (h : ∀ line ∈ lines, '\n' ∉ line) (h' : ∀ line ∈ lines', '\n' ∉ line) :
    text lines = text lines' ↔ lines = lines' := by
  refine ⟨fun heq => ?_, fun heq => heq ▸ rfl⟩
  have hsplit := congrArg (List.splitOn '\n') (String.ofList_inj.mp heq)
  rw [splitOn_lines h, splitOn_lines h'] at hsplit
  exact List.append_cancel_right hsplit

/-! ### Finding the cursor -/

/-- The direction of a cursor that looks like this. -/
def direction? (glyph : Char) : Option Direction :=
  Direction.all.find? fun d => d.glyph = glyph

/-- The first cursor in some characters, of which the first is in this row and column. -/
def cursorFrom (row column : Nat) : List Char → Option Cursor
  | [] => none
  | glyph :: glyphs =>
    match direction? glyph with
    | some d => some ⟨.ofNat column, .ofNat row, d⟩
    | none =>
      if glyph = '\n' then cursorFrom (row + 1) 0 glyphs else cursorFrom row (column + 1) glyphs

/-- The cursor that a frame shows, if there is any. -/
def cursor? (text : String) : Option Cursor := cursorFrom 0 0 text.toList

@[simp] theorem direction?_glyph (d : Direction) : direction? d.glyph = some d := by
  cases d <;> decide

@[simp] theorem direction?_glyph_tile (t : Tile) : direction? t.glyph = none := by
  rcases t with _ | (_ | _ | _ | _) | _ <;> decide

/-- The line shows tiles and nothing else. -/
def Bare (line : List Char) : Prop := ∀ glyph ∈ line, ∃ t : Tile, glyph = t.glyph

theorem cursorFrom_append (h : Bare line) (rest : List Char) :
    cursorFrom row column (line ++ rest) = cursorFrom row (column + line.length) rest := by
  induction line generalizing column with
  | nil => rfl
  | cons glyph line ih =>
    obtain ⟨t, rfl⟩ := h glyph List.mem_cons_self
    rw [List.cons_append, cursorFrom, direction?_glyph_tile]
    dsimp only
    rw [if_neg t.glyph_ne_break, ih fun g hg => h g (List.mem_cons_of_mem _ hg),
      List.length_cons, Nat.add_assoc, Nat.add_comm 1]

theorem cursorFrom_lines (h : ∀ line ∈ lines, Bare line) (rest : List Char) :
    cursorFrom row 0 (lines.flatMap (· ++ ['\n']) ++ rest) =
      cursorFrom (row + lines.length) 0 rest := by
  induction lines generalizing row with
  | nil => rfl
  | cons line lines ih =>
    rw [List.flatMap_cons, List.append_assoc, List.append_assoc,
      cursorFrom_append (h line List.mem_cons_self), List.singleton_append, cursorFrom]
    show cursorFrom (row + 1) 0 _ = _
    rw [ih fun other hother => h other (List.mem_cons_of_mem _ hother), List.length_cons,
      Nat.add_assoc, Nat.add_comm 1]

theorem cursor?_of_bare (h : ∀ line ∈ lines, Bare line) : cursor? (text lines) = none := by
  have hnone : cursorFrom 0 0 _ = _ := cursorFrom_lines h []
  rw [List.append_nil] at hnone
  rw [cursor?, text, String.toList_ofList, hnone]
  rfl

/-- Where all before it is bare the cursor is found. -/
theorem cursor?_of_shown {above below : List (List Char)} {before after : List Char} {c : Cursor}
    (habove : ∀ line ∈ above, Bare line) (hbefore : Bare before)
    (hrow : above.length = c.y.toNat) (hcolumn : before.length = c.x.toNat) :
    cursor? (text (above ++ (before ++ c.direction.glyph :: after) :: below)) = some c := by
  rw [cursor?, text, String.toList_ofList, List.flatMap_append, cursorFrom_lines habove,
    List.flatMap_cons, List.append_assoc, List.append_assoc, cursorFrom_append hbefore,
    List.cons_append, cursorFrom, direction?_glyph, hrow, hcolumn]
  simp

theorem exists_range_eq {i n : Nat} (h : i < n) :
    ∃ later, List.range n = List.range i ++ i :: later := by
  obtain ⟨k, rfl⟩ := Nat.exists_eq_add_of_lt h
  refine ⟨((List.range k).map Nat.succ).map (i + ·), ?_⟩
  rw [Nat.add_assoc, List.range_add, List.range_succ_eq_map, List.map_cons, Nat.add_zero]

theorem bare_map {columns : List Nat} {glyph : Nat → Char}
    (h : ∀ column ∈ columns, ∃ t : Tile, glyph column = t.glyph) : Bare (columns.map glyph) := by
  intro g hg
  obtain ⟨column, hcolumn, rfl⟩ := List.mem_map.mp hg
  exact h column hcolumn

/-- A cursor that stands alone among tiles is found. -/
theorem cursor?_drawing {height width : Nat} {glyph : Nat → Nat → Char} {c : Cursor}
    (hrow : c.y.toNat < height) (hcolumn : c.x.toNat < width)
    (hhere : glyph c.y.toNat c.x.toNat = c.direction.glyph)
    (helsewhere : ∀ row column, ¬(c.x.toNat = column ∧ c.y.toNat = row) →
      ∃ t : Tile, glyph row column = t.glyph) :
    cursor? (text (drawing height width glyph)) = some c := by
  obtain ⟨below, hbelow⟩ := exists_range_eq hrow
  obtain ⟨after, hafter⟩ := exists_range_eq hcolumn
  have hline : (List.range width).map (glyph c.y.toNat) =
      (List.range c.x.toNat).map (glyph c.y.toNat) ++
        c.direction.glyph :: after.map (glyph c.y.toNat) := by
    rw [hafter, List.map_append, List.map_cons, hhere]
  rw [drawing, hbelow, List.map_append, List.map_cons, hline]
  -- only tiles are shown in the lines above and in the cells before
  refine cursor?_of_shown (fun line hline => ?_) (bare_map fun column hcolumn => ?_) ?_ ?_
  · obtain ⟨row, hrow, rfl⟩ := List.mem_map.mp hline
    have hlt := List.mem_range.mp hrow
    exact bare_map fun column _ => helsewhere row column (by omega)
  · have hlt := List.mem_range.mp hcolumn
    exact helsewhere _ column (by omega)
  · rw [List.length_map, List.length_range]
  · rw [List.length_map, List.length_range]

end Frame

namespace Level

variable {level : Level} {cursor : Option Cursor} {tiles : List Tile} {row column : Nat}

/-- The cursor is in the box that a frame of the level shows. -/
def Covers (level : Level) (c : Cursor) : Prop :=
  c.x.toNat < level.width ∧ c.y.toNat < level.height

instance (level : Level) (c : Cursor) : Decidable (level.Covers c) :=
  inferInstanceAs (Decidable (_ ∧ _))

/-- What a frame is to show in a cell: the cursor if it is there, and otherwise the tile. -/
def shown (level : Level) (cursor : Option Cursor) (row column : Nat) : Char :=
  match cursor.filter fun c => c.x.toNat = column ∧ c.y.toNat = row with
  | some c => c.direction.glyph
  | none => (level.tile (.ofNat column) (.ofNat row)).glyph

theorem length_paddedRow (h : tiles ∈ level.grid) :
    (level.paddedRow tiles).length = level.width := by
  have hle := length_le_width h
  rw [paddedRow, List.length_append, List.length_replicate]
  omega

/-- Padding agrees with what lies outside the rows. -/
theorem getElem_paddedRow (h : level.grid[row]? = some tiles)
    (hcolumn : column < (level.paddedRow tiles).length) :
    (level.paddedRow tiles)[column] = level.cell row column := by
  rw [cell, h, Option.bind_some]
  by_cases hinside : column < tiles.length
  · rw [List.getElem?_eq_getElem hinside, Option.getD_some]
    exact List.getElem_append_left hinside
  · have houtside : tiles[column]? = none := List.getElem?_eq_none (by omega)
    simp only [paddedRow]
    rw [houtside, Option.getD_none, List.getElem_append_right (by omega), List.getElem_replicate]

theorem frameLines_eq_drawing (level : Level) (cursor : Option Cursor) :
    level.frameLines cursor = Frame.drawing level.height level.width fun row column =>
      glyphOver cursor row column (level.cell row column) := by
  refine List.ext_getElem (by simp) fun row hrow _ => ?_
  have hgrid : row < level.grid.length := by simpa [height] using hrow
  have hline : (level.frameLines cursor)[row] =
      (level.paddedRow level.grid[row]).mapIdx (glyphOver cursor row) := by
    simp [frameLines]
  have hlength := length_paddedRow (List.getElem_mem hgrid)
  rw [hline, Frame.getElem_drawing]
  refine List.ext_getElem (by simp [hlength]) fun column hcolumn _ => ?_
  rw [List.getElem_mapIdx, getElem_paddedRow (List.getElem?_eq_getElem hgrid), List.getElem_map,
    List.getElem_range]

theorem frame_eq_text (level : Level) (cursor : Option Cursor) :
    level.frame cursor = Frame.text (level.frameLines cursor) := rfl

theorem shown_eq (hrow : row < 4294967296) (hcolumn : column < 4294967296) :
    level.shown cursor row column = glyphOver cursor row column (level.cell row column) := by
  have htile : level.tile (.ofNat column) (.ofNat row) = level.cell row column := by
    rw [tile, UInt32.toNat_ofNat_of_lt' hrow, UInt32.toNat_ofNat_of_lt' hcolumn]
  rw [shown, htile]
  cases cursor with
  | none => rfl
  | some c =>
    rw [Option.filter_some]
    by_cases hhere : c.x.toNat = column ∧ c.y.toNat = row
    · rw [if_pos (by simpa using hhere)]
      exact (if_pos hhere).symm
    · rw [if_neg (by simpa using hhere)]
      exact (if_neg hhere).symm

/-- A cell without the cursor shows its tile. -/
theorem glyphOver_of_ne {c : Cursor} (h : ¬(c.x.toNat = column ∧ c.y.toNat = row)) (t : Tile) :
    glyphOver (some c) row column t = t.glyph := if_neg h

theorem break_not_mem_frameLines : ∀ line ∈ level.frameLines cursor, '\n' ∉ line := by
  rw [frameLines_eq_drawing]
  intro line hline hbreak
  obtain ⟨row, -, rfl⟩ := List.mem_map.mp hline
  obtain ⟨column, -, hglyph⟩ := List.mem_map.mp hbreak
  cases cursor with
  | none => exact Tile.glyph_ne_break _ hglyph
  | some c =>
    by_cases hhere : c.x.toNat = column ∧ c.y.toNat = row
    · exact Direction.glyph_ne_break _ ((if_pos hhere).symm.trans hglyph)
    · exact Tile.glyph_ne_break _ ((glyphOver_of_ne hhere _).symm.trans hglyph)

theorem frame_inj {other : Level} {cursor' : Option Cursor} :
    level.frame cursor = other.frame cursor' ↔
      level.frameLines cursor = other.frameLines cursor' :=
  Frame.text_inj break_not_mem_frameLines break_not_mem_frameLines

theorem frame_of_not_covers {c : Cursor} (h : ¬level.Covers c) :
    level.frame (some c) = level.frame none := by
  rw [frame_inj, frameLines_eq_drawing, frameLines_eq_drawing]
  refine Frame.drawing_congr fun row hrow column hcolumn => glyphOver_of_ne ?_ _
  rintro ⟨rfl, rfl⟩
  exact h ⟨hcolumn, hrow⟩

theorem cursor?_frame_of_covers {c : Cursor} (h : level.Covers c) :
    Frame.cursor? (level.frame (some c)) = some c := by
  rw [frame_eq_text, frameLines_eq_drawing]
  refine Frame.cursor?_drawing h.2 h.1 (if_pos ⟨rfl, rfl⟩) fun row column helsewhere => ?_
  exact ⟨_, glyphOver_of_ne helsewhere _⟩

theorem cursor?_frame_none (level : Level) : Frame.cursor? (level.frame none) = none := by
  rw [frame_eq_text, frameLines_eq_drawing]
  refine Frame.cursor?_of_bare fun line hline => ?_
  obtain ⟨row, -, rfl⟩ := List.mem_map.mp hline
  exact Frame.bare_map fun column _ => ⟨_, rfl⟩

theorem width_of_height_eq_zero (h : level.height = 0) : level.width = 0 := by
  rw [width, List.length_eq_zero_iff.mp h]
  rfl

/-- Frames without a cursor tell the box and every tile in it. -/
theorem frame_none_inj {other : Level} :
    level.frame none = other.frame none ↔
      level.height = other.height ∧ level.width = other.width ∧
        ∀ row < level.height, ∀ column < level.width,
          level.cell row column = other.cell row column := by
  rw [frame_inj, frameLines_eq_drawing, frameLines_eq_drawing, Frame.drawing_inj]
  refine and_congr_right fun hheight => and_congr ⟨fun hwidth => ?_, fun hwidth _ => hwidth⟩ ?_
  · rcases Nat.eq_zero_or_pos level.height with hzero | hpos
    · rw [width_of_height_eq_zero hzero, width_of_height_eq_zero (hheight ▸ hzero)]
    · exact hwidth hpos
  · refine forall₄_congr fun row _ column _ => ⟨Tile.glyph_injective, congrArg Tile.glyph⟩

/-- What two levels of one box have in each of its cells they have everywhere. -/
theorem tile_eq_iff {other : Level} (hheight : level.height = other.height)
    (hwidth : level.width = other.width) (hrows : level.height ≤ 4294967296)
    (hcolumns : level.width ≤ 4294967296) :
    (∀ x y, level.tile x y = other.tile x y) ↔
      ∀ row < level.height, ∀ column < level.width,
        level.cell row column = other.cell row column := by
  constructor
  · intro h row hrow column hcolumn
    have htile := h (.ofNat column) (.ofNat row)
    rwa [tile, tile, UInt32.toNat_ofNat_of_lt' (by show _ < 4294967296; omega),
      UInt32.toNat_ofNat_of_lt' (by show _ < 4294967296; omega)] at htile
  · intro h x y
    by_cases hrow : y.toNat < level.height
    · by_cases hcolumn : x.toNat < level.width
      · exact h _ hrow _ hcolumn
      · rw [tile, tile, cell_of_width_le (by omega), cell_of_width_le (by omega)]
    · rw [tile, tile, cell_of_height_le (by omega), cell_of_height_le (by omega)]

/-- A frame of a level whose cells all have coordinates is the drawing of the box of the level, with
the cursor in its cell and the tile in every other one. So a cursor outside the box makes no
difference, one inside is found in the text where it is, and two levels have the same frame without
a cursor exactly if they have the same box and the same tile everywhere. -/
theorem frame_shows_level_and_cursor (hwidth : level.width ≤ 4294967296)
    (hheight : level.height ≤ 4294967296) :
    (∀ cursor, (∀ row column, level.shown cursor row column ≠ '\n') ∧ level.frame cursor =
        Frame.text (Frame.drawing level.height level.width (level.shown cursor))) ∧
      (∀ c, ¬level.Covers c → level.frame (some c) = level.frame none) ∧
      (∀ c, level.Covers c → Frame.cursor? (level.frame (some c)) = some c) ∧
      Frame.cursor? (level.frame none) = none ∧
      ∀ other : Level, other.width ≤ 4294967296 → other.height ≤ 4294967296 →
        (level.frame none = other.frame none ↔
          level.width = other.width ∧ level.height = other.height ∧
            ∀ x y, level.tile x y = other.tile x y) := by
  refine ⟨fun cursor => ⟨fun row column => ?_, ?_⟩, fun c => frame_of_not_covers,
    fun c => cursor?_frame_of_covers, level.cursor?_frame_none, fun other _ _ => ?_⟩
  · unfold shown
    split
    · exact Direction.glyph_ne_break _
    · exact Tile.glyph_ne_break _
  · rw [frame_eq_text, frameLines_eq_drawing]
    refine congrArg Frame.text (Frame.drawing_congr fun row hrow column hcolumn => ?_)
    exact (shown_eq (by omega) (by omega)).symm
  · rw [frame_none_inj]
    constructor
    · rintro ⟨hrows, hcolumns, hcells⟩
      exact ⟨hcolumns, hrows, (tile_eq_iff hrows hcolumns hheight hwidth).mpr hcells⟩
    · rintro ⟨hcolumns, hrows, htiles⟩
      exact ⟨hrows, hcolumns, (tile_eq_iff hrows hcolumns hheight hwidth).mp htiles⟩

/-- A level with a short row and an empty one. -/
def ragged : Level :=
  ⟨[[.path .red, .path .blue], [.goal], []], ⟨0, 0, .up⟩, .const 1, .const true, "three rows"⟩

/-- The cursor is seen on the padding of an empty row, and no longer where it leaves the box. -/
theorem ragged_shows_cursor_on_padding :
    ragged.width ≤ 4294967296 ∧ ragged.height ≤ 4294967296 ∧
      ragged.frame (some ⟨1, 2, .left⟩) = "rb\n*#\n#<\n" ∧
      Frame.cursor? "rb\n*#\n#<\n" = some ⟨1, 2, .left⟩ ∧
      ragged.frame (some ⟨2, 2, .left⟩) = ragged.frame none ∧
      ragged.frame none ≠
        { ragged with grid := [[.path .red, .path .blue], [.goal]] }.frame none := by
  have hwidth : ragged.width ≤ 4294967296 := by decide
  have hheight : ragged.height ≤ 4294967296 := by decide
  obtain ⟨-, houtside, hinside, -, hlevels⟩ := frame_shows_level_and_cursor hwidth hheight
  have hframe : ragged.frame (some ⟨1, 2, .left⟩) = "rb\n*#\n#<\n" := by decide
  refine ⟨hwidth, hheight, hframe, ?_, houtside _ (by decide), fun hsame => ?_⟩
  · rw [← hframe]
    exact hinside _ (by decide)
  · have hbox := (hlevels _ (by decide) (by decide)).mp hsame
    exact absurd hbox.2.1 (by decide)

end Level

end TileWalk
