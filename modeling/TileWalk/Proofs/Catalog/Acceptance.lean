import TileWalk.Catalog.Builtin
import TileWalk.Proofs.Script.Grammar

/-!
Which documents make a catalog. `Document.WellFormed` says what is asked of a document, cell by cell
and name by name, `Entry.Describes` what level an entry stands for, and `Document.FirstDefect` which
defect comes first in a document that is not well-formed. Exactly the well-formed documents make a
catalog, with the levels that their entries describe, and of any other the first defect is reported
(`accepts_wellFormed_or_tells_first_defect`).
-/

namespace TileWalk.Catalog

open TileWalk.Reading

/-! ### What is asked of a document -/

/-- The code stands for a tile. -/
def KnownCode (code : Nat) : Prop := ∃ tile : Tile, tile.code = code

/-- The name is that of a subroutine, in capital or small letters and between blanks. -/
def NamesSubroutine (name : String) : Prop := ∃ s : Subroutine, Text.Means s.label name.toList

namespace Entry

/-- The codes of the cells, row by row and each row from left to right. -/
def codes (entry : Entry) : List Nat := entry.rows.flatten

/-- The code of a cell, if the rows have the cell. -/
def code? (entry : Entry) (row column : Nat) : Option Nat :=
  (entry.rows[row]?).bind fun codes => codes[column]?

/-- The listed names of subroutines; none without a list. -/
def names (entry : Entry) : List String := entry.callable.getD []

structure WellFormed (entry : Entry) : Prop where
  codes : ∀ code ∈ entry.codes, KnownCode code
  capacities : entry.capacities.length ≤ 3
  names : ∀ name ∈ entry.names, NamesSubroutine name

/-- The level is the one that the entry stands for. -/
structure Describes (entry : Entry) (level : Level) : Prop where
  tile : ∀ (x y : UInt32) (code : Nat),
    entry.code? y.toNat x.toNat = some code → (level.tile x y).code = code
  void : ∀ x y : UInt32, entry.code? y.toNat x.toNat = none → level.tile x y = .void
  capacities : ∀ s, level.capacities.get s = entry.capacities[s.index]?.getD 0
  enabled : ∀ s, level.enabled.get s = true ↔
    entry.callable = none ∨ ∃ name ∈ entry.names, Text.Means s.label name.toList
  start : level.start = entry.start
  description : level.description = entry.description

/-- The defect is the first one that the entry has by itself. -/
inductive FirstDefect (entry : Entry) : Defect → Prop
  | tile {before after : List Nat} {code : Nat} (hcodes : entry.codes = before ++ code :: after)
      (hbefore : ∀ c ∈ before, KnownCode c) (hcode : ¬KnownCode code) :
      FirstDefect entry (.tile entry.key code)
  | capacities (hcodes : ∀ code ∈ entry.codes, KnownCode code)
      (hcount : 3 < entry.capacities.length) :
      FirstDefect entry (.capacities entry.key entry.capacities.length)
  | subroutine {before after : List String} {name : String}
      (hcodes : ∀ code ∈ entry.codes, KnownCode code) (hcount : entry.capacities.length ≤ 3)
      (hnames : entry.names = before ++ name :: after)
      (hbefore : ∀ n ∈ before, NamesSubroutine n) (hname : ¬NamesSubroutine name) :
      FirstDefect entry (.subroutine entry.key name)

end Entry

/-- Entries with different keys, each of them well-formed. -/
structure WellFormedEntries (entries : List Entry) : Prop where
  keys : (entries.map Entry.key).Nodup
  each : ∀ entry ∈ entries, entry.WellFormed

namespace Document

structure WellFormed (document : Document) : Prop where
  version : document.version = 1
  levels : WellFormedEntries document.levels

/-- The defect is the first one of the document: that of its version, or of the first entry that has
any. To have the key of an entry before comes first. -/
inductive FirstDefect (document : Document) : Defect → Prop
  | version (hversion : document.version ≠ 1) : FirstDefect document (.version document.version)
  | repeatedKey {earlier later : List Entry} {entry : Entry} (hversion : document.version = 1)
      (hlevels : document.levels = earlier ++ entry :: later) (hearlier : WellFormedEntries earlier)
      (hkey : entry.key ∈ earlier.map Entry.key) : FirstDefect document (.repeatedKey entry.key)
  | entry {earlier later : List Entry} {entry : Entry} {defect : Defect}
      (hversion : document.version = 1) (hlevels : document.levels = earlier ++ entry :: later)
      (hearlier : WellFormedEntries earlier) (hkey : entry.key ∉ earlier.map Entry.key)
      (hdefect : entry.FirstDefect defect) : FirstDefect document defect

end Document

/-! ### Cells and names -/

variable {key name : String} {code : Nat} {tile : Tile} {s : Subroutine} {defect : Defect}

theorem readTile_eq_ok_iff : readTile key code = .ok tile ↔ tile.code = code := by
  unfold readTile
  constructor
  · intro h
    split at h
    · next found hfound =>
      obtain rfl := Except.ok.inj h
      exact Tile.code_of_ofCode? hfound
    · contradiction
  · rintro rfl
    rw [Tile.ofCode?_code]

theorem exists_readTile_iff : (∃ tile, readTile key code = .ok tile) ↔ KnownCode code := by
  simp only [readTile_eq_ok_iff, KnownCode]

theorem readTile_eq_error_iff :
    readTile key code = .error defect ↔ ¬KnownCode code ∧ .tile key code = defect := by
  rw [← @exists_readTile_iff key, readTile]
  cases Tile.ofCode? code <;> simp

theorem readSubroutine_eq_ok_iff :
    readSubroutine key name = .ok s ↔ Text.Means s.label name.toList := by
  rw [← Subroutine.ofLabel?_eq_some_iff, readSubroutine]
  cases Subroutine.ofLabel? name <;> simp

theorem exists_readSubroutine_iff :
    (∃ s, readSubroutine key name = .ok s) ↔ NamesSubroutine name := by
  simp only [readSubroutine_eq_ok_iff, NamesSubroutine]

theorem readSubroutine_eq_error_iff :
    readSubroutine key name = .error defect ↔
      ¬NamesSubroutine name ∧ .subroutine key name = defect := by
  rw [← @exists_readSubroutine_iff key, readSubroutine]
  cases Subroutine.ofLabel? name <;> simp

/-! ### Entries -/

namespace Entry

variable {entry : Entry} {grid : List (List Tile)} {capacities : Slots Nat} {enabled : Slots Bool}
  {level : Level} {taken : List String}

/-- The tiles of the cells. -/
def readGrid (entry : Entry) : Except Defect (List (List Tile)) :=
  entry.rows.mapM fun row => row.mapM (readTile entry.key)

theorem level_eq (entry : Entry) :
    entry.level = entry.readGrid >>= fun grid =>
      readCapacities entry.key entry.capacities >>= fun capacities =>
        readEnabled entry.key entry.callable >>= fun enabled =>
          pure ⟨grid, entry.start, capacities, enabled, entry.description⟩ := rfl

theorem readGrid_eq_ok_iff :
    entry.readGrid = .ok grid ↔ grid.map (fun tiles => tiles.map Tile.code) = entry.rows :=
  mapM_eq_ok_iff_map_eq fun _ _ => mapM_eq_ok_iff_map_eq fun _ _ => readTile_eq_ok_iff

theorem exists_readGrid_iff :
    (∃ grid, entry.readGrid = .ok grid) ↔ ∀ code ∈ entry.codes, KnownCode code := by
  simp only [readGrid, exists_mapM_iff, exists_readTile_iff, codes, List.mem_flatten]
  exact ⟨fun h code ⟨row, hrow, hcode⟩ => h row hrow code hcode,
    fun h row hrow code hcode => h code ⟨row, hrow, hcode⟩⟩

theorem readGrid_eq_error_iff :
    entry.readGrid = .error defect ↔
      ∃ before code after, entry.codes = before ++ code :: after ∧
        (∀ c ∈ before, KnownCode c) ∧ ¬KnownCode code ∧ .tile entry.key code = defect := by
  rw [readGrid, mapM_mapM_eq_error_iff, mapM_eq_error_iff]
  simp only [exists_readTile_iff, readTile_eq_error_iff]
  rfl

theorem code?_eq_map (h : entry.readGrid = .ok grid) (row column : Nat) :
    entry.code? row column =
      ((grid[row]?).bind fun tiles => tiles[column]?).map Tile.code := by
  rw [code?, ← readGrid_eq_ok_iff.mp h, List.getElem?_map]
  cases grid[row]? with
  | none => rfl
  | some tiles => exact List.getElem?_map

theorem readCapacities_eq_ok_iff {counts : List Nat} :
    readCapacities key counts = .ok capacities ↔
      counts.length ≤ 3 ∧ ∀ s, capacities.get s = counts[s.index]?.getD 0 := by
  unfold readCapacities
  split
  · next h => simp [Nat.not_le.mpr h]
  · next h =>
    rw [Except.ok.injEq]
    constructor
    · rintro rfl
      exact ⟨Nat.le_of_not_lt h, fun s => Slots.get_ofFn _ s⟩
    · rintro ⟨-, hget⟩
      exact Slots.ext_get fun s => (Slots.get_ofFn _ s).trans (hget s).symm

theorem readCapacities_eq_error_iff {counts : List Nat} :
    readCapacities key counts = .error defect ↔
      3 < counts.length ∧ .capacities key counts.length = defect := by
  unfold readCapacities
  split <;> simp [*]

theorem enabled_of_readEnabled (h : readEnabled entry.key entry.callable = .ok enabled)
    (s : Subroutine) :
    enabled.get s = true ↔
      entry.callable = none ∨ ∃ name ∈ entry.names, Text.Means s.label name.toList := by
  cases hcallable : entry.callable with
  | none =>
    rw [hcallable] at h
    obtain rfl := Except.ok.inj h
    simp
  | some names =>
    rw [hcallable] at h
    obtain ⟨subs, hsubs, hget⟩ := bind_eq_ok_iff.mp h
    obtain rfl := Except.ok.inj hget
    simp [Entry.names, hcallable, mem_of_mapM_eq_ok hsubs, readSubroutine_eq_ok_iff]

theorem readEnabled_eq_error_iff :
    readEnabled entry.key entry.callable = .error defect ↔
      ∃ before name after, entry.names = before ++ name :: after ∧
        (∀ n ∈ before, NamesSubroutine n) ∧ ¬NamesSubroutine name ∧
          .subroutine entry.key name = defect := by
  cases hcallable : entry.callable with
  | none => simp [readEnabled, names, hcallable]
  | some names =>
    simp only [readEnabled, bind_eq_error_iff, pure_ne_error, and_false, exists_false, or_false,
      mapM_eq_error_iff, exists_readSubroutine_iff, readSubroutine_eq_error_iff]
    simp [Entry.names, hcallable]

theorem exists_readCapacities_iff {counts : List Nat} :
    (∃ capacities, readCapacities key counts = .ok capacities) ↔ counts.length ≤ 3 := by
  simp only [readCapacities_eq_ok_iff]
  exact ⟨fun ⟨_, hlength, _⟩ => hlength,
    fun hlength => ⟨.ofFn fun s => counts[s.index]?.getD 0, hlength, Slots.get_ofFn _⟩⟩

theorem exists_readEnabled_iff :
    (∃ enabled, readEnabled entry.key entry.callable = .ok enabled) ↔
      ∀ name ∈ entry.names, NamesSubroutine name := by
  cases hcallable : entry.callable with
  | none => simp [readEnabled, names, hcallable]
  | some names =>
    have hnames : entry.names = names := by simp [Entry.names, hcallable]
    rw [hnames, ← exists_mapM_iff.trans (forall₂_congr fun _ _ => exists_readSubroutine_iff)]
    simp only [readEnabled, bind_eq_ok_iff]
    exact ⟨fun ⟨_, subs, hsubs, _⟩ => ⟨subs, hsubs⟩, fun ⟨subs, hsubs⟩ => ⟨_, subs, hsubs, rfl⟩⟩

theorem exists_level_iff : (∃ level, entry.level = .ok level) ↔ entry.WellFormed := by
  simp only [level_eq, bind_eq_ok_iff]
  constructor
  · rintro ⟨_, grid, hgrid, capacities, hcapacities, enabled, henabled, -⟩
    exact ⟨exists_readGrid_iff.mp ⟨grid, hgrid⟩, exists_readCapacities_iff.mp ⟨_, hcapacities⟩,
      exists_readEnabled_iff.mp ⟨_, henabled⟩⟩
  · intro h
    obtain ⟨grid, hgrid⟩ := exists_readGrid_iff.mpr h.codes
    obtain ⟨capacities, hcapacities⟩ := (@exists_readCapacities_iff entry.key _).mpr h.capacities
    obtain ⟨enabled, henabled⟩ := exists_readEnabled_iff.mpr h.names
    exact ⟨_, grid, hgrid, capacities, hcapacities, enabled, henabled, rfl⟩

theorem describes_of_level (h : entry.level = .ok level) : entry.Describes level := by
  simp only [level_eq, bind_eq_ok_iff] at h
  obtain ⟨grid, hgrid, capacities, hcapacities, enabled, henabled, hlevel⟩ := h
  obtain rfl := Except.ok.inj hlevel
  have hcode := code?_eq_map hgrid
  refine ⟨fun x y code hsome => ?_, fun x y hnone => ?_,
    (readCapacities_eq_ok_iff.mp hcapacities).2, enabled_of_readEnabled henabled, rfl, rfl⟩
  · rw [hcode] at hsome
    obtain ⟨tile, htile, rfl⟩ := Option.map_eq_some_iff.mp hsome
    simp only [Level.tile, Level.cell, htile, Option.getD_some]
  · rw [hcode] at hnone
    simp only [Level.tile, Level.cell, Option.map_eq_none_iff.mp hnone, Option.getD_none]

theorem level_eq_error_iff : entry.level = .error defect ↔ entry.FirstDefect defect := by
  simp only [level_eq, bind_eq_error_iff, pure_ne_error, and_false, exists_false, or_false]
  constructor
  · rintro (h | ⟨grid, hgrid, h | ⟨capacities, hcapacities, h⟩⟩)
    · obtain ⟨before, code, after, hcodes, hbefore, hcode, rfl⟩ := readGrid_eq_error_iff.mp h
      exact .tile hcodes hbefore hcode
    · obtain ⟨hcount, rfl⟩ := readCapacities_eq_error_iff.mp h
      exact .capacities (exists_readGrid_iff.mp ⟨grid, hgrid⟩) hcount
    · obtain ⟨before, name, after, hnames, hbefore, hname, rfl⟩ := readEnabled_eq_error_iff.mp h
      exact .subroutine (exists_readGrid_iff.mp ⟨grid, hgrid⟩)
        (exists_readCapacities_iff.mp ⟨capacities, hcapacities⟩) hnames hbefore hname
  · intro h
    cases h with
    | tile hcodes hbefore hcode =>
      exact .inl (readGrid_eq_error_iff.mpr ⟨_, _, _, hcodes, hbefore, hcode, rfl⟩)
    | capacities hcodes hcount =>
      obtain ⟨grid, hgrid⟩ := exists_readGrid_iff.mpr hcodes
      exact .inr ⟨grid, hgrid, .inl (readCapacities_eq_error_iff.mpr ⟨hcount, rfl⟩)⟩
    | subroutine hcodes hcount hnames hbefore hname =>
      obtain ⟨grid, hgrid⟩ := exists_readGrid_iff.mpr hcodes
      obtain ⟨capacities, hcapacities⟩ := exists_readCapacities_iff.mpr hcount
      exact .inr ⟨grid, hgrid, .inr ⟨capacities, hcapacities,
        readEnabled_eq_error_iff.mpr ⟨_, _, _, hnames, hbefore, hname, rfl⟩⟩⟩

/-- The level of an entry with its key, if the key is not taken. -/
def named (taken : List String) (entry : Entry) : Except Defect (String × Level) :=
  if entry.key ∈ taken then .error (.repeatedKey entry.key)
  else entry.level >>= fun level => pure (entry.key, level)

theorem named_eq_ok_iff {entered : String × Level} :
    entry.named taken = .ok entered ↔
      entry.key ∉ taken ∧ entered.1 = entry.key ∧ entry.level = .ok entered.2 := by
  unfold named
  split
  · next hkey => simp [hkey]
  · next hkey =>
    rw [bind_eq_ok_iff]
    constructor
    · rintro ⟨level, hlevel, h⟩
      obtain rfl := Except.ok.inj h
      exact ⟨hkey, rfl, hlevel⟩
    · rintro ⟨-, hname, hlevel⟩
      exact ⟨entered.2, hlevel, congrArg Except.ok (Prod.ext hname.symm rfl)⟩

theorem exists_named_iff :
    (∃ entered, entry.named taken = .ok entered) ↔ entry.key ∉ taken ∧ entry.WellFormed := by
  simp only [named_eq_ok_iff, ← exists_level_iff]
  constructor
  · rintro ⟨entered, hkey, -, hlevel⟩
    exact ⟨hkey, entered.2, hlevel⟩
  · rintro ⟨hkey, level, hlevel⟩
    exact ⟨(entry.key, level), hkey, rfl, hlevel⟩

theorem named_eq_error_iff :
    entry.named taken = .error defect ↔
      (entry.key ∈ taken ∧ .repeatedKey entry.key = defect) ∨
        (entry.key ∉ taken ∧ entry.FirstDefect defect) := by
  rw [← level_eq_error_iff]
  unfold named
  split
  · next hkey => simp [hkey]
  · next hkey =>
    simp only [bind_eq_error_iff, pure_ne_error, and_false, exists_false, or_false, hkey, false_and,
      false_or, not_false_eq_true, true_and]

end Entry

/-! ### Documents -/

variable {entry : Entry} {entries : List Entry} {taken : List String}
  {levels : List (String × Level)}

theorem readEntries_cons :
    readEntries taken (entry :: entries) = entry.named taken >>= fun entered =>
      readEntries (entry.key :: taken) entries >>= fun levels => pure (entered :: levels) := by
  by_cases hkey : entry.key ∈ taken
  · simp [readEntries, Entry.named, hkey, bind, Except.bind]
  · simp only [readEntries, Entry.named, List.contains_iff_mem, hkey, if_false]
    cases entry.level <;> rfl

/-- Entries are read one after the other, and each takes its key from those after it. -/
theorem readEntries_eq_ok (h : readEntries taken entries = .ok levels) :
    levels.map Prod.fst = entries.map Entry.key ∧
      (∀ entry ∈ entries, ∃ level, (entry.key, level) ∈ levels ∧ entry.level = .ok level) := by
  induction entries generalizing taken levels with
  | nil =>
    obtain rfl := Except.ok.inj h
    exact ⟨rfl, nofun⟩
  | cons entry entries ih =>
    rw [readEntries_cons] at h
    obtain ⟨⟨key, level⟩, hentered, h⟩ := bind_eq_ok_iff.mp h
    obtain ⟨rest, hrest, h⟩ := bind_eq_ok_iff.mp h
    obtain rfl := Except.ok.inj h
    obtain ⟨-, rfl, hlevel⟩ := Entry.named_eq_ok_iff.mp hentered
    obtain ⟨hkeys, hlevels⟩ := ih hrest
    refine ⟨congrArg (entry.key :: ·) hkeys, List.forall_mem_cons.mpr
      ⟨⟨level, List.mem_cons_self, hlevel⟩, fun other hother => ?_⟩⟩
    obtain ⟨found, hfound, hother⟩ := hlevels other hother
    exact ⟨found, List.mem_cons_of_mem _ hfound, hother⟩

theorem wellFormedEntries_cons_iff :
    WellFormedEntries (entry :: entries) ↔
      entry.WellFormed ∧ (∀ other ∈ entries, other.key ≠ entry.key) ∧
        WellFormedEntries entries := by
  constructor
  · rintro ⟨hkeys, heach⟩
    obtain ⟨hkey, hkeys⟩ := List.nodup_cons.mp hkeys
    obtain ⟨hentry, heach⟩ := List.forall_mem_cons.mp heach
    exact ⟨hentry, fun other hother h => hkey (h ▸ List.mem_map_of_mem hother), hkeys, heach⟩
  · rintro ⟨hentry, hkey, hkeys, heach⟩
    refine ⟨List.nodup_cons.mpr ⟨fun h => ?_, hkeys⟩, List.forall_mem_cons.mpr ⟨hentry, heach⟩⟩
    obtain ⟨other, hother, h⟩ := List.mem_map.mp h
    exact hkey other hother h

theorem exists_readEntries_iff :
    (∃ levels, readEntries taken entries = .ok levels) ↔
      WellFormedEntries entries ∧ ∀ entry ∈ entries, entry.key ∉ taken := by
  induction entries generalizing taken with
  | nil => exact ⟨fun _ => ⟨⟨List.nodup_nil, nofun⟩, nofun⟩, fun _ => ⟨[], rfl⟩⟩
  | cons entry entries ih =>
    have hstep : (∃ levels, readEntries taken (entry :: entries) = .ok levels) ↔
        (∃ entered, entry.named taken = .ok entered) ∧
          ∃ levels, readEntries (entry.key :: taken) entries = .ok levels := by
      simp only [readEntries_cons, bind_eq_ok_iff]
      constructor
      · rintro ⟨_, entered, hentered, levels, hlevels, -⟩
        exact ⟨⟨entered, hentered⟩, levels, hlevels⟩
      · rintro ⟨⟨entered, hentered⟩, levels, hlevels⟩
        exact ⟨_, entered, hentered, levels, hlevels, rfl⟩
    rw [hstep, Entry.exists_named_iff, ih, wellFormedEntries_cons_iff]
    simp only [List.mem_cons, not_or, forall_eq_or_imp, forall_and]
    tauto

/-- The first entry that cannot be read decides. -/
theorem readEntries_eq_error_iff :
    readEntries taken entries = .error defect ↔
      ∃ earlier entry later, entries = earlier ++ entry :: later ∧
        (∃ levels, readEntries taken earlier = .ok levels) ∧
        entry.named ((earlier.map Entry.key).reverse ++ taken) = .error defect := by
  -- keys are taken at the front, so that those of the entries before stand there in reverse
  induction entries generalizing taken with
  | nil => simp [readEntries]
  | cons entry entries ih =>
    simp only [readEntries_cons, bind_eq_error_iff, pure_ne_error, and_false, exists_false,
      or_false, ih]
    constructor
    · rintro (hentry | ⟨entered, hentered, earlier, bad, later, rfl, ⟨levels, hlevels⟩, hbad⟩)
      · exact ⟨[], entry, entries, rfl, ⟨[], rfl⟩, hentry⟩
      · refine ⟨entry :: earlier, bad, later, rfl, ⟨entered :: levels, ?_⟩, ?_⟩
        · rw [readEntries_cons]
          exact bind_eq_ok_iff.mpr
            ⟨entered, hentered, bind_eq_ok_iff.mpr ⟨levels, hlevels, rfl⟩⟩
        · simpa using hbad
    · rintro ⟨earlier, bad, later, hsplit, ⟨levels, hlevels⟩, hbad⟩
      cases earlier with
      | nil =>
        obtain ⟨rfl, -⟩ := List.cons.inj hsplit
        exact .inl hbad
      | cons first earlier =>
        obtain ⟨rfl, rfl⟩ := List.cons.inj hsplit
        rw [readEntries_cons] at hlevels
        obtain ⟨entered, hentered, hlevels⟩ := bind_eq_ok_iff.mp hlevels
        obtain ⟨rest, hrest, -⟩ := bind_eq_ok_iff.mp hlevels
        exact .inr ⟨entered, hentered, earlier, bad, later, rfl, ⟨rest, hrest⟩, by simpa using hbad⟩

variable {document : Document} {catalog : Catalog}

theorem ofDocument_eq_ok_iff :
    ofDocument document = .ok catalog ↔
      document.version = 1 ∧ readEntries [] document.levels = .ok catalog.levels := by
  unfold ofDocument supportedVersion
  split
  · next h => simp [h]
  · next h =>
    rw [not_not.mp h]
    cases readEntries [] document.levels with
    | error defect => simp [Except.map]
    | ok levels =>
      simp only [Except.map, Except.ok.injEq, true_and]
      exact ⟨fun h => h ▸ rfl, fun h => h ▸ rfl⟩

theorem exists_ofDocument_iff :
    (∃ catalog, ofDocument document = .ok catalog) ↔ document.WellFormed := by
  simp only [ofDocument_eq_ok_iff]
  constructor
  · rintro ⟨catalog, hversion, hlevels⟩
    exact ⟨hversion, (exists_readEntries_iff.mp ⟨_, hlevels⟩).1⟩
  · rintro ⟨hversion, hlevels⟩
    obtain ⟨levels, hlevels⟩ := exists_readEntries_iff.mpr ⟨hlevels, fun _ _ => List.not_mem_nil⟩
    exact ⟨⟨levels⟩, hversion, hlevels⟩

theorem keys_of_ofDocument (h : ofDocument document = .ok catalog) :
    catalog.keys = document.levels.map Entry.key :=
  (readEntries_eq_ok (ofDocument_eq_ok_iff.mp h).2).1

theorem keys_nodup_of_ofDocument (h : ofDocument document = .ok catalog) : catalog.keys.Nodup := by
  rw [keys_of_ofDocument h]
  exact (exists_ofDocument_iff.mp ⟨catalog, h⟩).levels.keys

theorem ofDocument_builtinDocument : ofDocument builtinDocument = .ok builtin := by
  have hbuiltin := toOption_ofDocument_builtinDocument
  cases hdocument : ofDocument builtinDocument with
  | error defect =>
    rw [hdocument] at hbuiltin
    contradiction
  | ok catalog =>
    rw [hdocument] at hbuiltin
    exact congrArg Except.ok (Option.some.inj hbuiltin)

/-- Under different keys, each level is found under its own. -/
theorem level?_of_mem (hkeys : catalog.keys.Nodup) {level : Level}
    (h : (key, level) ∈ catalog.levels) : catalog.level? key = some level := by
  obtain ⟨before, after, hsplit⟩ := List.append_of_mem h
  refine List.lookup_eq_some_iff.mpr ⟨before, after, hsplit, fun entered hentered => ?_⟩
  rw [keys, hsplit, List.map_append, List.map_cons, List.nodup_middle, List.nodup_cons] at hkeys
  have hmem : entered.1 ∈ before.map Prod.fst := List.mem_map_of_mem hentered
  have hne : key ≠ entered.1 := fun h => hkeys.1 (List.mem_append_left _ (h ▸ hmem))
  simpa using hne

theorem ofDocument_eq_error_iff :
    ofDocument document = .error defect ↔ document.FirstDefect defect := by
  unfold ofDocument supportedVersion
  split
  · next hversion =>
    constructor
    · intro h
      exact Except.error.inj h ▸ .version hversion
    · rintro (_ | ⟨h, _⟩ | ⟨h, _⟩)
      · rfl
      all_goals exact absurd h hversion
  · next hversion =>
    have hversion := not_not.mp hversion
    have hmap : (readEntries [] document.levels).map Catalog.mk = .error defect ↔
        readEntries [] document.levels = .error defect := by
      cases readEntries [] document.levels <;> simp [Except.map]
    rw [hmap, readEntries_eq_error_iff]
    simp only [List.append_nil, exists_readEntries_iff, List.not_mem_nil, not_false_eq_true,
      implies_true, and_true, Entry.named_eq_error_iff, List.mem_reverse]
    constructor
    · rintro ⟨earlier, entry, later, hlevels, hearlier, ⟨hkey, rfl⟩ | ⟨hkey, hdefect⟩⟩
      · exact .repeatedKey hversion hlevels hearlier hkey
      · exact .entry hversion hlevels hearlier hkey hdefect
    · intro h
      cases h with
      | version h => exact absurd hversion h
      | repeatedKey _ hlevels hearlier hkey =>
        exact ⟨_, _, _, hlevels, hearlier, .inl ⟨hkey, rfl⟩⟩
      | entry _ hlevels hearlier hkey hdefect =>
        exact ⟨_, _, _, hlevels, hearlier, .inr ⟨hkey, hdefect⟩⟩

/-- A document makes a catalog if and only if it is well-formed. The catalog then has the keys of
the entries in their order, and under each key the level that the entry describes. Of any other
document the first defect is reported. -/
theorem accepts_wellFormed_or_tells_first_defect (document : Document) :
    (∀ text, Document.parse text = some document → parse text = ofDocument document) ∧
    ((∃ catalog, ofDocument document = .ok catalog) ↔ document.WellFormed) ∧
    (∀ catalog, ofDocument document = .ok catalog →
      catalog.keys = document.levels.map Entry.key ∧
      ∀ entry ∈ document.levels, ∃ level,
        catalog.level? entry.key = some level ∧ entry.Describes level) ∧
    ∀ defect, ofDocument document = .error defect ↔ document.FirstDefect defect := by
  refine ⟨fun text htext => ?_, exists_ofDocument_iff, fun catalog h => ⟨keys_of_ofDocument h, ?_⟩,
    fun defect => ofDocument_eq_error_iff⟩
  · unfold parse
    rw [htext]
  · intro entry hentry
    obtain ⟨level, hmem, hlevel⟩ :=
      (readEntries_eq_ok (ofDocument_eq_ok_iff.mp h).2).2 entry hentry
    exact ⟨level, level?_of_mem (keys_nodup_of_ofDocument h) hmem, Entry.describes_of_level hlevel⟩

/-- One entry is listed twice, and at its second place it has a cell that stands for no tile. -/
def twice : Document :=
  ⟨1, [⟨"twice", "", [[1, 9]], ⟨0, 0, .right⟩, [1], some [" f1 ", "F2"]⟩,
    ⟨"twice", "", [[5]], ⟨0, 0, .right⟩, [], none⟩]⟩

/-- Without its second entry the document makes a catalog; with it, the key is reported and not the
cell. -/
theorem twice_accepted_or_refused :
    Document.WellFormed ⟨1, twice.levels.take 1⟩ ∧ ¬twice.WellFormed ∧
      twice.FirstDefect (.repeatedKey "twice") := by
  obtain ⟨-, haccepted, -⟩ := accepts_wellFormed_or_tells_first_defect ⟨1, twice.levels.take 1⟩
  obtain ⟨-, hrefused, -, hdefect⟩ := accepts_wellFormed_or_tells_first_defect twice
  have htwice : ofDocument twice = .error (.repeatedKey "twice") := by decide +kernel
  refine ⟨haccepted.mp ?_, fun h => ?_, (hdefect _).mp htwice⟩
  · let level : Level :=
      ⟨[[.path .grey, .goal]], ⟨0, 0, .right⟩, ⟨1, 0, 0⟩, ⟨true, true, false⟩, ""⟩
    exact ⟨⟨[("twice", level)]⟩, by decide +kernel⟩
  · obtain ⟨catalog, hcatalog⟩ := hrefused.mpr h
    simp [htwice] at hcatalog

end TileWalk.Catalog
