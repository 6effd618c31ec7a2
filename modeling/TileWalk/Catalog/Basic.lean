import TileWalk.Campaign
import TileWalk.Catalog.Document

/-!
Level catalogs: levels under distinct keys, in playing order. A document makes a catalog if it has
the supported version and each of its entries makes a level; the first defect is reported.
-/

namespace TileWalk

/-- Levels with their keys, in playing order. -/
structure Catalog where
  levels : List (String × Level)
deriving DecidableEq, Inhabited

namespace Catalog

def supportedVersion : Nat := 1

inductive Defect
  /-- The text is no TOML, or does not have the layout of a catalog. -/
  | layout
  | version (found : Nat)
  /-- A level has a cell with a code that stands for no tile. -/
  | tile (key : String) (code : Nat)
  /-- A level lets commands call something that is no subroutine. -/
  | subroutine (key name : String)
  /-- A level has more capacities than there are subroutines. -/
  | capacities (key : String) (count : Nat)
  | repeatedKey (key : String)
deriving DecidableEq, Inhabited

def Defect.message : Defect → String
  | layout => "failed to parse level catalog"
  | version found =>
    let expected := supportedVersion
    s!"unsupported level catalog version {found}; expected {expected}"
  | tile key code => s!"level `{key}` uses unknown tile code {code}"
  | subroutine key name => s!"level `{key}` enables unknown subroutine `{name}`"
  | capacities key count => s!"level `{key}` lists {count} capacities but only 3 subroutines exist"
  | repeatedKey key => s!"level key `{key}` appears more than once"

/-- The tile that a code of the level `key` stands for. -/
def readTile (key : String) (code : Nat) : Except Defect Tile :=
  match Tile.ofCode? code with
  | some tile => .ok tile
  | none => .error (.tile key code)

/-- Capacities from a list of at most three; subroutines that it leaves out hold nothing. -/
def readCapacities (key : String) (counts : List Nat) : Except Defect (Slots Nat) :=
  if 3 < counts.length then .error (.capacities key counts.length)
  else .ok (.ofFn fun s => counts[s.index]?.getD 0)

/-- The subroutine that a name of the level `key` stands for. -/
def readSubroutine (key name : String) : Except Defect Subroutine :=
  match Subroutine.ofLabel? name with
  | some s => .ok s
  | none => .error (.subroutine key name)

/-- The subroutines that commands may call: all of them, or those of a list. -/
def readEnabled (key : String) : Option (List String) → Except Defect (Slots Bool)
  | none => .ok (.const true)
  | some names => do
    let enabled ← names.mapM (readSubroutine key)
    pure (.ofFn fun s => enabled.contains s)

def Entry.level (entry : Entry) : Except Defect Level := do
  let grid ← entry.rows.mapM fun row => row.mapM (readTile entry.key)
  let capacities ← readCapacities entry.key entry.capacities
  let enabled ← readEnabled entry.key entry.callable
  pure ⟨grid, entry.start, capacities, enabled, entry.description⟩

/-- The levels of some entries, of which none may have a key in `taken` or that of another. -/
def readEntries (taken : List String) : List Entry → Except Defect (List (String × Level))
  | [] => .ok []
  | entry :: entries =>
    if taken.contains entry.key then .error (.repeatedKey entry.key)
    else do
      let level ← entry.level
      let levels ← readEntries (entry.key :: taken) entries
      pure ((entry.key, level) :: levels)

def ofDocument (document : Document) : Except Defect Catalog :=
  if document.version ≠ supportedVersion then .error (.version document.version)
  else (readEntries [] document.levels).map Catalog.mk

def parse (text : String) : Except Defect Catalog :=
  match Document.parse text with
  | some document => ofDocument document
  | none => .error .layout

def size (catalog : Catalog) : Nat := catalog.levels.length

def keys (catalog : Catalog) : List String := catalog.levels.map Prod.fst

def level? (catalog : Catalog) (key : String) : Option Level := catalog.levels.lookup key

def source (catalog : Catalog) : LevelSource := ⟨catalog.keys, catalog.level?⟩

end Catalog

end TileWalk
