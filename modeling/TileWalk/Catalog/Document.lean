import TileWalk.Level
import TileWalk.Toml.Document

/-!
The layout of a catalog document: a format version and a list of level entries, with the types that
their fields have in TOML. Whether an entry makes a level is left to the catalog.

A table may be written as an array of its fields in order, and a name from a fixed list as a table
with that name as its only key and nothing in it.
-/

namespace TileWalk.Catalog

open TileWalk.Toml

structure Entry where
  key : String
  description : String
  /-- Tile codes, from the top row to the bottom row. -/
  rows : List (List Nat)
  start : Cursor
  /-- The greatest numbers of commands, from the first subroutine on. -/
  capacities : List Nat
  /-- The subroutines that commands may call; all of them without a list. -/
  callable : Option (List String)
deriving DecidableEq, Inhabited

structure Document where
  version : Nat
  levels : List Entry
deriving DecidableEq, Inhabited

/-! ### Fields -/

def word? (v : Value) : Option UInt32 :=
  (v.natBelow? 4294967296).map UInt32.ofNat

/-- A list of values that `item?` reads. -/
def list? {α : Type} (item? : Value → Option α) (v : Value) : Option (List α) :=
  v.elements?.bind fun items => items.mapM item?

/-- A direction: its name, or a table with the name as its only key and nothing in it. -/
def direction? : Value → Option Direction
  | .string name => Direction.ofLabel? name
  | v =>
    match v.entries? with
    | some [(name, content)] => if content.isEmpty then Direction.ofLabel? name else none
    | _ => none

/-- A pose: a table with the keys `x`, `y` and `dir`, which may hold others too, or an array that
begins with the three. -/
def cursor? (v : Value) : Option Cursor :=
  match v.entries?, v.elements? with
  | some entries, _ => do
    let x ← entries.lookup "x" >>= word?
    let y ← entries.lookup "y" >>= word?
    let direction ← entries.lookup "dir" >>= direction?
    pure ⟨x, y, direction⟩
  | none, some (x :: y :: direction :: _) => do
    let x ← word? x
    let y ← word? y
    let direction ← direction? direction
    pure ⟨x, y, direction⟩
  | _, _ => none

def optionalField {α : Type} (entries : Entries) (name : String) (read? : Value → Option α) :
    Option (Option α) :=
  match entries.lookup name with
  | none => some none
  | some v => (read? v).map some

/-- Every key of the table is one of `names`. -/
def onlyKeys (names : List String) (entries : Entries) : Bool :=
  entries.all fun entry => names.contains entry.1

def rows? : Value → Option (List (List Nat)) :=
  list? (list? (Value.natBelow? 256))

def capacities? : Value → Option (List Nat) :=
  list? (Value.natBelow? 9223372036854775808)

def names? : Value → Option (List String) :=
  list? Value.string?

/-- A level entry: a table with known keys, of which the description and the enabled subroutines may
be absent, or an array of the fields in order, of which the last may be absent. -/
def entry? (v : Value) : Option Entry :=
  match v.entries?, v.elements? with
  | some entries, _ => do
    guard (onlyKeys
      ["key", "description", "map", "start", "max_commands", "enabled_functions"] entries)
    let key ← entries.lookup "key" >>= Value.string?
    let description ← optionalField entries "description" Value.string?
    let rows ← entries.lookup "map" >>= rows?
    let start ← entries.lookup "start" >>= cursor?
    let capacities ← entries.lookup "max_commands" >>= capacities?
    let callable ← optionalField entries "enabled_functions" names?
    pure ⟨key, description.getD "", rows, start, capacities, callable⟩
  | none, some (key :: description :: rows :: start :: capacities :: rest) => do
    let key ← key.string?
    let description ← description.string?
    let rows ← rows? rows
    let start ← cursor? start
    let capacities ← capacities? capacities
    let callable ← match rest with
      | [] => some none
      | names :: _ => (names? names).map some
    pure ⟨key, description, rows, start, capacities, callable⟩
  | _, _ => none

/-- A document from its root table. -/
def Document.ofEntries? (entries : Entries) : Option Document := do
  guard (onlyKeys ["version", "levels"] entries)
  let version ← entries.lookup "version" >>= Value.natBelow? 4294967296
  let levels ← optionalField entries "levels" (list? entry?)
  pure ⟨version, levels.getD []⟩

def Document.parse (text : String) : Option Document :=
  (Toml.parse text).bind Document.ofEntries?

end TileWalk.Catalog
