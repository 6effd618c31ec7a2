/-!
The values of a TOML document. A table remembers how it came about, because that decides whether a
later line may still add to it.
-/

namespace TileWalk.Toml

inductive Origin
  /-- Written in braces as a value; closed. -/
  | inline
  /-- Opened by a header of its own. -/
  | header
  /-- Passed through by a longer header; a header of its own may still open it. -/
  | implied
  /-- Passed through by a dotted key; further dotted keys may add to it. -/
  | dotted
deriving DecidableEq, Inhabited

/-- A value. Floats, dates and times are checked when they are read, and their values dropped. -/
inductive Value
  | string (text : String)
  | integer (n : Int)
  | float
  | boolean (b : Bool)
  | moment
  /-- Written in brackets as a value; closed. -/
  | array (items : List Value)
  /-- Tables opened one after the other by headers in double brackets. -/
  | tables (rows : List (List (String × Value)))
  | table (origin : Origin) (entries : List (String × Value))
deriving Inhabited

abbrev Entries := List (String × Value)

namespace Value

/-- The entries of a table, however it was written. -/
def entries? : Value → Option Entries
  | table _ entries => some entries
  | _ => none

/-- The elements of an array, however it was written. -/
def elements? : Value → Option (List Value)
  | array items => some items
  | tables rows => some (rows.map (table .header))
  | _ => none

def isEmpty : Value → Bool
  | array items => items.isEmpty
  | tables rows => rows.isEmpty
  | table _ entries => entries.isEmpty
  | _ => false

def string? : Value → Option String
  | string text => some text
  | _ => none

/-- The value of an integer that is not negative and below `bound`. -/
def natBelow? (bound : Nat) : Value → Option Nat
  | integer (.ofNat n) => if n < bound then some n else none
  | _ => none

end Value

end TileWalk.Toml
