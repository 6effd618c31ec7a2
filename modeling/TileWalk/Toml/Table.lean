import TileWalk.Toml.Value

/-!
How the lines of a document add to its tables. A key is set once; a table is opened by one header,
or grown by dotted keys, but not both; a value in braces or brackets is closed.
-/

namespace TileWalk.Toml

/-- The entries with the value of `key` replaced, or added at the end. -/
def setEntry (key : String) (value : Value) : Entries → Entries
  | [] => [(key, value)]
  | entry :: rest =>
    if entry.1 = key then (key, value) :: rest else entry :: setEntry key value rest

def removeEntry (key : String) (entries : Entries) : Entries :=
  entries.filter fun entry => entry.1 != key

/-- What a path passes through: tables on the way to a header, or those of a dotted key. -/
inductive Passage
  | headers
  | keys
deriving DecidableEq, Inhabited

/-- The origin of a table that a passage creates. -/
def Passage.origin : Passage → Origin
  | headers => .implied
  | keys => .dotted

/-- Changes the table at the end of a path. `edit` gets the origin and the entries of that table.
Missing tables on the way are created; the last table of an array stands for the array; a value that
is no open table blocks the way, and dotted keys do not enter a table that has a header. -/
def editAt (passage : Passage) (edit : Origin → Entries → Option Entries) :
    List String → Origin → Entries → Option Entries
  | [], origin, entries => edit origin entries
  | key :: path, _, entries =>
    match entries.lookup key with
    | none => do
      let inner ← editAt passage edit path passage.origin []
      pure (setEntry key (.table passage.origin inner) entries)
    | some (.tables rows) => do
      let last ← rows.getLast?
      let inner ← editAt passage edit path .header last
      pure (setEntry key (.tables (rows.dropLast ++ [inner])) entries)
    | some (.table .inline _) => none
    | some (.table origin inner) =>
      if passage = .keys ∧ origin = .header then none
      else do
        let inner ← editAt passage edit path origin inner
        pure (setEntry key (.table origin inner) entries)
    | some _ => none

/-- Sets a key in a table. A table reached through a dotted key must have come about through
dotted keys alone. -/
def assign (path : List String) (key : String) (value : Value) (entries : Entries) :
    Option Entries :=
  editAt .keys
    (fun origin inner =>
      if (origin == .dotted) == path.isEmpty then none
      else if (inner.lookup key).isSome then none
      else some (inner ++ [(key, value)]))
    path .header entries

/-- The entries of a table in braces, if each key is set once. -/
def inlineEntries : List (List String × String × Value) → Entries → Option Entries
  | [], entries => some entries
  | (path, key, value) :: rest, entries => (assign path key value entries).bind (inlineEntries rest)

end TileWalk.Toml
