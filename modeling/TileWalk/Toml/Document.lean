import TileWalk.Toml.Lexical
import TileWalk.Toml.Table

/-!
TOML documents. The text is read into statements, one to a line, and the statements are carried out
one after the other on the tables of the document.
-/

namespace TileWalk.Toml

open TileWalk.Text

/-! ### Values -/

/-- A value that is no array and no table. -/
def scalar : Reader Value :=
  (do let text ← anyString; pure (.string text))
  <|> (do moment; pure .moment)
  <|> (do float; pure .float)
  <|> (do let n ← integer; pure (.integer n))
  <|> (do Reader.word "true"; pure (.boolean true))
  <|> (do Reader.word "false"; pure (.boolean false))

/-- An array in brackets; a comma may follow the last item. -/
def array (item : Reader Value) : Reader Value := do
  Reader.char '['
  let items ← Reader.sepBy (do layout; let v ← item; layout; pure v) (Reader.char ',')
  if !items.isEmpty then
    let _ ← Reader.optional (Reader.char ',')
  layout
  Reader.char ']'
  pure (.array items)

def inlineTable (item : Reader Value) : Reader Value := do
  Reader.char '\x7b'
  let pairs ← Reader.sepBy
    (do
      let (path, name) ← key
      Reader.char '='
      spaces
      let v ← item
      spaces
      pure (path, name, v))
    (Reader.char ',')
  spaces
  Reader.char '\x7d'
  let entries ← Reader.demand (inlineEntries pairs [])
  pure (.table .inline entries)

/-- A value with at most `depth` levels of arrays and tables in braces. -/
def value : Nat → Reader Value
  | 0 => scalar
  | depth + 1 => scalar <|> array (value depth) <|> inlineTable (value depth)

/-! ### Statements -/

/-- A line of a document that says something. -/
inductive Statement
  /-- A header that opens a table. -/
  | table (path : List String) (name : String)
  /-- A header that opens the next table of an array. -/
  | element (path : List String) (name : String)
  | assignment (path : List String) (name : String) (value : Value)
deriving Inhabited

def header : Reader Statement :=
  (do
    Reader.word "[["
    let (path, name) ← key
    Reader.word "]]"
    lineRest
    pure (.element path name))
  <|> (do
    Reader.char '['
    let (path, name) ← key
    Reader.char ']'
    lineRest
    pure (.table path name))

def assignment : Reader Statement := do
  let (path, name) ← key
  Reader.char '='
  spaces
  let v ← value nestingLimit
  lineRest
  pure (.assignment path name v)

/-- A line, with its statement if it says something. -/
def line : Reader (Option Statement) := do
  let statement ←
    (do comment; lineEnd <|> textEnd; pure none)
    <|> (do lineEnd; pure none)
    <|> (do let s ← header; pure (some s))
    <|> (do let s ← assignment; pure (some s))
  spaces
  pure statement

/-- The statements of a document. A byte order mark at the start is passed over. -/
def statements : Reader (List Statement) := do
  let _ ← Reader.optional (Reader.char '\uFEFF')
  spaces
  let lines ← Reader.many line
  pure (lines.filterMap id)

/-! ### Tables -/

/-- A document under construction: the tables closed so far, and the one that the last header
opened. -/
structure Draft where
  root : Entries
  /-- The header of the open table, and whether it is the next of an array; without a header the
  open table is the root. -/
  opened : Option (List String × String × Bool)
  /-- The entries of the open table. -/
  current : Entries
deriving Inhabited

namespace Draft

def blank : Draft := ⟨[], none, []⟩

/-- The root with the open table put into its place. -/
def close (d : Draft) : Option Entries :=
  match d.opened with
  | none => some d.current
  | some (path, name, false) =>
    editAt .headers
      (fun _ parent => some (setEntry name (.table .header d.current) parent)) path .header d.root
  | some (path, name, true) =>
    editAt .headers
      (fun _ parent =>
        match parent.lookup name with
        | none => some (setEntry name (.tables [d.current]) parent)
        | some (.tables rows) => some (setEntry name (.tables (rows ++ [d.current])) parent)
        | some _ => none)
      path .header d.root

/-- The entries that a header finds in the table it opens: none, or those of a table that longer
headers passed through. -/
def reopen? (name : String) (parent : Entries) : Option Entries :=
  match parent.lookup name with
  | none => some []
  | some (.table .implied entries) => some entries
  | some _ => none

/-- The table at the end of a path of headers, after those on the way were created. -/
def tableAt? : List String → Entries → Option Entries
  | [], entries => some entries
  | key :: path, entries =>
    match entries.lookup key with
    | none => tableAt? path []
    | some (.tables rows) => rows.getLast?.bind (tableAt? path)
    | some (.table .inline _) => none
    | some (.table _ inner) => tableAt? path inner
    | some _ => none

def perform (d : Draft) : Statement → Option Draft
  | .assignment path name v => do
    let entries ← assign path name v d.current
    pure { d with current := entries }
  | .table path name => do
    let root ← d.close
    let parent ← tableAt? path root
    let entries ← reopen? name parent
    pure ⟨root, some (path, name, false), entries⟩
  | .element path name => do
    let root ← d.close
    let parent ← tableAt? path root
    match parent.lookup name with
    | none | some (.tables _) => pure ⟨root, some (path, name, true), []⟩
    | some _ => none

end Draft

/-- The root table of a document, if its text and its tables are in order. -/
def parse (text : String) : Option Entries := do
  let statements ← statements.run text
  let draft ← statements.foldlM Draft.perform Draft.blank
  draft.close

end TileWalk.Toml
