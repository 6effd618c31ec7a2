/-!
Readers take a value off the front of a text and leave the rest, or fail without saying where. They
form a monad with choice: `a <|> b` reads with `b` from where `a` started. Repetition is bounded by
the length of the text, which suffices for items that take at least one character each.
-/

namespace TileWalk.Text

/-- A way to read an `α` off the front of a text. -/
abbrev Reader (α : Type) := StateT (List Char) Option α

namespace Reader

variable {α β : Type}

/-- The next character, not taken; nothing at the end. -/
def peek : Reader (Option Char) := fun cs => some (cs.head?, cs)

/-- A character with a property. -/
def satisfying (p : Char → Bool) : Reader Char
  | [] => none
  | c :: rest => if p c then some (c, rest) else none

def char (c : Char) : Reader Unit := do
  let _ ← satisfying (· == c)

def word (text : String) : Reader Unit := fun cs =>
  let expected := text.toList
  if expected.isPrefixOf cs then some ((), cs.drop expected.length) else none

/-- All characters up to the first without a property. -/
def span (p : Char → Bool) : Reader (List Char) := fun cs =>
  some (cs.takeWhile p, cs.dropWhile p)

/-- Exactly `n` characters with a property. -/
def exactly (p : Char → Bool) : Nat → Reader (List Char)
  | 0 => pure []
  | n + 1 => do
    let c ← satisfying p
    let rest ← exactly p n
    pure (c :: rest)

/-- What `item` reads again and again until it fails, `limit` times at most. -/
def repeatUpTo (item : Reader α) : Nat → List Char → List α × List Char
  | 0, cs => ([], cs)
  | limit + 1, cs =>
    match item cs with
    | none => ([], cs)
    | some (a, rest) =>
      let (items, rest) := repeatUpTo item limit rest
      (a :: items, rest)

/-- Items one after the other, up to the first failure. -/
def many (item : Reader α) : Reader (List α) := fun cs =>
  some (repeatUpTo item cs.length cs)

/-- One or more items with separators between them. -/
def sepBy1 (item : Reader α) (separator : Reader β) : Reader (List α) := do
  let first ← item
  let rest ← many (do let _ ← separator; item)
  pure (first :: rest)

def sepBy (item : Reader α) (separator : Reader β) : Reader (List α) :=
  sepBy1 item separator <|> pure []

/-- What `item` reads, if it can. -/
def optional (item : Reader α) : Reader (Option α) :=
  (do let a ← item; pure (some a)) <|> pure none

/-- Takes an optional value out. -/
def demand (value : Option α) : Reader α := fun cs => value.map fun a => (a, cs)

def run (reader : Reader α) (text : String) : Option α :=
  match reader text.toList with
  | some (a, []) => some a
  | _ => none

end Reader

end TileWalk.Text
