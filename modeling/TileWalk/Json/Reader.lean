import TileWalk.Json.Value
import TileWalk.Text.Digits
import TileWalk.Text.Reader

/-!
Reading JSON. The grammar is the strict one: no comments, no commas after the last item, no control
characters in strings, no leading zeros.
-/

namespace TileWalk.Json

open TileWalk.Text

/-- Blanks between tokens: space, tab, line feed and carriage return. -/
def blanks : Reader Unit := do
  let _ ← Reader.span fun c => c == ' ' || c == '\t' || c == '\n' || c == '\r'

/-! ### Strings -/

/-- A part of a string: a character, or a UTF-16 unit given by its number. -/
inductive Piece
  | char (c : Char)
  | unit (n : Nat)
deriving DecidableEq, Inhabited

def quote : Char := '\x22'

def backslash : Char := '\x5c'

/-- What a backslash and the characters after it stand for. -/
def escape : Reader Piece := do
  Reader.char backslash
  let c ← Reader.satisfying fun _ => true
  match c with
  | 'b' => pure (.char '\x08')
  | 'f' => pure (.char '\x0c')
  | 'n' => pure (.char '\n')
  | 'r' => pure (.char '\r')
  | 't' => pure (.char '\t')
  | 'u' =>
    let digits ← Reader.exactly isHexDigit 4
    pure (.unit (ofDigits 16 digits))
  | c => if c = quote ∨ c = backslash ∨ c = '/' then pure (.char c) else failure

/-- The unit is the first half of a surrogate pair. -/
def isHighSurrogate (n : Nat) : Bool := 0xD800 ≤ n && n ≤ 0xDBFF

/-- The unit is the second half of a surrogate pair. -/
def isLowSurrogate (n : Nat) : Bool := 0xDC00 ≤ n && n ≤ 0xDFFF

/-- The characters of a string. The two halves of a surrogate pair are one character; a half on its
own is none. -/
def assemble : List Piece → Option (List Char)
  | [] => some []
  | .char c :: rest => (assemble rest).map (c :: ·)
  | .unit high :: .unit low :: rest =>
    if isHighSurrogate high then
      if isLowSurrogate low then do
        let c ← charOfNat? (0x10000 + (high - 0xD800) * 0x400 + (low - 0xDC00))
        let cs ← assemble rest
        pure (c :: cs)
      else none
    else do
      let c ← charOfNat? high
      let cs ← assemble (.unit low :: rest)
      pure (c :: cs)
  | .unit n :: rest => do
    let c ← charOfNat? n
    let cs ← assemble rest
    pure (c :: cs)

/-- A string, if its escapes make up characters. -/
def string : Reader (Option String) := do
  Reader.char quote
  let pieces ← Reader.many
    ((do
        let c ← Reader.satisfying fun c => 0x20 ≤ c.toNat && c != quote && c != backslash
        pure (.char c))
      <|> escape)
  Reader.char quote
  pure ((assemble pieces).map String.ofList)

/-! ### Numbers -/

def digits : Reader (List Char) := do
  let ds ← Reader.span Char.isDigit
  if ds.isEmpty then failure else pure ds

def wholeDigits : Reader (List Char) := do
  match ← Reader.peek with
  | some '0' =>
    Reader.char '0'
    pure ['0']
  | _ => digits

def fraction : Reader Unit := do
  Reader.char '.'
  let _ ← digits

def exponent : Reader Unit := do
  let _ ← Reader.satisfying fun c => c == 'e' || c == 'E'
  let _ ← Reader.optional (Reader.satisfying fun c => c == '+' || c == '-')
  let _ ← digits

def number : Reader Value := do
  let minus ← Reader.optional (Reader.char '-')
  let whole ← wholeDigits
  let decimals ← Reader.optional fraction
  let power ← Reader.optional exponent
  if minus.isSome || decimals.isSome || power.isSome then pure .number
  else pure (.natural (ofDigits 10 whole))

/-! ### Values -/

def items {α : Type} (opening closing : Char) (item : Reader α) : Reader (List α) := do
  Reader.char opening
  blanks
  let all ← Reader.sepBy item (Reader.char ',')
  blanks
  Reader.char closing
  pure all

/-- A value with at most `depth` levels of arrays and objects, with the blanks around it. -/
def value : Nat → Reader Value
  | 0 => failure
  | depth + 1 => do
    blanks
    let v ←
      (do Reader.word "null"; pure .null)
      <|> (do Reader.word "true"; pure (.boolean true))
      <|> (do Reader.word "false"; pure (.boolean false))
      <|> (do let text ← string; pure (.string text))
      <|> number
      <|> (do let all ← items '[' ']' (value depth); pure (.array all))
      <|> (do
        let all ← items '\x7b' '\x7d' (do
          blanks
          let name ← string
          blanks
          Reader.char ':'
          let v ← value depth
          pure (name, v))
        pure (.object all))
    blanks
    pure v

/-- The value of a whole text. Its length bounds how deep the text can nest. -/
def parse (text : String) : Option Value :=
  (value (text.length + 1)).run text

end TileWalk.Json
