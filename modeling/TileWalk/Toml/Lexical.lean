import TileWalk.Text.Digits
import TileWalk.Text.Reader

/-!
The tokens of TOML 1.0: blanks, comments, line ends, keys, strings, numbers, dates and times.
-/

namespace TileWalk.Toml

open TileWalk.Text

/-- The character is a space or a tab. -/
def isSpace (c : Char) : Bool := c == ' ' || c == '\t'

/-- The character may stand in a comment or unescaped in a string: no control character but the
tab. -/
def isPrintable (c : Char) : Bool :=
  c == '\t' || (0x20 ≤ c.toNat && c.toNat != 0x7F)

def spaces : Reader Unit := do
  let _ ← Reader.span isSpace

/-- A line feed, with or without a carriage return before it. -/
def lineEnd : Reader Unit :=
  Reader.char '\n' <|> Reader.word "\r\n"

def textEnd : Reader Unit
  | [] => some ((), [])
  | _ :: _ => none

/-- A comment up to the end of its line. -/
def comment : Reader Unit := do
  Reader.char '#'
  let _ ← Reader.span isPrintable

/-- What may follow a statement on its line. -/
def lineRest : Reader Unit := do
  spaces
  let _ ← Reader.optional comment
  lineEnd <|> textEnd

/-- Blanks, comments and line ends between the elements of an array. -/
def layout : Reader Unit := do
  let _ ← Reader.many ((do let _ ← Reader.satisfying isSpace) <|> lineEnd <|> (do comment; lineEnd))

/-! ### Strings -/

def quote : Char := '\x22'

def apostrophe : Char := '\x27'

def backslash : Char := '\x5c'

def codePoint (n : Nat) : Reader Char := do
  let digits ← Reader.exactly isHexDigit n
  Reader.demand (charOfNat? (ofDigits 16 digits))

def escape : Reader Char := do
  Reader.char backslash
  let c ← Reader.satisfying fun _ => true
  match c with
  | 'b' => pure '\x08'
  | 'f' => pure '\x0c'
  | 'n' => pure '\n'
  | 'r' => pure '\r'
  | 't' => pure '\t'
  | 'u' => codePoint 4
  | 'U' => codePoint 8
  | c => if c = quote ∨ c = backslash then pure c else failure

/-- A string in double quotes on one line. -/
def basicString : Reader String := do
  Reader.char quote
  let text ← Reader.many
    (Reader.satisfying (fun c => isPrintable c && c != quote && c != backslash) <|> escape)
  Reader.char quote
  pure (String.ofList text)

/-- A string in single quotes on one line; nothing is escaped. -/
def literalString : Reader String := do
  Reader.char apostrophe
  let text ← Reader.span fun c => isPrintable c && c != apostrophe
  Reader.char apostrophe
  pure (String.ofList text)

/-- A run of delimiters, of a length between two bounds. -/
def delimiterRun (delimiter : Char) (least greatest : Nat) : Reader (List Char) := do
  let run ← Reader.span (· == delimiter)
  if least ≤ run.length ∧ run.length ≤ greatest then pure run else failure

/-- A string over several lines between triple delimiters. A line end right after the opening is
dropped; one or two delimiters in a row belong to the text, also right before the closing. -/
def multilineString (delimiter : Char) (piece : Reader (List Char)) : Reader String := do
  let _ ← Reader.exactly (· == delimiter) 3
  let _ ← Reader.optional lineEnd
  let pieces ← Reader.many
    (piece <|> (do lineEnd; pure ['\n']) <|> delimiterRun delimiter 1 2)
  let closing ← delimiterRun delimiter 3 5
  pure (String.ofList (pieces.flatten ++ closing.drop 3))

/-- A backslash at the end of a line: it and all blanks up to the next text are dropped. -/
def lineContinuation : Reader Unit := do
  Reader.char backslash
  spaces
  lineEnd
  let _ ← Reader.many ((do let _ ← Reader.satisfying isSpace) <|> lineEnd)

def multilineBasicString : Reader String :=
  multilineString quote
    ((do
        let c ← Reader.satisfying fun c => isPrintable c && c != quote && c != backslash
        pure [c])
      <|> (do lineContinuation; pure [])
      <|> (do let c ← escape; pure [c]))

def multilineLiteralString : Reader String :=
  multilineString apostrophe
    (do
      let c ← Reader.satisfying fun c => isPrintable c && c != apostrophe
      pure [c])

/-- A string in any of its four forms. -/
def anyString : Reader String :=
  multilineBasicString <|> basicString <|> multilineLiteralString <|> literalString

/-! ### Keys -/

def simpleKey : Reader String :=
  basicString <|> literalString <|>
    (do
      let text ← Reader.span fun c => c.isAlphanum || c == '_' || c == '-'
      if text.isEmpty then failure else pure (String.ofList text))

/-- The greatest number of tables that may be nested, and of parts that a key may have. -/
def nestingLimit : Nat := 79

/-- A key: the names of the tables on the way and the last name. -/
def key : Reader (List String × String) := do
  let parts ← Reader.sepBy1 (do spaces; let part ← simpleKey; spaces; pure part) (Reader.char '.')
  if parts.length ≤ nestingLimit then
    Reader.demand (parts.getLast?.map fun last => (parts.dropLast, last))
  else failure

/-! ### Numbers -/

/-- Digits that may be grouped by single underscores, without them. -/
def groupedDigits (isDigit : Char → Bool) : Reader (List Char) := do
  let first ← Reader.satisfying isDigit
  let rest ← Reader.many
    (Reader.satisfying isDigit <|> (do Reader.char '_'; Reader.satisfying isDigit))
  pure (first :: rest)

/-- A sign, if there is one; says whether it is a minus. -/
def sign : Reader Bool := do
  let c ← Reader.optional (Reader.satisfying fun c => c == '+' || c == '-')
  pure (c == some '-')

/-- A sign and decimal digits without a leading zero. -/
def signedDigits : Reader (Bool × List Char) := do
  let negative ← sign
  match ← Reader.peek with
  | some '0' =>
    Reader.char '0'
    pure (negative, ['0'])
  | _ =>
    let digits ← groupedDigits Char.isDigit
    pure (negative, digits)

/-- Digits in a base, after the mark of that base. -/
def basedInteger (mark : String) (base : Nat) (isDigit : Char → Bool) : Reader Int := do
  Reader.word mark
  let digits ← groupedDigits isDigit
  pure (Int.ofNat (ofDigits base digits))

def integer : Reader Int := do
  let n ← basedInteger "0x" 16 isHexDigit
    <|> basedInteger "0o" 8 (fun c => '0' ≤ c && c ≤ '7')
    <|> basedInteger "0b" 2 (fun c => c == '0' || c == '1')
    <|> (do
      let (negative, digits) ← signedDigits
      let n := Int.ofNat (ofDigits 10 digits)
      pure (if negative then -n else n))
  if -9223372036854775808 ≤ n ∧ n ≤ 9223372036854775807 then pure n else failure

/-- The decimal `mantissa * 10 ^ exponent` is rounded to infinity in 64 bits: it is at least halfway
from the greatest finite number to the next power of two. -/
def overflows (mantissa : Nat) (exponent : Int) : Bool :=
  let bound := Nat.pow 2 1024 - Nat.pow 2 970
  let magnitude := Int.ofNat (toString mantissa).length + exponent
  if mantissa = 0 ∨ magnitude < 300 then false
  else if 320 < magnitude then true
  else if 0 ≤ exponent then bound ≤ mantissa * Nat.pow 10 exponent.toNat
  else bound * Nat.pow 10 (-exponent).toNat ≤ mantissa

def exponent : Reader Int := do
  let _ ← Reader.satisfying fun c => c == 'e' || c == 'E'
  let negative ← sign
  let digits ← groupedDigits Char.isDigit
  let n := Int.ofNat (ofDigits 10 digits)
  pure (if negative then -n else n)

/-- The digits after the point of a float. -/
def fraction : Reader (List Char) := do
  Reader.char '.'
  groupedDigits Char.isDigit

/-- A float. One that is too great is refused, one that is too small is not. -/
def float : Reader Unit :=
  (do
    let (negative, whole) ← signedDigits
    let decimals ← Reader.optional fraction
    let power ← match decimals with
      | some _ => Reader.optional exponent
      | none => (do let e ← exponent; pure (some e))
    let places := decimals.getD []
    let mantissa := ofDigits 10 (whole ++ places)
    if !negative && overflows mantissa (power.getD 0 - Int.ofNat places.length) then failure)
  <|> (do
    let _ ← sign
    Reader.word "inf" <|> Reader.word "nan")

/-! ### Dates and times -/

/-- A number of `n` decimal digits between two bounds. -/
def digitsBetween (n least greatest : Nat) : Reader Nat := do
  let digits ← Reader.exactly Char.isDigit n
  let value := ofDigits 10 digits
  if least ≤ value ∧ value ≤ greatest then pure value else failure

def daysIn (year month : Nat) : Nat :=
  if month = 2 then
    if year % 4 = 0 ∧ (year % 100 ≠ 0 ∨ year % 400 = 0) then 29 else 28
  else if month = 4 ∨ month = 6 ∨ month = 9 ∨ month = 11 then 30
  else 31

def date : Reader Unit := do
  let year ← digitsBetween 4 0 9999
  Reader.char '-'
  let month ← digitsBetween 2 1 12
  Reader.char '-'
  let _ ← digitsBetween 2 1 (daysIn year month)

/-- A time of day; a minute may have a leap second. -/
def timeOfDay : Reader Unit := do
  let _ ← digitsBetween 2 0 23
  Reader.char ':'
  let _ ← digitsBetween 2 0 59
  Reader.char ':'
  let _ ← digitsBetween 2 0 60
  let _ ← Reader.optional (do
    Reader.char '.'
    let _ ← Reader.satisfying Char.isDigit
    Reader.span Char.isDigit)

/-- The distance of a time from universal time. -/
def zone : Reader Unit :=
  (do let _ ← Reader.satisfying fun c => c == 'Z' || c == 'z')
  <|> (do
    let _ ← Reader.satisfying fun c => c == '+' || c == '-'
    let _ ← digitsBetween 2 0 23
    Reader.char ':'
    let _ ← digitsBetween 2 0 59)

/-- A date, a time, or both, with or without a zone. -/
def moment : Reader Unit :=
  (do
    date
    let _ ← Reader.optional (do
      let _ ← Reader.satisfying fun c => c == 'T' || c == 't' || c == ' '
      timeOfDay
      Reader.optional zone))
  <|> timeOfDay

end TileWalk.Toml
