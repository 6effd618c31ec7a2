import TileWalk.Cursor
import TileWalk.Json.Reader
import TileWalk.Subroutine
import TileWalk.Tile

/-!
The JSON forms of directions, colors, subroutines, poses and level keys. A name from a fixed list is
a string, or an object with that name as its only member and `null` as its value. A pose is an
object with the members `x`, `y` and `dir`, or an array of the three. Main statements: what is
written is read back.
-/

namespace TileWalk

open Json

namespace Json

/-- The value of a list with exactly this label. -/
def named? {α : Type} (label : α → String) (values : List α) : Value → Option α
  | .string (some name) | .object [(some name, .null)] =>
    values.find? fun a => label a == name
  | _ => none

def word? : Value → Option UInt32
  | .natural n => if n < 4294967296 then some (UInt32.ofNat n) else none
  | _ => none

/-- The value of a member that occurs once. -/
def member? (name : String) (members : List (Option String × Value)) : Option Value :=
  match members.filter fun member => member.1 == some name with
  | [(_, v)] => some v
  | _ => none

end Json

def Direction.ofJson? : Value → Option Direction := Json.named? label all

def Direction.toJson (d : Direction) : Value := .string (some d.label)

def Color.ofJson? : Value → Option Color := Json.named? label all

def Color.toJson (c : Color) : Value := .string (some c.label)

def Subroutine.ofJson? : Value → Option Subroutine := Json.named? label all

def Subroutine.toJson (s : Subroutine) : Value := .string (some s.label)

/-- A pose from its form. Members with other names are passed over if their names are texts. -/
def Cursor.ofJson? : Value → Option Cursor
  | .object members => do
    guard (members.all fun member => member.1.isSome)
    let x ← Json.member? "x" members >>= word?
    let y ← Json.member? "y" members >>= word?
    let direction ← Json.member? "dir" members >>= Direction.ofJson?
    pure ⟨x, y, direction⟩
  | .array [x, y, direction] => do
    let x ← word? x
    let y ← word? y
    let direction ← Direction.ofJson? direction
    pure ⟨x, y, direction⟩
  | _ => none

def Cursor.toJson (c : Cursor) : Value :=
  .object [(some "x", .natural c.x.toNat), (some "y", .natural c.y.toNat),
    (some "dir", c.direction.toJson)]

def levelKeyOfJson? : Value → Option String
  | .string text => text
  | _ => none

def levelKeyToJson (key : String) : Value := .string (some key)

theorem Direction.ofJson?_toJson (d : Direction) : ofJson? d.toJson = some d := by
  cases d <;> decide

theorem Color.ofJson?_toJson (c : Color) : ofJson? c.toJson = some c := by
  cases c <;> decide

theorem Subroutine.ofJson?_toJson (s : Subroutine) : ofJson? s.toJson = some s := by
  cases s <;> decide

theorem Cursor.ofJson?_toJson (c : Cursor) : ofJson? c.toJson = some c := by
  cases c with
  | mk x y d =>
    have hx : x.toNat < 4294967296 := x.toNat_lt
    have hy : y.toNat < 4294967296 := y.toNat_lt
    have hmembers : ofJson? (toJson ⟨x, y, d⟩) =
        (word? (.natural x.toNat)).bind fun x =>
          (word? (.natural y.toNat)).bind fun y =>
            (Direction.ofJson? d.toJson).bind fun direction => some ⟨x, y, direction⟩ := rfl
    rw [hmembers]
    simp [word?, Direction.ofJson?_toJson, hx, hy]

end TileWalk
