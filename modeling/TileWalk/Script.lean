import TileWalk.Session.Event

/-!
Scripts: whole programs in a compact text. A script is a list of sections separated by `;`, each a
subroutine, a colon, and commands separated by blanks:

    F1: F R g:2 1; F2: L r:F

`F` moves ahead, `L` and `R` turn, and a digit calls the subroutine with that number. A color and a
colon in front make a command conditional; green, red and blue may be shortened to one letter.
-/

namespace TileWalk

open TileWalk.Text

/-- A command of a script and the subroutine it belongs to. -/
structure ScriptLine where
  subroutine : Subroutine
  command : Command
deriving DecidableEq, Inhabited

namespace Script

inductive Fault
  /-- A section without a colon. -/
  | noColon (text : String)
  /-- A section for something that is no subroutine. -/
  | subroutine (name : String)
  /-- A second section for a subroutine. -/
  | repeated (s : Subroutine)
  /-- A token with an operation that there is not. -/
  | operation (token : String)
  /-- A token with a color that there is not. -/
  | color (token name : String)
deriving DecidableEq, Inhabited

def Fault.message : Fault → String
  | noColon text => s!"program section `{text}` does not start with `F1:`, `F2:` or `F3:`"
  | subroutine name => s!"unknown subroutine `{name}`"
  | repeated s => s.label ++ " appears in more than one section"
  | operation token => s!"unknown command `{token}`"
  | color token name => s!"unknown color `{name}` in `{token}`"

/-- The texts before and after the first `mark`. -/
def cutAt (mark : Char) : List Char → Option (List Char × List Char)
  | [] => none
  | c :: rest =>
    if c = mark then some ([], rest)
    else (cutAt mark rest).map fun (before, after) => (c :: before, after)

def operation? : List Char → Option Operation
  | ['F'] | ['f'] => some (.move .forward)
  | ['L'] | ['l'] => some (.move (.turn .left))
  | ['R'] | ['r'] => some (.move (.turn .right))
  | ['1'] => some (.call .f1)
  | ['2'] => some (.call .f2)
  | ['3'] => some (.call .f3)
  | _ => none

/-- The color of a name or of its short form. -/
def color? : List Char → Option Color
  | ['g'] => some .green
  | ['r'] => some .red
  | ['b'] => some .blue
  | name => Color.ofLabel? (String.ofList name)

/-- The condition that the part of `token` before its colon names. -/
def readColor (token : List Char) : Option (List Char) → Except Fault (Option Color)
  | none => .ok none
  | some name =>
    match color? name with
    | some color => .ok (some color)
    | none => .error (.color (String.ofList token) (String.ofList name))

/-- The command of a token. The color is looked at before the operation. -/
def readToken (token : List Char) : Except Fault Command :=
  let (name, letter) := match cutAt ':' token with
    | some (name, letter) => (some name, letter)
    | none => (none, token)
  match readColor token name with
  | .error e => .error e
  | .ok condition =>
    match operation? letter with
    | some operation => .ok ⟨operation, condition⟩
    | none => .error (.operation (String.ofList token))

/-- The subroutine and the tokens of a section that is not blank. -/
def readSection (text : List Char) : Except Fault (Subroutine × List (List Char)) :=
  match cutAt ':' text with
  | none => .error (.noColon (String.ofList text))
  | some (name, body) =>
    match Subroutine.ofLabel? (String.ofList name) with
    | some subroutine => .ok (subroutine, words body)
    | none => .error (.subroutine (trim (String.ofList name)))

/-- The commands of some sections. None may be for a subroutine in `seen` or that of another. -/
def readSections (seen : List Subroutine) : List (List Char) → Except Fault (List ScriptLine)
  | [] => .ok []
  | text :: rest =>
    if trimChars text = [] then readSections seen rest
    else do
      let (subroutine, tokens) ← readSection (trimChars text)
      if subroutine ∈ seen then throw (.repeated subroutine)
      let commands ← tokens.mapM readToken
      let lines ← readSections (subroutine :: seen) rest
      pure (commands.map (ScriptLine.mk subroutine) ++ lines)

/-- The commands of a script in the order of the text. -/
def parse (text : String) : Except Fault (List ScriptLine) :=
  readSections [] (text.toList.splitOn ';')

theorem cutAt_eq_some {mark : Char} {cs before after : List Char}
    (h : cutAt mark cs = some (before, after)) :
    cs = before ++ mark :: after ∧ mark ∉ before := by
  induction cs generalizing before with
  | nil => simp [cutAt] at h
  | cons c rest ih =>
    by_cases hc : c = mark
    · simp only [cutAt, hc, if_true, Option.some.injEq, Prod.mk.injEq] at h
      obtain ⟨rfl, rfl⟩ := h
      simp [hc]
    · simp only [cutAt, hc, if_false, Option.map_eq_some_iff, Prod.mk.injEq, Prod.exists] at h
      obtain ⟨a, b, hab, rfl, rfl⟩ := h
      obtain ⟨rfl, hnot⟩ := ih hab
      exact ⟨rfl, by simp [Ne.symm hc, hnot]⟩

theorem cutAt_eq_none_iff {mark : Char} {cs : List Char} : cutAt mark cs = none ↔ mark ∉ cs := by
  induction cs with
  | nil => simp [cutAt]
  | cons c rest ih =>
    by_cases hc : c = mark
    · simp [cutAt, hc]
    · simp [cutAt, hc, ih, Ne.symm hc]

end Script

/-- The action that adds the command of a line to the queue of its subroutine. -/
def ScriptLine.action (line : ScriptLine) : Action :=
  .submit line.command.operation.label (line.command.condition.map Color.label)
    (.slot line.subroutine)

end TileWalk
