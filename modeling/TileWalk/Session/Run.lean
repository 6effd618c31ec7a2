import TileWalk.Session.Report

/-!
The engine that runs the three queues against the cursor. A run is a stack of activations, one for
each subroutine entered and not yet left, and the command that waits for its delay. `seek` walks the
stack to the next command that does something on the current tile; `execute` carries a waiting
command out and seeks the next; `executeDue` does so for as many commands as have fallen due.

Queues and level never change while a run is in flight, so the engine takes them as parameters: the
three command lists, and the tile under a cursor.
-/

namespace TileWalk

/-- A subroutine entered and not yet left. -/
structure Activation where
  subroutine : Subroutine
  /-- The index of the first command not yet passed. -/
  next : Nat
  /-- A call entered the subroutine, so leaving it on the goal wins. -/
  byCall : Bool
deriving DecidableEq, Inhabited

/-- Where a run has come to between two commands. The innermost activation heads the stack. -/
inductive Pause
  /-- The command waits for its delay. -/
  | waiting (stack : List Activation) (command : Command)
  | finished (outcome : Outcome)
deriving DecidableEq, Inhabited

/-- What a call does with a caller that has no command left. -/
inductive TailCall
  /-- The called subroutine takes the place of the caller. -/
  | replace
  /-- The caller stays on the stack until the called subroutine is left. -/
  | nest
deriving DecidableEq, Inhabited

/-- A run between two commands, with the cursor. -/
structure Stage where
  cursor : Cursor
  /-- The number of commands executed so far; it saturates. -/
  executed : UInt32
  pause : Pause
deriving DecidableEq, Inhabited

/-- A run in flight: its stack, the command that waits, the time it has waited, and the number of
commands executed before it. -/
structure Run where
  stack : List Activation
  command : Command
  elapsed : Duration
  executed : UInt32
deriving DecidableEq, Inhabited

namespace Run

/-- The stack of a run that begins: the first subroutine, entered without a call. -/
def initialStack : List Activation := [⟨.f1, 0, false⟩]

/-- The first of `commands` that is not skipped on `tile`, and the index after it. The commands are
those of a subroutine from `index` on. -/
def fetch? (tile : Tile) : Nat → List Command → Option (Nat × Command)
  | _, [] => none
  | index, c :: rest =>
    if c.isSkipped tile then fetch? tile (index + 1) rest else some (index + 1, c)

/-- The notes about the commands that `fetch?` passes, and about leaving the subroutine. -/
def fetchNotes (tile : Tile) (s : Subroutine) : Nat → List Command → List Note
  | _, [] => [.leaving s]
  | index, c :: rest =>
    if c.isSkipped tile then
      .skipping c.operation s index tile :: fetchNotes tile s (index + 1) rest
    else []

/-- The commands that an activation has not passed. -/
def Activation.rest (queues : Slots (List Command)) (a : Activation) : List Command :=
  (queues.get a.subroutine).drop a.next

/-- Walks to the next command that runs on `tile`. An activation without such a command is left, and
the run is won if a call had entered it and `tile` is the goal. A command about to run on void ends
the run, and so does leaving the last activation. -/
def seek (queues : Slots (List Command)) (tile : Tile) : List Activation → Pause × List Note
  | [] => (.finished .exhausted, [])
  | a :: callers =>
    let notes := fetchNotes tile a.subroutine a.next (Activation.rest queues a)
    match fetch? tile a.next (Activation.rest queues a) with
    | some (next, command) =>
      (if tile = .void then .finished .offPath else .waiting ({ a with next } :: callers) command,
        notes)
    | none =>
      if a.byCall ∧ tile = .goal then (.finished .won, notes)
      else
        let outer := seek queues tile callers
        (outer.1, notes ++ outer.2)

/-- The stack after a call of `s`. -/
def call (policy : TailCall) (queues : Slots (List Command)) (s : Subroutine) :
    List Activation → List Activation
  | [] => [⟨s, 0, true⟩]
  | caller :: callers =>
    if policy = .replace ∧ (Activation.rest queues caller).isEmpty then ⟨s, 0, true⟩ :: callers
    else ⟨s, 0, true⟩ :: caller :: callers

/-- Carries out the waiting `command` and seeks the next. A motion that ends on the goal wins at
once. -/
def execute (policy : TailCall) (queues : Slots (List Command)) (tileUnder : Cursor → Tile)
    (cursor : Cursor) (stack : List Activation) (command : Command) : Step (Cursor × Pause) :=
  match command.operation with
  | .move motion =>
    let moved := cursor.step motion
    let sought :=
      if tileUnder moved = .goal then (.finished .won, []) else seek queues (tileUnder moved) stack
    ⟨(moved, sought.1), ⟨[.cursor moved], .executing command.operation :: sought.2⟩⟩
  | .call s =>
    let sought := seek queues (tileUnder cursor) (call policy queues s stack)
    ⟨(cursor, sought.1), ⟨[], .executing command.operation :: sought.2⟩⟩
  | .unknown =>
    let sought := seek queues (tileUnder cursor) stack
    ⟨(cursor, sought.1), ⟨[], .executing command.operation :: sought.2⟩⟩

/-- Carries out `due` commands, or fewer if the run ends before. -/
def executeDue (policy : TailCall) (queues : Slots (List Command)) (tileUnder : Cursor → Tile) :
    Nat → Stage → Step Stage
  | 0, stage => .stay stage
  | due + 1, stage =>
    match stage.pause with
    | .finished _ => .stay stage
    | .waiting stack command =>
      (execute policy queues tileUnder stage.cursor stack command).next fun after =>
        executeDue policy queues tileUnder due
          ⟨after.1, increment stage.executed, after.2⟩

end Run

end TileWalk
