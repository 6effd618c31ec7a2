import TileWalk.Proofs.Run.Execution

/-!
The recursive meaning of programs. `Course.ofCommands` runs a command list by plain recursion, with
no stack: a call runs the whole queue of its subroutine and then goes on with the rest. Programs
need not end, so a course is followed for a number of commands, its budget.
-/

namespace TileWalk

/-- How the running of some commands comes to a halt. -/
inductive Halt
  /-- All commands are done. -/
  | returned
  /-- The command is about to execute, but the budget is spent. -/
  | spent (command : Command)
  /-- The whole program stops. -/
  | stopped (outcome : Outcome)
deriving DecidableEq

/-- What some commands do: the operations executed, the poses that result, and where and how it
comes to a halt. -/
structure Course where
  executed : List Operation
  poses : List Cursor
  cursor : Cursor
  halt : Halt
deriving DecidableEq

namespace Course

/-- Nothing executes. -/
def halted (cursor : Cursor) (halt : Halt) : Course := ⟨[], [], cursor, halt⟩

/-- One operation executes, and then all that `rest` says. -/
def executing (operation : Operation) (poses : List Cursor) (rest : Course) : Course :=
  { rest with
    executed := operation :: rest.executed
    poses := poses ++ rest.poses }

/-- A course and, if it returns, another one from there, which is told how many commands the first
has executed. -/
def andThen (first : Course) (next : Nat → Cursor → Course) : Course :=
  match first.halt with
  | .returned =>
    let second := next first.executed.length first.cursor
    { second with
      executed := first.executed ++ second.executed
      poses := first.poses ++ second.poses }
  | _ => first

/-- Nothing executes on the goal, where the program is won. -/
def unlessWon (tileUnder : Cursor → Tile) (cursor : Cursor) (rest : Course) : Course :=
  if tileUnder cursor = .goal then halted cursor (.stopped .won) else rest

/-- The course of a command list from `cursor` on, for at most `budget` executed commands. -/
def ofCommands (queues : Slots (List Command)) (tileUnder : Cursor → Tile) (budget : Nat)
    (cursor : Cursor) : List Command → Course
  | [] => halted cursor .returned
  | c :: rest =>
    if c.operation = .unknown ∨ (tileUnder cursor).admits c.condition = false then
      ofCommands queues tileUnder budget cursor rest
    else if tileUnder cursor = .void then halted cursor (.stopped .offPath)
    else
      match budget, c.operation with
      | 0, _ => halted cursor (.spent c)
      | budget + 1, .move motion =>
        let moved := cursor.step motion
        executing (.move motion) [moved]
          (unlessWon tileUnder moved (ofCommands queues tileUnder budget moved rest))
      | budget + 1, .call s =>
        executing (.call s) []
          ((ofCommands queues tileUnder budget cursor (queues.get s)).andThen fun used back =>
            unlessWon tileUnder back (ofCommands queues tileUnder (budget - used) back rest))
      -- not the case here: the command would have been skipped
      | budget + 1, .unknown =>
        executing .unknown [] (ofCommands queues tileUnder budget cursor rest)
termination_by commands => (budget, commands.length)
decreasing_by
  · exact .right _ (Nat.lt_succ_self _)
  · exact .left _ _ (Nat.lt_succ_self _)
  · exact .left _ _ (Nat.lt_succ_self _)
  · exact .left _ _ (Nat.lt_succ_of_le (Nat.sub_le _ _))
  · exact .left _ _ (Nat.lt_succ_self _)

/-- The course of a program: its first subroutine runs, and the program is exhausted when that
returns. -/
def ofProgram (queues : Slots (List Command)) (tileUnder : Cursor → Tile) (budget : Nat)
    (cursor : Cursor) : Course :=
  (ofCommands queues tileUnder budget cursor (queues.get .f1)).andThen fun _ back =>
    halted back (.stopped .exhausted)

/-! ### Courses one after the other -/

@[simp] theorem halted_andThen_returned (cursor : Cursor) (next : Nat → Cursor → Course) :
    (halted cursor .returned).andThen next = next 0 cursor := rfl

theorem executing_andThen (operation : Operation) (poses : List Cursor) (rest : Course)
    (next : Nat → Cursor → Course) :
    (executing operation poses rest).andThen next =
      executing operation poses (rest.andThen fun used => next (used + 1)) := by
  obtain ⟨executed, later, cursor, halt⟩ := rest
  cases halt <;> simp [executing, andThen, List.append_assoc]

theorem unlessWon_andThen (tileUnder : Cursor → Tile) (cursor : Cursor) (rest : Course)
    (next : Nat → Cursor → Course) :
    (unlessWon tileUnder cursor rest).andThen next =
      unlessWon tileUnder cursor (rest.andThen next) := by
  unfold unlessWon
  split <;> rfl

theorem andThen_assoc (first : Course) (next after : Nat → Cursor → Course) :
    (first.andThen next).andThen after =
      first.andThen fun used back => (next used back).andThen fun more => after (used + more) := by
  obtain ⟨executed, poses, cursor, halt⟩ := first
  cases halt with
  | returned =>
    simp only [andThen]
    cases h : (next executed.length cursor).halt <;> simp [h, List.append_assoc]
  | spent command => rfl
  | stopped outcome => rfl

/-! ### The cases of a command list -/

variable {queues : Slots (List Command)} {tileUnder : Cursor → Tile}

@[simp] theorem ofCommands_nil (budget : Nat) (cursor : Cursor) :
    ofCommands queues tileUnder budget cursor [] = halted cursor .returned := by
  rw [ofCommands]

/-- Commands that are skipped cost nothing. -/
theorem ofCommands_of_skipped {cursor : Cursor} {passed : List Command}
    (hpassed : ∀ p ∈ passed, p.isSkipped (tileUnder cursor) = true) (budget : Nat)
    (rest : List Command) :
    ofCommands queues tileUnder budget cursor (passed ++ rest) =
      ofCommands queues tileUnder budget cursor rest := by
  induction passed with
  | nil => rfl
  | cons p passed ih =>
    have hskip : p.operation = .unknown ∨ (tileUnder cursor).admits p.condition = false := by
      simpa [Command.isSkipped] using hpassed p List.mem_cons_self
    rw [List.cons_append, ofCommands.eq_def]
    dsimp only
    rw [if_pos hskip]
    exact ih fun q hq => hpassed q (List.mem_cons_of_mem _ hq)

theorem ofCommands_cons {cursor : Cursor} {c : Command}
    (hc : c.isSkipped (tileUnder cursor) = false) (budget : Nat) (rest : List Command) :
    ofCommands queues tileUnder budget cursor (c :: rest) =
      if tileUnder cursor = .void then halted cursor (.stopped .offPath)
      else
        match budget, c.operation with
        | 0, _ => halted cursor (.spent c)
        | budget + 1, .move motion =>
          executing (.move motion) [cursor.step motion]
            (unlessWon tileUnder (cursor.step motion)
              (ofCommands queues tileUnder budget (cursor.step motion) rest))
        | budget + 1, .call s =>
          executing (.call s) []
            ((ofCommands queues tileUnder budget cursor (queues.get s)).andThen fun used back =>
              unlessWon tileUnder back (ofCommands queues tileUnder (budget - used) back rest))
        | budget + 1, .unknown =>
          executing .unknown [] (ofCommands queues tileUnder budget cursor rest) := by
  have hruns : ¬(c.operation = .unknown ∨ (tileUnder cursor).admits c.condition = false) := by
    simpa [Command.isSkipped] using hc
  rw [ofCommands.eq_def]
  dsimp only
  rw [if_neg hruns]

end Course

end TileWalk
