import TileWalk.Proofs.Run.Course

/-!
The engine takes the course of the program that it runs: `Course.ofStep_run` says that carrying out
some due commands with a stack of activations is following the recursive meaning for as many
commands. In between, `Course.ofStack` reads a stack as the command lists still to run, each with
the goal check of its return.
-/

namespace TileWalk

/-- What a pause between two commands says of the commands before it. -/
def Halt.ofPause : Pause → Halt
  | .waiting _ command => .spent command
  | .finished outcome => .stopped outcome

namespace Course

/-- The course that a step of the engine reports. -/
def ofStep (step : Step Stage) : Course :=
  ⟨step.report.operations, step.report.poses, step.state.cursor, .ofPause step.state.pause⟩

variable (queues : Slots (List Command)) (tileUnder : Cursor → Tile)

/-- The course of a stack: what is left of each activation runs, then its caller goes on. A called
subroutine that returns on the goal wins. -/
def ofStack (budget : Nat) (cursor : Cursor) : List Activation → Course
  | [] => halted cursor (.stopped .exhausted)
  | a :: callers =>
    (ofCommands queues tileUnder budget cursor (Run.Activation.rest queues a)).andThen
      fun used back =>
        if a.byCall ∧ tileUnder back = .goal then halted back (.stopped .won)
        else ofStack (budget - used) back callers

/-- The course from a pause on. -/
def ofPause (budget : Nat) (cursor : Cursor) : Pause → Course
  | .finished outcome => halted cursor (.stopped outcome)
  | .waiting stack command =>
    match budget, command.operation with
    | 0, _ => halted cursor (.spent command)
    | budget + 1, .move motion =>
      executing (.move motion) [cursor.step motion]
        (unlessWon tileUnder (cursor.step motion)
          (ofStack queues tileUnder budget (cursor.step motion) stack))
    | budget + 1, .call s =>
      executing (.call s) [] (ofStack queues tileUnder budget cursor (⟨s, 0, true⟩ :: stack))
    | budget + 1, .unknown =>
      executing .unknown [] (ofStack queues tileUnder budget cursor stack)

variable {queues tileUnder}

/-- A program is the stack that its run starts with. -/
theorem ofProgram_eq_ofStack (budget : Nat) (cursor : Cursor) :
    ofProgram queues tileUnder budget cursor =
      ofStack queues tileUnder budget cursor Run.initialStack := by
  simp [ofProgram, ofStack, Run.initialStack, Run.Activation.rest]

/-- A called subroutine on top of a stack runs its whole queue. -/
theorem ofStack_called (budget : Nat) (cursor : Cursor) (s : Subroutine)
    (stack : List Activation) :
    ofStack queues tileUnder budget cursor (⟨s, 0, true⟩ :: stack) =
      (ofCommands queues tileUnder budget cursor (queues.get s)).andThen fun used back =>
        unlessWon tileUnder back (ofStack queues tileUnder (budget - used) back stack) := by
  simp only [ofStack, Run.Activation.rest, List.drop_zero, true_and, unlessWon]

/-- The course of a stack is the course from where the walk to the next command ends. -/
theorem ofStack_eq_ofPause (budget : Nat) (cursor : Cursor) (stack : List Activation) :
    ofStack queues tileUnder budget cursor stack =
      ofPause queues tileUnder budget cursor
        (Run.seek queues (tileUnder cursor) stack).1 := by
  induction stack with
  | nil => rfl
  | cons a callers ih =>
    cases hfetch : Run.fetch? (tileUnder cursor) a.next (Run.Activation.rest queues a) with
    | some found =>
      obtain ⟨passed, hrest, hpassed, hc⟩ := Run.rest_of_fetch? hfetch
      rw [Run.seek_of_fetch?_eq_some callers hfetch, ofStack, hrest,
        ofCommands_of_skipped hpassed, ofCommands_cons hc]
      by_cases hvoid : tileUnder cursor = .void
      · rw [if_pos hvoid, if_pos hvoid]
        rfl
      · rw [if_neg hvoid, if_neg hvoid]
        cases budget with
        | zero => rfl
        | succ budget =>
          cases hop : found.2.operation with
          | move motion =>
            simp only [ofPause, hop, executing_andThen, unlessWon_andThen, Nat.add_sub_add_right]
            rfl
          | call s =>
            -- the rest of the caller comes after the called subroutine and before the callers, so
            -- the two ways of chaining the three differ in where the brackets stand
            simp only [ofPause, hop, executing_andThen, andThen_assoc, unlessWon_andThen,
              Nat.add_sub_add_right, ofStack_called]
            simp only [Nat.sub_add_eq]
            rfl
          | unknown =>
            simp only [ofPause, hop, executing_andThen, Nat.add_sub_add_right]
            rfl
    | none =>
      -- all that is left is skipped: the activation returns at once
      have hskipped : ofCommands queues tileUnder budget cursor (Run.Activation.rest queues a) =
          halted cursor .returned := by
        rw [← List.append_nil (Run.Activation.rest queues a),
          ofCommands_of_skipped (Run.isSkipped_of_fetch?_eq_none hfetch), ofCommands_nil]
      rw [Run.seek_of_fetch?_eq_none callers hfetch, ofStack, hskipped, halted_andThen_returned]
      split
      · rfl
      · exact ih

/-- A caller with no command left may be dropped: the goal check of the subroutine that it calls
comes first. -/
theorem ofStack_call (policy : TailCall) (budget : Nat) (cursor : Cursor) (s : Subroutine)
    (stack : List Activation) :
    ofStack queues tileUnder budget cursor (Run.call policy queues s stack) =
      ofStack queues tileUnder budget cursor (⟨s, 0, true⟩ :: stack) := by
  cases stack with
  | nil => rfl
  | cons caller callers =>
    rw [Run.call]
    split
    · next h =>
      have hrest : Run.Activation.rest queues caller = [] := List.isEmpty_iff.mp h.2
      rw [ofStack_called, ofStack_called]
      congr 1
      funext used back
      unfold unlessWon
      split
      · rfl
      · next hgoal =>
        rw [ofStack, hrest, ofCommands_nil, halted_andThen_returned,
          if_neg fun hwon => hgoal hwon.2]
        rfl
    · rfl

/-! ### The engine -/

/-- A step that begins with an execution. -/
theorem ofStep_executing {events : List Event} {operation : Operation} {notes : List Note}
    (hnotes : ∀ note ∈ notes, note.IsAside) (arrival : Cursor × Pause)
    (f : Cursor × Pause → Step Stage) :
    ofStep (Step.next ⟨arrival, ⟨events, .executing operation :: notes⟩⟩ f) =
      executing operation (events.filterMap Event.pose?) (ofStep (f arrival)) := by
  simp only [ofStep, executing, Step.report_next, Step.state_next, Report.operations_append,
    Report.poses_append, Report.operations_executing, Report.operations_of_asides hnotes]
  rfl

/-- Carrying out due commands is following the course of what is left to run. -/
theorem ofStep_executeDue (policy : TailCall) (due : Nat) (stage : Stage) :
    ofStep (Run.executeDue policy queues tileUnder due stage) =
      ofPause queues tileUnder due stage.cursor stage.pause := by
  induction due generalizing stage with
  | zero =>
    obtain ⟨cursor, executed, pause⟩ := stage
    cases pause <;> rfl
  | succ due ih =>
    cases hpause : stage.pause with
    | finished outcome =>
      rw [Run.executeDue_of_finished hpause]
      simp only [ofStep, Step.state_stay, Step.report_stay, hpause]
      rfl
    | waiting stack command =>
      have hseek : ∀ {tile : Tile} {stack : List Activation},
          ∀ note ∈ (Run.seek queues tile stack).2, note.IsAside := fun _ => Run.isAside_of_mem_seek
      rw [Run.executeDue_of_waiting hpause]
      cases hop : command.operation with
      | move motion =>
        simp only [Run.execute, hop, ofPause, unlessWon]
        by_cases hgoal : tileUnder (stage.cursor.step motion) = .goal
        · rw [if_pos hgoal, if_pos hgoal, ofStep_executing (by simp), ih]
          rfl
        · rw [if_neg hgoal, if_neg hgoal, ofStep_executing hseek, ih, ← ofStack_eq_ofPause]
          rfl
      | call s =>
        simp only [Run.execute, hop, ofPause]
        rw [ofStep_executing hseek, ih, ← ofStack_eq_ofPause, ofStack_call]
        rfl
      | unknown =>
        simp only [Run.execute, hop, ofPause]
        rw [ofStep_executing hseek, ih, ← ofStack_eq_ofPause]
        rfl

/-- A run from its first stage on follows the course of its program. -/
theorem ofStep_run (policy : TailCall) (due : Nat) (cursor : Cursor) (executed : UInt32) :
    ofStep (Run.executeDue policy queues tileUnder due
        ⟨cursor, executed, (Run.seek queues (tileUnder cursor) Run.initialStack).1⟩) =
      ofProgram queues tileUnder due cursor := by
  rw [ofStep_executeDue, ← ofStack_eq_ofPause, ofProgram_eq_ofStack]

end Course

end TileWalk
