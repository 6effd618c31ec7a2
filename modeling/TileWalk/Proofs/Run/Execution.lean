import TileWalk.Proofs.Session.Report
import TileWalk.Session.Run

/-!
How a run proceeds from command to command: where the walk to the next command ends, what the log
says of it, and how many commands a number of due intervals executes. The main statement,
`executeDue_add`, is that carrying out `m + n` due commands is carrying out `m` and then `n`.
-/

namespace TileWalk

namespace Run

variable {policy : TailCall} {queues : Slots (List Command)} {tileUnder : Cursor → Tile}

/-! ### The next command of a subroutine -/

/-- What `fetch?` finds is the first command not skipped, and the index after it. -/
theorem fetch?_eq_some {tile : Tile} {index next : Nat} {commands : List Command} {c : Command}
    (h : fetch? tile index commands = some (next, c)) :
    ∃ passed rest, commands = passed ++ c :: rest ∧ (∀ p ∈ passed, p.isSkipped tile = true) ∧
      c.isSkipped tile = false ∧ next = index + passed.length + 1 := by
  induction commands generalizing index with
  | nil => simp [fetch?] at h
  | cons head rest ih =>
    by_cases hskip : head.isSkipped tile = true
    · rw [fetch?, if_pos hskip] at h
      obtain ⟨passed, after, rfl, hpassed, hc, rfl⟩ := ih h
      refine ⟨head :: passed, after, rfl, ?_, hc, by rw [List.length_cons]; omega⟩
      intro p hp
      rcases List.mem_cons.mp hp with rfl | hp
      · exact hskip
      · exact hpassed p hp
    · rw [fetch?, if_neg hskip] at h
      obtain ⟨rfl, rfl⟩ : index + 1 = next ∧ head = c := by simpa using h
      exact ⟨[], rest, rfl, by simp, by simpa using hskip, rfl⟩

theorem isSkipped_of_fetch?_eq_none {tile : Tile} {index : Nat} {commands : List Command}
    (h : fetch? tile index commands = none) : ∀ c ∈ commands, c.isSkipped tile = true := by
  induction commands generalizing index with
  | nil => simp
  | cons head rest ih =>
    by_cases hskip : head.isSkipped tile = true
    · rw [fetch?, if_pos hskip] at h
      intro c hc
      rcases List.mem_cons.mp hc with rfl | hc
      · exact hskip
      · exact ih h c hc
    · simp [fetch?, hskip] at h

/-- An activation moved past the command that was fetched has left the commands after it. -/
theorem rest_of_fetch? {tile : Tile} {a : Activation} {next : Nat} {c : Command}
    (h : fetch? tile a.next (Activation.rest queues a) = some (next, c)) :
    ∃ passed, Activation.rest queues a = passed ++ c :: Activation.rest queues { a with next } ∧
      (∀ p ∈ passed, p.isSkipped tile = true) ∧ c.isSkipped tile = false := by
  obtain ⟨passed, rest, hrest, hpassed, hc, hnext⟩ := fetch?_eq_some h
  have hdrop : Activation.rest queues { a with next } = rest := by
    have := congrArg (List.drop (passed.length + 1)) hrest
    rw [Activation.rest, List.drop_drop] at this
    rw [Activation.rest, hnext, Nat.add_assoc, this]
    simp
  exact ⟨passed, hdrop ▸ hrest, hpassed, hc⟩

/-! ### The walk to the next command -/

theorem seek_of_fetch?_eq_some {tile : Tile} {a : Activation} {next : Nat} {c : Command}
    (callers : List Activation)
    (h : fetch? tile a.next (Activation.rest queues a) = some (next, c)) :
    (seek queues tile (a :: callers)).1 =
      if tile = .void then .finished .offPath else .waiting ({ a with next } :: callers) c := by
  simp only [seek, h]

theorem seek_of_fetch?_eq_none {tile : Tile} {a : Activation} (callers : List Activation)
    (h : fetch? tile a.next (Activation.rest queues a) = none) :
    (seek queues tile (a :: callers)).1 =
      if a.byCall ∧ tile = .goal then .finished .won else (seek queues tile callers).1 := by
  simp only [seek, h]
  split <;> rfl

theorem isAside_of_mem_fetchNotes {tile : Tile} {s : Subroutine} {index : Nat}
    {commands : List Command} {note : Note} (h : note ∈ fetchNotes tile s index commands) :
    note.IsAside := by
  induction commands generalizing index with
  | nil =>
    obtain rfl : note = .leaving s := by simpa [fetchNotes] using h
    exact ⟨rfl, rfl⟩
  | cons head rest ih =>
    rw [fetchNotes] at h
    split at h
    · rcases List.mem_cons.mp h with rfl | h
      · exact ⟨rfl, rfl⟩
      · exact ih h
    · simp at h

/-- The walk to the next command executes nothing. -/
theorem isAside_of_mem_seek {tile : Tile} {stack : List Activation} {note : Note}
    (h : note ∈ (seek queues tile stack).2) : note.IsAside := by
  induction stack with
  | nil => simp [seek] at h
  | cons a callers ih =>
    rw [seek] at h
    split at h
    · exact isAside_of_mem_fetchNotes h
    · split at h
      · exact isAside_of_mem_fetchNotes h
      · rcases List.mem_append.mp h with h | h
        · exact isAside_of_mem_fetchNotes h
        · exact ih h

@[simp] theorem operations_execute (cursor : Cursor) (stack : List Activation)
    (command : Command) :
    (execute policy queues tileUnder cursor stack command).report.operations =
      [command.operation] := by
  have hseek : ∀ (events : List Event) (tile : Tile) (stack : List Activation),
      (Report.mk events (seek queues tile stack).2).operations = [] := fun _ _ _ =>
    Report.operations_of_asides fun _ => isAside_of_mem_seek
  cases h : command.operation with
  | move motion =>
    simp only [execute, h, Report.operations_executing]
    split
    · rfl
    · rw [hseek]
  | call s => simp only [execute, h, Report.operations_executing, hseek]
  | unknown => simp only [execute, h, Report.operations_executing, hseek]

/-! ### Due commands -/

/-- A run that is over stays over. -/
theorem executeDue_of_finished {stage : Stage} {outcome : Outcome}
    (h : stage.pause = .finished outcome) (due : Nat) :
    executeDue policy queues tileUnder due stage = .stay stage := by
  cases due with
  | zero => rfl
  | succ due => simp only [executeDue, h]

theorem executeDue_of_waiting {stage : Stage} {stack : List Activation} {command : Command}
    (h : stage.pause = .waiting stack command) (due : Nat) :
    executeDue policy queues tileUnder (due + 1) stage =
      (execute policy queues tileUnder stage.cursor stack command).next fun after =>
        executeDue policy queues tileUnder due
          ⟨after.1, increment stage.executed, after.2⟩ := by
  simp only [executeDue, h]

theorem executeDue_add (m n : Nat) (stage : Stage) :
    executeDue policy queues tileUnder (m + n) stage =
      (executeDue policy queues tileUnder m stage).next
        (executeDue policy queues tileUnder n) := by
  induction m generalizing stage with
  | zero =>
    rw [Nat.zero_add]
    rfl
  | succ m ih =>
    rw [Nat.add_right_comm]
    cases h : stage.pause with
    | finished outcome =>
      rw [executeDue_of_finished h, executeDue_of_finished h]
      exact (executeDue_of_finished h n).symm
    | waiting stack command =>
      rw [executeDue_of_waiting h, executeDue_of_waiting h, Step.next_assoc]
      simp only [ih]

theorem length_operations_executeDue_le (due : Nat) (stage : Stage) :
    (executeDue policy queues tileUnder due stage).report.operations.length ≤ due := by
  induction due generalizing stage with
  | zero => exact Nat.le_refl 0
  | succ due ih =>
    cases h : stage.pause with
    | finished outcome =>
      rw [executeDue_of_finished h]
      exact Nat.zero_le _
    | waiting stack command =>
      rw [executeDue_of_waiting h, Step.report_next, Report.operations_append,
        operations_execute, List.singleton_append, List.length_cons]
      exact Nat.succ_le_succ (ih _)

/-- A run that still waits has executed every command that fell due. -/
theorem length_operations_of_waiting {due : Nat} {stage : Stage} {stack : List Activation}
    {command : Command}
    (h : (executeDue policy queues tileUnder due stage).state.pause = .waiting stack command) :
    (executeDue policy queues tileUnder due stage).report.operations.length = due := by
  induction due generalizing stage with
  | zero => rfl
  | succ due ih =>
    cases hpause : stage.pause with
    | finished outcome =>
      rw [executeDue_of_finished hpause, Step.state_stay, hpause] at h
      contradiction
    | waiting stack command =>
      rw [executeDue_of_waiting hpause] at h ⊢
      rw [Step.report_next, Report.operations_append, operations_execute,
        List.singleton_append, List.length_cons, ih h]

/-- The counter counts the executed commands, until it saturates. -/
theorem toNat_executed_executeDue (due : Nat) (stage : Stage) :
    (executeDue policy queues tileUnder due stage).state.executed.toNat =
      min (stage.executed.toNat +
        (executeDue policy queues tileUnder due stage).report.operations.length) 4294967295 := by
  have hmax : ∀ n : UInt32, n.toNat ≤ 4294967295 := fun n => Nat.le_of_lt_succ n.toNat_lt
  induction due generalizing stage with
  | zero => exact (Nat.min_eq_left (hmax _)).symm
  | succ due ih =>
    cases hpause : stage.pause with
    | finished outcome =>
      rw [executeDue_of_finished hpause]
      exact (Nat.min_eq_left (hmax _)).symm
    | waiting stack command =>
      rw [executeDue_of_waiting hpause, Step.state_next, Step.report_next, ih,
        Report.operations_append, operations_execute, List.length_append, List.length_singleton,
        toNat_increment]
      omega

/-- Executing commands reports nothing but where the cursor goes. -/
theorem eq_cursor_of_mem_executeDue {due : Nat} {stage : Stage} {event : Event}
    (h : event ∈ (executeDue policy queues tileUnder due stage).report.events) :
    ∃ cursor, event = .cursor cursor := by
  induction due generalizing stage with
  | zero => simp [executeDue] at h
  | succ due ih =>
    cases hpause : stage.pause with
    | finished outcome =>
      rw [executeDue_of_finished hpause] at h
      simp at h
    | waiting stack command =>
      rw [executeDue_of_waiting hpause, Step.report_next, Report.events_append,
        List.mem_append] at h
      rcases h with h | h
      · cases hop : command.operation <;> simp only [execute, hop, List.not_mem_nil] at h
        next motion => exact ⟨_, List.mem_singleton.mp h⟩
      · exact ih h

end Run

end TileWalk
