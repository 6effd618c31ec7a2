import TileWalk.Proofs.Run.Pause

/-!
The callers on the stack of a run, below the innermost activation. Other commands follow the call
that such a caller made, for what the last command of a queue calls takes the place of its caller.
So every caller waits for something that it called (`Activation.Awaits`), and there are no more of
them than inner calls were executed, those that others follow (`Accounted.executeDue`).
-/

namespace TileWalk

def Command.isCall (c : Command) : Bool :=
  match c.operation with
  | .call _ => true
  | _ => false

/-- Where a command stands in a program. -/
structure Place where
  subroutine : Subroutine
  /-- The index in the queue of the subroutine. -/
  index : Nat
deriving DecidableEq

namespace Place

variable (queues : Slots (List Command)) (place : Place)

def command? : Option Command := (queues.get place.subroutine)[place.index]?

def operation? : Option Operation := (place.command? queues).map Command.operation

/-- A call stands there, and it is not the last command of its queue. -/
def isInnerCall : Bool :=
  (place.command? queues).any Command.isCall &&
    decide (place.index + 1 < (queues.get place.subroutine).length)

variable {queues place}

theorem isInnerCall_iff :
    place.isInnerCall queues = true ↔
      (∃ command, place.command? queues = some command ∧ command.isCall = true) ∧
        place.index + 1 < (queues.get place.subroutine).length := by
  rw [isInnerCall, Bool.and_eq_true, decide_eq_true_eq, Option.any_eq_true]

theorem isInnerCall_of_command? {command : Command} (h : place.command? queues = some command) :
    place.isInnerCall queues =
      (command.isCall && decide (place.index + 1 < (queues.get place.subroutine).length)) := by
  rw [isInnerCall, h, Option.any_some]

end Place

/-- Every call in the queues is the last command of its queue. -/
def CallsLast (queues : Slots (List Command)) : Prop :=
  ∀ sub, ∀ command ∈ (queues.get sub).dropLast, command.isCall = false

theorem CallsLast.isInnerCall {queues : Slots (List Command)} (h : CallsLast queues)
    (place : Place) : place.isInnerCall queues = false := by
  rw [Bool.eq_false_iff]
  intro hinner
  obtain ⟨⟨command, hcommand, hcall⟩, hlt⟩ := Place.isInnerCall_iff.mp hinner
  have hmem : command ∈ (queues.get place.subroutine).dropLast := by
    refine List.mem_of_getElem? (i := place.index) ?_
    rw [List.getElem?_dropLast, if_pos (by omega)]
    exact hcommand
  rw [h _ command hmem] at hcall
  contradiction

namespace Activation

/-- The place of the command that the activation passed last. -/
def passed (a : Activation) : Place := ⟨a.subroutine, a.next - 1⟩

/-- The activation waits for what it called: the command that it passed last is a call, and others
follow in its queue. -/
structure Awaits (queues : Slots (List Command)) (a : Activation) : Prop where
  one_le : 1 ≤ a.next
  lt : a.next < (queues.get a.subroutine).length
  call : ∃ command, (queues.get a.subroutine)[a.next - 1]? = some command ∧ command.isCall = true

theorem awaits_of_isInnerCall {queues : Slots (List Command)} {a : Activation} (hpos : 0 < a.next)
    (h : a.passed.isInnerCall queues = true) : a.Awaits queues := by
  obtain ⟨hcall, hlt⟩ := Place.isInnerCall_iff.mp h
  have hnext : a.next - 1 + 1 = a.next := Nat.sub_add_cancel hpos
  exact ⟨hpos, hnext ▸ hlt, hcall⟩

end Activation

/-- The activations below the innermost one. -/
def Pause.callers : Pause → List Activation
  | .waiting stack _ => stack.tail
  | .finished _ => []

namespace Run

variable {queues : Slots (List Command)} {tileUnder : Cursor → Tile}
variable {top : Activation} {callers : List Activation} {command : Command}
variable {places : List Place} {operations : List Operation}

/-! ### One command -/

/-- The walk to the next command leaves activations and adds none. -/
theorem callers_seek (queues : Slots (List Command)) (tile : Tile) (stack : List Activation) :
    (seek queues tile stack).1.callers <:+ stack.tail := by
  induction stack with
  | nil => exact List.nil_suffix
  | cons a callers ih =>
    cases hfetch : fetch? tile a.next (Activation.rest queues a) with
    | some found =>
      rw [seek_of_fetch?_eq_some callers hfetch]
      split
      · exact List.nil_suffix
      · exact List.suffix_rfl
    | none =>
      rw [seek_of_fetch?_eq_none callers hfetch]
      split
      · exact List.nil_suffix
      · exact ih.trans (List.tail_suffix callers)

/-- A caller stays below what it calls if others follow the call, and only then. -/
theorem tail_call (hpos : 0 < top.next) (hpassed : top.passed.command? queues = some command)
    (hcall : command.isCall = true) (s : Subroutine) (callers : List Activation) :
    (call .replace queues s (top :: callers)).tail =
      if top.passed.isInnerCall queues then top :: callers else callers := by
  have hnext : top.next - 1 + 1 = top.next := Nat.sub_add_cancel hpos
  have hinner : top.passed.isInnerCall queues = true ↔ Activation.rest queues top ≠ [] := by
    rw [Place.isInnerCall_of_command? hpassed, hcall, Bool.true_and, decide_eq_true_eq,
      Activation.passed, hnext, Activation.rest, Ne, List.drop_eq_nil_iff, Nat.not_le]
  by_cases hrest : Activation.rest queues top = []
  · rw [if_neg fun h => hinner.mp h hrest, call, if_pos ⟨rfl, List.isEmpty_iff.mpr hrest⟩]
    rfl
  · rw [if_pos (hinner.mpr hrest), call, if_neg fun h => hrest (List.isEmpty_iff.mp h.2)]
    rfl

/-- The callers after a command are among those before it, unless it is an inner call. -/
theorem callers_execute (hpos : 0 < top.next)
    (hpassed : top.passed.command? queues = some command) (cursor : Cursor)
    (callers : List Activation) :
    (execute .replace queues tileUnder cursor (top :: callers) command).state.2.callers <:+
      if top.passed.isInnerCall queues then top :: callers else callers := by
  have hplain : command.isCall = false → top.passed.isInnerCall queues = false := by
    intro hcall
    rw [Place.isInnerCall_of_command? hpassed, hcall, Bool.false_and]
  cases hop : command.operation with
  | move motion =>
    rw [hplain (by rw [Command.isCall, hop])]
    simp only [execute, hop]
    split
    · exact List.nil_suffix
    · exact callers_seek queues _ (top :: callers)
  | call s =>
    -- the walk begins in the called subroutine, above the callers that the call leaves
    rw [← tail_call hpos hpassed (by rw [Command.isCall, hop]) s]
    simp only [execute, hop]
    exact callers_seek queues _ _
  | unknown =>
    rw [hplain (by rw [Command.isCall, hop])]
    simp only [execute, hop]
    exact callers_seek queues _ (top :: callers)

/-- The callers wait for what they called, no more of them than there are inner calls at the places,
where the operations stand. -/
structure Accounted (queues : Slots (List Command)) (places : List Place)
    (operations : List Operation) (callers : List Activation) : Prop where
  awaits : ∀ caller ∈ callers, caller.Awaits queues
  length_le : callers.length ≤ places.countP (Place.isInnerCall queues)
  operations_eq : places.map (Place.operation? queues) = operations.map some

theorem Accounted.nil : Accounted queues [] [] [] := ⟨nofun, Nat.le_refl 0, rfl⟩

theorem Accounted.suffix {fewer : List Activation}
    (h : Accounted queues places operations callers) (hsuffix : fewer <:+ callers) :
    Accounted queues places operations fewer where
  awaits caller hmem := h.awaits caller (hsuffix.mem hmem)
  length_le := Nat.le_trans hsuffix.length_le h.length_le
  operations_eq := h.operations_eq

/-- No call makes its caller wait if each is the last command of its queue. -/
theorem Accounted.eq_nil (h : Accounted queues places operations callers)
    (hlast : CallsLast queues) : callers = [] := by
  have hnone : places.countP (Place.isInnerCall queues) = 0 :=
    List.countP_eq_zero.mpr fun place _ => Bool.eq_false_iff.mp (hlast.isInnerCall place)
  exact List.eq_nil_of_length_eq_zero (Nat.le_zero.mp (hnone ▸ h.length_le))

/-- The command that waits is one more, with its place. -/
theorem Accounted.execute (h : Accounted queues places operations callers) (hpos : 0 < top.next)
    (hpassed : top.passed.command? queues = some command) (cursor : Cursor) :
    let executed := Run.execute .replace queues tileUnder cursor (top :: callers) command
    Accounted queues (places ++ [top.passed]) (operations ++ executed.report.operations)
      executed.state.2.callers := by
  refine Accounted.suffix ?_ (callers_execute hpos hpassed cursor callers)
  have hle := h.length_le
  have hoperations : (places ++ [top.passed]).map (Place.operation? queues) =
      (operations ++ [command.operation]).map some := by
    simp [h.operations_eq, Place.operation?, hpassed]
  rw [operations_execute]
  cases hinner : top.passed.isInnerCall queues with
  | true =>
    refine ⟨fun caller hmem => ?_, by simpa [hinner] using hle, hoperations⟩
    rcases List.mem_cons.mp hmem with rfl | hmem
    · exact Activation.awaits_of_isInnerCall hpos hinner
    · exact h.awaits caller hmem
  | false => exact ⟨h.awaits, by simpa [hinner] using hle, hoperations⟩

/-! ### Due commands -/

/-- The places of the commands that `executeDue` carries out. -/
def placesDue (queues : Slots (List Command)) (tileUnder : Cursor → Tile) :
    Nat → Stage → List Place
  | 0, _ => []
  | due + 1, stage =>
    match stage.pause with
    | .waiting (top :: callers) command =>
      let after := (execute .replace queues tileUnder stage.cursor (top :: callers) command).state
      top.passed :: placesDue queues tileUnder due ⟨after.1, increment stage.executed, after.2⟩
    | _ => []

theorem placesDue_of_finished {stage : Stage} {outcome : Outcome}
    (h : stage.pause = .finished outcome) (due : Nat) :
    placesDue queues tileUnder due stage = [] := by
  cases due with
  | zero => rfl
  | succ due => simp only [placesDue, h]

theorem placesDue_of_waiting {stage : Stage} (h : stage.pause = .waiting (top :: callers) command)
    (due : Nat) :
    let after := (execute .replace queues tileUnder stage.cursor (top :: callers) command).state
    placesDue queues tileUnder (due + 1) stage =
      top.passed ::
        placesDue queues tileUnder due ⟨after.1, increment stage.executed, after.2⟩ := by
  simp only [placesDue, h]

theorem Accounted.executeDue {stage : Stage}
    (h : Accounted queues places operations stage.pause.callers)
    (hsound : stage.Sound queues tileUnder) (due : Nat) :
    let executed := Run.executeDue .replace queues tileUnder due stage
    Accounted queues (places ++ placesDue queues tileUnder due stage)
      (operations ++ executed.report.operations) executed.state.pause.callers := by
  dsimp only
  -- the places and operations grow at the end, so they are general in the induction
  induction due generalizing stage places operations with
  | zero =>
    rw [placesDue, List.append_nil, Run.executeDue, Step.report_stay, Report.operations_empty,
      List.append_nil]
    exact h
  | succ due ih =>
    cases hpause : stage.pause with
    | finished outcome =>
      rw [executeDue_of_finished hpause, placesDue_of_finished hpause, List.append_nil,
        Step.report_stay, Report.operations_empty, List.append_nil]
      exact h
    | waiting stack command =>
      obtain ⟨top, callers, rfl, hpos, hpassed⟩ := (hsound.waits hpause).passed
      rw [hpause] at h
      rw [executeDue_of_waiting hpause, placesDue_of_waiting hpause, List.append_cons,
        Step.report_next, Report.operations_append, ← List.append_assoc]
      exact ih (h.execute hpos hpassed stage.cursor) (hsound.execute hpause)

end Run

end TileWalk
