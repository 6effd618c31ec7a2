import TileWalk.Proofs.Run.Execution

/-!
Which subroutines a run enters. Where a set of subroutines holds those that its queues call, a run
that begins in it never leaves it: not on the stack, and not in the commands that it executes
(`Confined.executeDue`).
-/

namespace TileWalk.Run

variable {P : Subroutine → Prop} {policy : TailCall} {queues : Slots (List Command)}
  {tileUnder : Cursor → Tile}

/-- The queues of the subroutines in `P` call no subroutine that is not in `P`. -/
def ClosedUnderCalls (P : Subroutine → Prop) (queues : Slots (List Command)) : Prop :=
  ∀ sub, P sub → ∀ command ∈ queues.get sub, ∀ callee, command.operation = .call callee → P callee

/-- All that is entered and what is to be called next is in `P`. -/
inductive Confined (P : Subroutine → Prop) : Pause → Prop
  | waiting {stack : List Activation} {command : Command} (hstack : ∀ a ∈ stack, P a.subroutine)
      (hcall : ∀ callee, command.operation = .call callee → P callee) :
      Confined P (.waiting stack command)
  | finished (outcome : Outcome) : Confined P (.finished outcome)

theorem mem_of_fetch? {tile : Tile} {a : Activation} {next : Nat} {c : Command}
    (h : fetch? tile a.next (Activation.rest queues a) = some (next, c)) :
    c ∈ queues.get a.subroutine := by
  obtain ⟨passed, hrest, -, -⟩ := rest_of_fetch? h
  have hc : c ∈ Activation.rest queues a := by
    rw [hrest]
    exact List.mem_append_right _ List.mem_cons_self
  exact List.mem_of_mem_drop hc

theorem confined_seek (hclosed : ClosedUnderCalls P queues) (tile : Tile)
    {stack : List Activation} (h : ∀ a ∈ stack, P a.subroutine) :
    Confined P (seek queues tile stack).1 := by
  induction stack with
  | nil => exact .finished .exhausted
  | cons a callers ih =>
    have ha := h a List.mem_cons_self
    have hcallers := fun b hb => h b (List.mem_cons_of_mem a hb)
    cases hfetch : fetch? tile a.next (Activation.rest queues a) with
    | some found =>
      rw [seek_of_fetch?_eq_some callers hfetch]
      split
      · exact .finished .offPath
      · refine .waiting (fun b hb => ?_) (hclosed _ ha _ (mem_of_fetch? hfetch))
        rcases List.mem_cons.mp hb with rfl | hb
        · exact ha
        · exact hcallers b hb
    | none =>
      rw [seek_of_fetch?_eq_none callers hfetch]
      split
      · exact .finished .won
      · exact ih hcallers

/-- A call adds the called subroutine to the stack and nothing else. -/
theorem mem_call {s : Subroutine} {stack : List Activation} {a : Activation}
    (h : a ∈ call policy queues s stack) : a = ⟨s, 0, true⟩ ∨ a ∈ stack := by
  cases stack with
  | nil => exact .inl (List.mem_singleton.mp h)
  | cons caller callers =>
    rw [call] at h
    split at h
    · exact (List.mem_cons.mp h).imp_right (List.mem_cons_of_mem _)
    · exact List.mem_cons.mp h

theorem confined_execute (hclosed : ClosedUnderCalls P queues) {cursor : Cursor}
    {stack : List Activation} {command : Command} (h : Confined P (.waiting stack command)) :
    Confined P (execute policy queues tileUnder cursor stack command).state.2 := by
  cases h with
  | waiting hstack hcall =>
    cases hop : command.operation with
    | move motion =>
      simp only [execute, hop]
      split
      · exact .finished .won
      · exact confined_seek hclosed _ hstack
    | call s =>
      simp only [execute, hop]
      refine confined_seek hclosed _ fun a ha => ?_
      rcases mem_call ha with rfl | ha
      · exact hcall s hop
      · exact hstack a ha
    | unknown =>
      simp only [execute, hop]
      exact confined_seek hclosed _ hstack

/-- Due commands lead from confined stages to confined stages, and call nothing else. -/
theorem Confined.executeDue (hclosed : ClosedUnderCalls P queues) (due : Nat) {stage : Stage}
    (h : Confined P stage.pause) :
    Confined P (Run.executeDue policy queues tileUnder due stage).state.pause ∧
      ∀ callee,
        .call callee ∈ (Run.executeDue policy queues tileUnder due stage).report.operations →
          P callee := by
  induction due generalizing stage with
  | zero => exact ⟨h, nofun⟩
  | succ due ih =>
    cases hpause : stage.pause with
    | finished outcome =>
      rw [executeDue_of_finished hpause]
      exact ⟨h, nofun⟩
    | waiting stack command =>
      rw [hpause] at h
      rw [executeDue_of_waiting hpause]
      obtain ⟨hlast, hlater⟩ := @ih ⟨_, _, _⟩ (confined_execute hclosed h)
      refine ⟨hlast, fun callee hmem => ?_⟩
      rw [Step.report_next, Report.operations_append, operations_execute, List.mem_append,
        List.mem_singleton] at hmem
      rcases hmem with hop | hmem
      · cases h with
        | waiting hstack hcall => exact hcall callee hop.symm
      · exact hlater callee hmem

end TileWalk.Run
