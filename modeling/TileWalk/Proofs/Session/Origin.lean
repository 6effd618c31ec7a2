import TileWalk.Proofs.Session.InFlight

/-!
Where a run in flight comes from. Wherever actions lead, the run has come to its stage from the
beginning of the program by executing commands, with the queues and the level as they are now
(`Reachable.leads`). What holds of the first pause and is kept by executed commands holds of every
run in flight.
-/

namespace TileWalk.Session

/-- Where a run that begins with the cursor at `origin` pauses first. -/
def firstPause (s : Session) (origin : Cursor) : Pause :=
  (Run.seek s.queues.commands (s.tileUnder origin) Run.initialStack).1

/-- Some number of commands leads from the beginning of the program to this stage. -/
def Leads (s : Session) (stage : Stage) : Prop :=
  ∃ origin due, stage =
    (Run.executeDue .replace s.queues.commands s.tileUnder due
      ⟨origin, 0, s.firstPause origin⟩).state

variable {s : Session} {stage : Stage}

theorem leads_firstPause (s : Session) (origin : Cursor) :
    s.Leads ⟨origin, 0, s.firstPause origin⟩ := ⟨origin, 0, rfl⟩

theorem Leads.executeDue (h : s.Leads stage) (due : Nat) :
    s.Leads (Run.executeDue .replace s.queues.commands s.tileUnder due stage).state := by
  obtain ⟨origin, before, rfl⟩ := h
  exact ⟨origin, before + due, by rw [Run.executeDue_add, Step.state_next]⟩

theorem leads_arrive (h : s.Leads stage) {elapsed : Duration} {run : Run}
    (hrun : (s.arrive stage elapsed).state.run = some run) :
    (s.arrive stage elapsed).state.Leads ((s.arrive stage elapsed).state.stage run) := by
  obtain ⟨cursor, executed, pause⟩ := stage
  cases pause with
  | waiting stack command =>
    obtain rfl := Option.some.inj hrun
    exact h
  | finished outcome => simp [arrive, endRun] at hrun

theorem leads_launch {run : Run} (hrun : s.launch.state.run = some run) :
    s.launch.state.Leads (s.launch.state.stage run) := by
  rw [launch_eq, Step.state_next] at hrun ⊢
  cases hflag : s.cancelled with
  | true =>
    -- the run is over at once
    rw [firstStage, if_pos hflag] at hrun
    contradiction
  | false =>
    have hfirst : s.firstStage.1 = ⟨s.cursor, 0, s.firstPause s.cursor⟩ := by
      rw [firstStage, if_neg (by simp [hflag])]
      rfl
    rw [hfirst] at hrun ⊢
    exact leads_arrive (s.leads_firstPause s.cursor) hrun

theorem leads_tick {run after : Run} (hrun : s.run = some run) (h : s.Leads (s.stage run))
    {elapsed : Duration} (hafter : (s.tick .replace elapsed).state.run = some after) :
    (s.tick .replace elapsed).state.Leads ((s.tick .replace elapsed).state.stage after) := by
  rw [tick_of_running hrun, elapse] at hafter ⊢
  split at hafter
  · contradiction
  · next hlowered =>
    rw [if_neg hlowered]
    exact leads_arrive (h.executeDue _) hafter

/-- The run in flight comes from the beginning of the program that is in the queues now. -/
theorem Reachable.leads (hs : s.Reachable) {run : Run} (hrun : s.run = some run) :
    s.Leads (s.stage run) := by
  refine hs.run_induction (P := fun s run => s.Leads (s.stage run)) (fun _ h => ?_)
    (fun _ hrun h hafter => ?_) (fun _ _ h => ?_) hrun
  · exact leads_launch h
  · exact leads_tick hrun h hafter
  · exact h

/-! ### What an action executes -/

theorem operations_after_cutOff {f : Session → Step Session}
    (h : (f s.cutOff.state).report.operations = []) : (s.cutOff.next f).report.operations = [] := by
  rw [Step.report_next, Report.operations_append, operations_cutOff, h, List.append_nil]

theorem operations_tick {run : Run} (hrun : s.run = some run) (elapsed : Duration) :
    ∃ due, (s.tick .replace elapsed).report.operations =
      (Run.executeDue .replace s.queues.commands s.tileUnder due
        (s.stage run)).report.operations := by
  rw [tick_of_running hrun, elapse]
  split
  · exact ⟨0, rfl⟩
  · refine ⟨s.pacing.due (run.elapsed + elapsed), ?_⟩
    rw [Step.report_next, Report.operations_append, operations_arrive, List.append_nil, stage]

/-- Only a tick executes commands. -/
theorem operations_of_ne_tick (s : Session) {action : Action}
    (h : ∀ elapsed, action ≠ .tick elapsed) : (s.apply action).report.operations = [] := by
  have htransition := s.apply_transition action
  generalize s.apply action = step at htransition ⊢
  cases htransition with
  | ticked elapsed => exact absurd rfl (h elapsed)
  | loaded level => exact operations_after_cutOff rfl
  | reset => exact operations_after_cutOff rfl
  | started hlevel => exact operations_after_cutOff (operations_launch _)
  | aborted => exact operations_after_cutOff rfl
  | refused | pushed | popped | unchanged | paced => rfl

/-- What an action executes are the next commands of the run in flight, if it executes any. -/
theorem operations_apply (s : Session) (action : Action) :
    (s.apply action).report.operations = [] ∨
      ∃ run due, s.run = some run ∧ (s.apply action).report.operations =
        (Run.executeDue .replace s.queues.commands s.tileUnder due
          (s.stage run)).report.operations := by
  cases action with
  | tick elapsed =>
    show (s.tick .replace elapsed).report.operations = [] ∨ _
    cases hrun : s.run with
    | none =>
      rw [tick_of_idle hrun]
      exact .inl rfl
    | some run =>
      obtain ⟨due, hdue⟩ := operations_tick hrun elapsed
      exact .inr ⟨run, due, rfl, hdue⟩
  | _ => exact .inl (s.operations_of_ne_tick nofun)

end TileWalk.Session
