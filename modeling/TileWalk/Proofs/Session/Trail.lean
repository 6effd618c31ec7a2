import TileWalk.Proofs.Session.InFlight

/-!
The trail of a run: the events from its start to its end, or as far as it has come. Whatever actions
follow the start, the trail is made up of the motions that the program executes, of refusals in
between, and of one end (`trail_firstRun`).
-/

namespace TileWalk

/-- The events up to the first end of a run, that event included. -/
def untilEnd : List Event → List Event
  | [] => []
  | .ended outcome executed :: _ => [.ended outcome executed]
  | event :: events => event :: untilEnd events

/-- The events of the first run that starts, after its start and up to its end. -/
def firstRun : List Event → List Event
  | [] => []
  | .started :: events => untilEnd events
  | _ :: events => firstRun events

/-- The poses that some events tell of, in order. -/
def posesOf (events : List Event) : List Cursor :=
  events.filterMap Event.pose?

/-- What may be reported of a run from a stage on. -/
inductive Trail (queues : Slots (List Command)) (tileUnder : Cursor → Tile) :
    Stage → List Event → Prop
  /-- The run has come no further. -/
  | pending {stage : Stage} {stack : List Activation} {command : Command}
      (hpause : stage.pause = .waiting stack command) : Trail queues tileUnder stage []
  | refused {stage : Stage} {stack : List Activation} {command : Command} {events : List Event}
      (hpause : stage.pause = .waiting stack command) (reason : Refusal)
      (h : Trail queues tileUnder stage events) :
      Trail queues tileUnder stage (.refused reason :: events)
  | executed {stage : Stage} {stack : List Activation} {command : Command} {events : List Event}
      {executed : Step (Cursor × Pause)} (hpause : stage.pause = .waiting stack command)
      (hexecuted : Run.execute .replace queues tileUnder stage.cursor stack command = executed)
      (h : Trail queues tileUnder
        ⟨executed.state.1, increment stage.executed, executed.state.2⟩ events) :
      Trail queues tileUnder stage (executed.report.events ++ events)
  | cutOff {stage : Stage} {stack : List Activation} {command : Command}
      (hpause : stage.pause = .waiting stack command) :
      Trail queues tileUnder stage [.ended .cancelled stage.executed]
  | ended {stage : Stage} {outcome : Outcome} (hpause : stage.pause = .finished outcome) :
      Trail queues tileUnder stage (Session.endingEvents outcome stage.executed)

/-! ### Cutting events at the end of a run -/

/-- An event that is no end of a run. -/
def Event.Goes (event : Event) : Prop := ∀ outcome executed, event ≠ .ended outcome executed

theorem untilEnd_cons {event : Event} (h : event.Goes) (events : List Event) :
    untilEnd (event :: events) = event :: untilEnd events := by
  cases event with
  | ended outcome executed => exact absurd rfl (h outcome executed)
  | _ => rfl

theorem untilEnd_append {events : List Event} (h : ∀ event ∈ events, event.Goes)
    (rest : List Event) : untilEnd (events ++ rest) = events ++ untilEnd rest := by
  induction events with
  | nil => rfl
  | cons event events ih =>
    rw [List.cons_append, untilEnd_cons (h event List.mem_cons_self),
      ih fun e he => h e (List.mem_cons_of_mem _ he), List.cons_append]

theorem untilEnd_endingEvents (outcome : Outcome) (executed : UInt32) (rest : List Event) :
    untilEnd (Session.endingEvents outcome executed ++ rest) =
      Session.endingEvents outcome executed := by
  cases outcome <;> rfl

theorem firstRun_append {events : List Event} (h : .started ∉ events) (rest : List Event) :
    firstRun (events ++ rest) = firstRun rest := by
  induction events with
  | nil => rfl
  | cons event events ih =>
    rw [List.mem_cons, not_or] at h
    cases event with
    | started => exact absurd rfl h.1
    | _ => exact ih h.2

/-! ### The trail of a session -/

namespace Trail

variable {queues : Slots (List Command)} {tileUnder : Cursor → Tile} {stage : Stage}

/-- A trail after some due commands. -/
theorem executeDue {due : Nat} {events : List Event}
    (h : Trail queues tileUnder (Run.executeDue .replace queues tileUnder due stage).state events) :
    Trail queues tileUnder stage
      ((Run.executeDue .replace queues tileUnder due stage).report.events ++ events) := by
  induction due generalizing stage with
  | zero => exact h
  | succ due ih =>
    cases hpause : stage.pause with
    | finished outcome =>
      rw [Run.executeDue_of_finished hpause] at h ⊢
      exact h
    | waiting stack command =>
      rw [Run.executeDue_of_waiting hpause] at h ⊢
      rw [Step.report_next, Report.events_append, List.append_assoc]
      exact .executed hpause rfl (ih h)

end Trail

namespace Session

theorem goes_of_mem_executeDue {policy : TailCall} {queues : Slots (List Command)}
    {tileUnder : Cursor → Tile} {due : Nat} {stage : Stage} {event : Event}
    (h : event ∈ (Run.executeDue policy queues tileUnder due stage).report.events) :
    event.Goes := by
  obtain ⟨cursor, rfl⟩ := Run.eq_cursor_of_mem_executeDue h
  exact nofun

variable {s : Session}

/-- The trail of the run in flight, if any, goes on with `events`. -/
def GoesOn (s : Session) (events : List Event) : Prop :=
  ∀ run, s.run = some run → Trail s.queues.commands s.tileUnder (s.stage run) events

/-- Where a run arrives its trail ends, or goes on with what is reported from there on. -/
theorem trail_arrive {stage : Stage} {elapsed : Duration} {rest : List Event}
    (h : (s.arrive stage elapsed).state.GoesOn (untilEnd rest)) :
    Trail s.queues.commands s.tileUnder stage
      (untilEnd ((s.arrive stage elapsed).report.events ++ rest)) := by
  obtain ⟨cursor, executed, pause⟩ := stage
  cases pause with
  | waiting stack command => exact h ⟨stack, command, elapsed, executed⟩ rfl
  | finished outcome =>
    have hend := untilEnd_endingEvents outcome executed rest
    exact hend ▸ Trail.ended rfl

theorem trail_tick {run : Run} (hrun : s.run = some run) {elapsed : Duration} {rest : List Event}
    (h : (s.tick .replace elapsed).state.GoesOn (untilEnd rest)) :
    Trail s.queues.commands s.tileUnder (s.stage run)
      (untilEnd ((s.tick .replace elapsed).report.events ++ rest)) := by
  cases hflag : s.cancelled with
  | true =>
    rw [tick_of_cancelled hrun hflag] at h ⊢
    split at h
    · next hdue =>
      rw [if_pos hdue]
      exact .cutOff rfl
    · next hdue =>
      rw [if_neg hdue]
      exact h { run with elapsed := run.elapsed + elapsed } rfl
  | false =>
    rw [tick_eq hrun hflag] at h ⊢
    rw [Step.report_next, Report.events_append, List.append_assoc,
      untilEnd_append fun _ => goes_of_mem_executeDue]
    exact (trail_arrive h).executeDue

theorem untilEnd_cutOff {run : Run} (hrun : s.run = some run) (rest : List Event) :
    untilEnd (s.cutOff.report.events ++ rest) = [.ended .cancelled run.executed] := by
  rw [cutOff, hrun]
  exact untilEnd_endingEvents .cancelled run.executed rest

/-- What is reported of a run in flight, whatever actions follow. -/
theorem goesOn_applyAll (s : Session) (actions : List Action) :
    s.GoesOn (untilEnd (s.applyAll actions).report.events) := by
  intro run hrun
  -- a refusal, a new pace and a tick leave the run in flight, or end it themselves; every other
  -- action cuts it off, and what follows is of no concern
  induction actions generalizing s run with
  | nil => exact .pending rfl
  | cons action actions ih =>
    rw [applyAll_cons, Step.report_next, Report.events_append]
    generalize hstep : s.apply action = step
    have heffect := s.apply_effect action
    rw [hstep] at heffect
    cases heffect with
    | refused action reason => exact .refused rfl reason (ih s run hrun)
    | edited action queues hidle hscene =>
      rw [hrun] at hidle
      contradiction
    | paced interval pacing notes => exact ih { s with pacing } run hrun
    | ticked elapsed => exact trail_tick hrun (ih _)
    | stopped hcuts hidle hscene =>
      rw [Step.report_next, Report.events_append, List.append_assoc, untilEnd_cutOff hrun]
      exact .cutOff rfl
    | started hlevel =>
      rw [Step.report_next, Report.events_append, List.append_assoc, untilEnd_cutOff hrun]
      exact .cutOff rfl

theorem started_not_mem_cutOff (s : Session) : .started ∉ s.cutOff.report.events := by
  cases hrun : s.run with
  | none => simp [cutOff, hrun]
  | some run => simp [cutOff, hrun, endRun, endingEvents]

theorem tileUnder_cutOff (s : Session) : s.cutOff.state.tileUnder = s.tileUnder := by
  funext cursor
  rw [state_cutOff]
  rfl

/-- Cutting a run off changes nothing for the run that starts next. -/
theorem firstStage_cutOff (s : Session) : s.cutOff.state.firstStage = s.firstStage := by
  rw [firstStage, tileUnder_cutOff, state_cutOff]
  rfl

/-- The run that starts in a session with a level leaves a trail from its first stage on, whatever
actions follow. -/
theorem trail_firstRun (hlevel : s.level.isSome = true) (later : List Action) :
    Trail s.queues.commands s.tileUnder s.firstStage.1
      (firstRun (s.applyAll (.start :: later)).report.events) := by
  have hstart : s.apply .start = s.cutOff.next launch := by
    rw [Session.apply, applyWith, start, if_neg (by rw [← Option.not_isSome]; simp [hlevel])]
  have hqueues : s.cutOff.state.queues = s.queues := by rw [state_cutOff]
  rw [applyAll_cons, hstart, Step.next_assoc, Step.report_next, Report.events_append,
    firstRun_append s.started_not_mem_cutOff, ← hqueues, ← tileUnder_cutOff, ← firstStage_cutOff]
  generalize s.cutOff.state = t
  rw [launch_eq, Step.next_assoc, Step.report_next, Report.events_append]
  exact trail_arrive (goesOn_applyAll _ later)

end Session

end TileWalk
