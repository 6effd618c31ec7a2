import Mathlib.Data.List.Basic
import TileWalk.Proofs.Session.Outcome
import TileWalk.Proofs.Session.Walk

/-!
The events of a session as a chronicle of runs. A reader of the events who knows nothing of the
session can tell the runs apart: starts and ends alternate, and in between nothing is reported but
the run (`Phase.follow?`). The poses of a run are no more than the commands it reports.
-/

namespace TileWalk

/-- Where a reader of events is. -/
inductive Phase
  /-- No run is in flight. -/
  | between
  | during
  /-- The victory is announced and the end of the run is not. -/
  | won
deriving DecidableEq

namespace Phase

/-- The phase after an event, if the event may come in this phase. -/
def after? : Phase → Event → Option Phase
  | between, .level _ | between, .cursor _ | between, .queue _ _ | between, .refused _ =>
    some between
  | between, .started => some during
  | during, .cursor _ | during, .refused _ => some during
  | during, .victory => some won
  | during, .ended outcome _ => if outcome = .won then none else some between
  | won, .ended outcome _ => if outcome = .won then some between else none
  | _, _ => none

/-- The phase after some events, if each of them may come when it does. -/
def follow? (phase : Phase) (events : List Event) : Option Phase :=
  events.foldlM after? phase

theorem follow?_append (phase : Phase) (a b : List Event) :
    phase.follow? (a ++ b) = (phase.follow? a).bind fun next => next.follow? b :=
  List.foldlM_append

/-- Events that may come in a phase and do not change it. -/
theorem follow?_of_stays {phase : Phase} {events : List Event}
    (h : ∀ event ∈ events, phase.after? event = some phase) :
    phase.follow? events = some phase := by
  induction events with
  | nil => rfl
  | cons event events ih =>
    rw [follow?, List.foldlM_cons, h event List.mem_cons_self]
    exact ih fun e he => h e (List.mem_cons_of_mem _ he)

theorem follow?_scene {events : List Event} (h : ∀ event ∈ events, event.IsScene) :
    between.follow? events = some between := by
  refine follow?_of_stays fun event hevent => ?_
  have hscene := h event hevent
  cases event with
  | level | cursor | queue => rfl
  | _ => contradiction

theorem follow?_endingEvents (outcome : Outcome) (executed : UInt32) :
    during.follow? (Session.endingEvents outcome executed) = some between := by
  cases outcome <;> rfl

end Phase

namespace Session

variable {s : Session}

/-- The phase that the events of a session have come to. -/
def phase (s : Session) : Phase :=
  if s.running then .during else .between

theorem phase_of_idle (hrun : s.run = none) : s.phase = .between := by
  simp [phase, running, hrun]

theorem phase_of_running {run : Run} (hrun : s.run = some run) : s.phase = .during := by
  simp [phase, running, hrun]

/-! ### One action -/

theorem follow?_cutOff (s : Session) : s.phase.follow? s.cutOff.report.events = some .between := by
  cases hrun : s.run with
  | none =>
    rw [phase_of_idle hrun, cutOff, hrun]
    rfl
  | some run =>
    rw [phase_of_running hrun, cutOff, hrun]
    exact Phase.follow?_endingEvents .cancelled run.executed

theorem follow?_arrive (s : Session) (stage : Stage) (elapsed : Duration) :
    Phase.during.follow? (s.arrive stage elapsed).report.events =
      some (s.arrive stage elapsed).state.phase := by
  obtain ⟨cursor, executed, pause⟩ := stage
  cases pause with
  | waiting stack command => rfl
  | finished outcome => exact Phase.follow?_endingEvents outcome executed

theorem follow?_launch (s : Session) :
    Phase.between.follow? s.launch.report.events = some s.launch.state.phase :=
  s.follow?_arrive s.firstStage.1 .zero

theorem follow?_tick (s : Session) (elapsed : Duration) :
    s.phase.follow? (s.tick .replace elapsed).report.events =
      some (s.tick .replace elapsed).state.phase := by
  cases hrun : s.run with
  | none =>
    rw [tick_of_idle hrun]
    rfl
  | some run =>
    rw [phase_of_running hrun]
    cases hflag : s.cancelled with
    | true =>
      rw [tick_of_cancelled hrun hflag]
      split
      · exact Phase.follow?_endingEvents .cancelled run.executed
      · rfl
    | false =>
      have hposes : ∀ event ∈ (Run.executeDue .replace s.queues.commands s.tileUnder
          (s.pacing.due (run.elapsed + elapsed)) (s.stage run)).report.events,
          Phase.during.after? event = some .during := by
        intro event hevent
        obtain ⟨cursor, rfl⟩ := Run.eq_cursor_of_mem_executeDue hevent
        rfl
      rw [tick_eq hrun hflag, Step.report_next, Report.events_append, Phase.follow?_append,
        Phase.follow?_of_stays hposes]
      exact s.follow?_arrive _ _

theorem Effect.follow? {action : Action} {step : Step Session} (h : s.Effect action step) :
    s.phase.follow? step.report.events = some step.state.phase := by
  cases h with
  | refused action reason =>
    refine Phase.follow?_of_stays fun event hevent => ?_
    rw [List.mem_singleton.mp hevent]
    cases hrun : s.run with
    | none =>
      rw [phase_of_idle hrun]
      rfl
    | some run =>
      rw [phase_of_running hrun]
      rfl
  | edited action queues hrun hscene =>
    have hafter : Session.phase { s with queues } = .between := phase_of_idle hrun
    rw [phase_of_idle hrun, hafter]
    exact Phase.follow?_scene hscene
  | paced interval pacing notes => rfl
  | ticked elapsed => exact s.follow?_tick elapsed
  | stopped hcuts hrun hscene =>
    rw [Step.report_next, Report.events_append, Phase.follow?_append, follow?_cutOff,
      Step.state_next, phase_of_idle hrun]
    exact Phase.follow?_scene hscene
  | started hlevel =>
    rw [Step.report_next, Report.events_append, Phase.follow?_append, follow?_cutOff]
    exact follow?_launch _

theorem follow?_applyAll (s : Session) (actions : List Action) :
    s.phase.follow? (s.applyAll actions).report.events =
      some (s.applyAll actions).state.phase := by
  induction actions generalizing s with
  | nil => rfl
  | cons action actions ih =>
    rw [applyAll_cons, Step.report_next, Report.events_append, Phase.follow?_append,
      (s.apply_effect action).follow?]
    exact ih _

/-! ### Poses and commands of a run -/

/-- No queue holds a call. -/
def CallFree (queues : Slots (List Command)) : Prop :=
  ∀ sub, ∀ command ∈ queues.get sub, ∀ callee, command.operation ≠ .call callee

theorem ended_not_mem_execute {queues : Slots (List Command)} {tileUnder : Cursor → Tile}
    {cursor : Cursor} {stack : List Activation} {command : Command} {outcome : Outcome}
    {n : UInt32} :
    .ended outcome n ∉
      (Run.execute .replace queues tileUnder cursor stack command).report.events := by
  cases hop : command.operation <;> simp [Run.execute, hop]

/-- From a sound stage on a run reports at most one pose for each command, and exactly one if no
command is a call. -/
theorem length_posesOf_trail {queues : Slots (List Command)} {tileUnder : Cursor → Tile}
    {stage : Stage} {events : List Event} (h : Trail queues tileUnder stage events)
    (hsound : stage.Sound queues tileUnder) {outcome : Outcome} {n : UInt32}
    (hended : .ended outcome n ∈ events) (hn : n.toNat < 4294967295) :
    stage.executed.toNat + (posesOf events).length ≤ n.toNat ∧
      (CallFree queues → stage.executed.toNat + (posesOf events).length = n.toNat) := by
  -- the count that is reported is below the bound, so that no count on the way was saturated
  induction h with
  | pending => contradiction
  | refused hpause reason h ih =>
    exact ih hsound (List.mem_of_ne_of_mem (by simp) hended)
  | @executed stage stack command events executed hpause hexecuted h ih =>
    have hwaits := hsound.waits hpause
    have hlater : .ended outcome n ∈ events := by
      rcases List.mem_append.mp hended with hmem | hmem
      · exact absurd hmem (hexecuted ▸ ended_not_mem_execute)
      · exact hmem
    obtain ⟨hle, heq⟩ := ih (hexecuted ▸ hsound.execute hpause) hlater
    rw [toNat_increment] at hle heq
    cases hop : command.operation with
    | move motion =>
      simp only [Run.execute, hop] at hexecuted
      subst hexecuted
      have hposes : (posesOf ([.cursor (stage.cursor.step motion)] ++ events)).length =
          (posesOf events).length + 1 := rfl
      rw [hposes]
      exact ⟨by omega, fun hfree => by have := heq hfree; omega⟩
    | call s =>
      simp only [Run.execute, hop] at hexecuted
      subst hexecuted
      refine ⟨?_, fun hfree => ?_⟩
      · rw [List.nil_append]
        omega
      · obtain ⟨top, callers, -, -, hindex⟩ := hwaits.passed
        exact absurd hop (hfree _ command (List.mem_of_getElem? hindex) s)
    | unknown => exact absurd hop hwaits.known
  | cutOff hpause =>
    obtain ⟨-, rfl⟩ : outcome = .cancelled ∧ n = _ := by simpa using hended
    exact ⟨Nat.le_refl _, fun _ => rfl⟩
  | ended hpause =>
    obtain ⟨-, rfl⟩ := ended_mem_endingEvents.mp hended
    rw [Trail.posesOf_endingEvents]
    exact ⟨Nat.le_refl _, fun _ => rfl⟩

theorem length_posesOf_firstRun (hlevel : s.level.isSome = true) {later : List Action}
    {outcome : Outcome} {executed : UInt32}
    (hended : .ended outcome executed ∈ firstRun (s.applyAll (.start :: later)).report.events)
    (hexecuted : executed.toNat < 4294967295) :
    (posesOf (firstRun (s.applyAll (.start :: later)).report.events)).length ≤ executed.toNat ∧
      (CallFree s.queues.commands →
        (posesOf (firstRun (s.applyAll (.start :: later)).report.events)).length =
          executed.toNat) := by
  have htrail := trail_firstRun hlevel later
  have hzero : s.firstStage.1.executed.toNat = 0 := by
    rw [executed_firstStage]
    rfl
  rcases s.firstStage_cases with ⟨-, hover⟩ | ⟨-, hsound⟩
  · rw [htrail.eq_of_finished hover] at hended ⊢
    obtain ⟨-, rfl⟩ := ended_mem_endingEvents.mp hended
    rw [hzero]
    exact ⟨Nat.le_refl 0, fun _ => rfl⟩
  · have hcount := length_posesOf_trail htrail hsound hended hexecuted
    rwa [hzero, Nat.zero_add] at hcount

/-! ### Where runs start -/

theorem started_not_mem_endingEvents (outcome : Outcome) (executed : UInt32) :
    .started ∉ endingEvents outcome executed := by
  cases outcome <;> simp [endingEvents]

theorem started_not_mem_arrive (s : Session) (stage : Stage) (elapsed : Duration) :
    .started ∉ (s.arrive stage elapsed).report.events := by
  obtain ⟨cursor, executed, pause⟩ := stage
  cases pause with
  | waiting stack command => exact List.not_mem_nil
  | finished outcome => exact started_not_mem_endingEvents outcome executed

/-- A launch reports one start, and first of all. -/
theorem events_launch (s : Session) :
    ∃ events, s.launch.report.events = .started :: events ∧ .started ∉ events :=
  ⟨_, rfl, s.started_not_mem_arrive s.firstStage.1 .zero⟩

theorem started_not_mem_tick (s : Session) (elapsed : Duration) :
    .started ∉ (s.tick .replace elapsed).report.events := by
  unfold tick
  split
  · unfold elapse
    dsimp only
    split
    · exact started_not_mem_endingEvents _ _
    · rw [Step.report_next, Report.events_append, List.mem_append, not_or]
      refine ⟨fun h => ?_, s.started_not_mem_arrive _ _⟩
      obtain ⟨cursor, hcursor⟩ := Run.eq_cursor_of_mem_executeDue h
      contradiction
  · exact List.not_mem_nil

theorem started_not_mem_of_isScene {events : List Event} (h : ∀ event ∈ events, event.IsScene) :
    .started ∉ events :=
  fun hmem => h _ hmem

/-- An action reports a start only if it starts a run, after the end of the run it cuts off. -/
theorem Effect.of_started {action : Action} {step : Step Session} (h : s.Effect action step)
    {before after : List Event} (hevents : step.report.events = before ++ .started :: after) :
    action = .start ∧ s.level.isSome = true ∧ before = s.cutOff.report.events := by
  have hmem : .started ∈ step.report.events := by simp [hevents]
  cases h with
  | refused action reason => simp [refuse] at hmem
  | edited action queues hrun hscene => exact absurd hmem (started_not_mem_of_isScene hscene)
  | paced interval pacing notes => contradiction
  | ticked elapsed => exact absurd hmem (s.started_not_mem_tick elapsed)
  | stopped hcuts hrun hscene =>
    rw [Step.report_next, Report.events_append, List.mem_append] at hmem
    rcases hmem with hmem | hmem
    · exact absurd hmem s.started_not_mem_cutOff
    · exact absurd hmem (started_not_mem_of_isScene hscene)
  | started hlevel =>
    obtain ⟨events, hlaunch, hrest⟩ := s.cutOff.state.events_launch
    rw [Step.report_next, Report.events_append, hlaunch] at hevents
    obtain ⟨hbefore, -, -⟩ :=
      (List.append_cons_inj_of_notMem s.started_not_mem_cutOff hrest).mp hevents
    exact ⟨rfl, hlevel, hbefore.symm⟩

/-- An element of two lists in a row stands in the second list or in the first. -/
theorem append_eq_append_cons {α : Type} {a b before after : List α} {x : α}
    (h : a ++ b = before ++ x :: after) :
    (∃ rest, before = a ++ rest ∧ b = rest ++ x :: after) ∨
      ∃ rest, a = before ++ x :: rest ∧ after = rest ++ b := by
  rcases List.append_eq_append_iff.mp h with hsecond | ⟨rest, hfirst, hrest⟩
  · exact .inl hsecond
  · rcases List.cons_eq_append_iff.mp hrest with ⟨rfl, hb⟩ | ⟨rest, rfl, hafter⟩
    · exact .inl ⟨[], by rw [hfirst, List.append_nil, List.append_nil], hb⟩
    · exact .inr ⟨rest, hfirst, hafter⟩

/-- Every start that is reported is the start of a run by an action. -/
theorem exists_start {actions : List Action} {before after : List Event}
    (h : (s.applyAll actions).report.events = before ++ .started :: after) :
    ∃ earlier later, actions = earlier ++ .start :: later ∧
      (s.applyAll earlier).state.level.isSome = true ∧
      before = (s.applyAll earlier).report.events ++
        (s.applyAll earlier).state.cutOff.report.events := by
  induction actions generalizing s before with
  | nil => simp at h
  | cons action actions ih =>
    -- the start is reported either by a later action or by this one
    rw [applyAll_cons, Step.report_next, Report.events_append] at h
    rcases append_eq_append_cons h with ⟨rest, rfl, hlater⟩ | ⟨rest, hfirst, -⟩
    · obtain ⟨earlier, later, rfl, hlevel, rfl⟩ := ih hlater
      refine ⟨action :: earlier, later, rfl, hlevel, ?_⟩
      rw [applyAll_cons, Step.report_next, Report.events_append, List.append_assoc]
      rfl
    · obtain ⟨rfl, hlevel, rfl⟩ := (s.apply_effect action).of_started hfirst
      exact ⟨[], actions, rfl, hlevel, rfl⟩

/-- The events after a reported start, up to the end of the run, are the first run of the session
that started it. -/
theorem firstRun_of_started {before after : List Event} {actions : List Action}
    (h : (s.applyAll actions).report.events = before ++ .started :: after)
    (hbefore : before = s.cutOff.report.events) :
    firstRun (s.applyAll actions).report.events = untilEnd after := by
  rw [h, hbefore, firstRun_append s.started_not_mem_cutOff]
  rfl

/-- The events of a session are a chronicle of runs. Starts and ends alternate, and the last start
is open exactly while a run is in flight; in between only poses, refusals and a victory are
reported, the victory in a run that is won and directly before its end. A run that was counted to
its end reported at most one pose for each command, and exactly one if no queue held a call. -/
theorem chronicle_of_runs (pacing : Pacing) (actions : List Action) :
    let step := (ofPacing pacing).applyAll actions
    Phase.between.follow? step.report.events =
        some (if step.state.running then .during else .between) ∧
      ∀ before after, step.report.events = before ++ .started :: after →
        ∃ earlier later, actions = earlier ++ .start :: later ∧
          let s := ((ofPacing pacing).applyAll earlier).state
          before = ((ofPacing pacing).applyAll earlier).report.events ++ s.cutOff.report.events ∧
            ∀ outcome executed, .ended outcome executed ∈ untilEnd after →
              executed.toNat < 4294967295 →
                (posesOf (untilEnd after)).length ≤ executed.toNat ∧
                  (CallFree s.queues.commands →
                    (posesOf (untilEnd after)).length = executed.toNat) := by
  refine ⟨follow?_applyAll (ofPacing pacing) actions, fun before after hevents => ?_⟩
  obtain ⟨earlier, later, rfl, hlevel, rfl⟩ := exists_start hevents
  refine ⟨earlier, later, rfl, rfl, fun outcome executed hended hexecuted => ?_⟩
  rw [applyAll_append, Step.report_next, Report.events_append, List.append_assoc] at hevents
  rw [← firstRun_of_started (List.append_cancel_left hevents) rfl] at hended ⊢
  exact length_posesOf_firstRun hlevel hended hexecuted

/-- A step and a turn on two tiles, with no run yet. -/
def stroll : List Action :=
  [.load ⟨[[.path .grey, .path .grey]], ⟨0, 0, .right⟩, .const 2, .const true, "two tiles"⟩,
    .add ⟨.move .forward, none⟩ (.slot .f1),
    .add ⟨.move (.turn .left), none⟩ (.slot .f1)]

theorem chronicle_of_stroll :
    let run : List Event :=
      [.cursor ⟨1, 0, .right⟩, .refused .running, .cursor ⟨1, 0, .up⟩, .ended .exhausted 2]
    ((ofPacing .standard).applyAll
        (stroll ++ [.start, .tick (.ofMillis 300), .takeBack, .tick (.ofMillis 300)])).report.events =
        ((ofPacing .standard).applyAll stroll).report.events ++ .started :: run ∧
      CallFree ((ofPacing .standard).applyAll stroll).state.queues.commands ∧
      (posesOf (untilEnd run)).length = (2 : UInt32).toNat := by
  dsimp only
  have hevents : ((ofPacing .standard).applyAll
      (stroll ++ [.start, .tick (.ofMillis 300), .takeBack, .tick (.ofMillis 300)])).report.events =
      ((ofPacing .standard).applyAll stroll).report.events ++ .started ::
        [.cursor ⟨1, 0, .right⟩, .refused .running, .cursor ⟨1, 0, .up⟩, .ended .exhausted 2] := by
    decide
  have hqueues : ((ofPacing .standard).applyAll stroll).state.queues.commands =
      ⟨[⟨.move .forward, none⟩, ⟨.move (.turn .left), none⟩], [], []⟩ := by decide
  have hfree : CallFree ((ofPacing .standard).applyAll stroll).state.queues.commands := by
    rw [hqueues]
    intro sub command hcommand callee
    cases sub with
    | f1 =>
      rcases List.mem_cons.mp hcommand with rfl | hcommand
      · exact nofun
      · rw [List.mem_singleton.mp hcommand]
        exact nofun
    | f2 => contradiction
    | f3 => contradiction
  obtain ⟨earlier, later, hactions, -, hcount⟩ := (chronicle_of_runs .standard _).2 _ _ hevents
  obtain ⟨rfl, -, -⟩ :=
    (List.append_cons_inj_of_notMem (by decide) (by decide)).mp hactions
  exact ⟨hevents, hfree, (hcount .exhausted 2 (by decide) (by decide)).2 hfree⟩

end Session

end TileWalk
