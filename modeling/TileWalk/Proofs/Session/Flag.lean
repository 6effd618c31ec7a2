import TileWalk.Proofs.Session.InFlight

/-!
The cancellation flag. It stands for what happened since the last load or reset, or since the
beginning: an abort, or a run that ended on the goal or off the path. While it is raised nothing
runs, whatever actions follow that neither load nor reset (`flag_iff_raised_and_sticks`).
-/

namespace TileWalk

/-- A run ended on the goal or off the path. -/
def Event.settles : Event → Bool
  | .ended .won _ | .ended .offPath _ => true
  | _ => false

/-- The action loads or resets, so that what was before does not count any more. -/
def Action.renews : Action → Bool
  | .load _ | .reset => true
  | _ => false

/-- An abort, or an action whose events tell of a run that ended on the goal or off the path. -/
def Action.raises (action : Action) (events : List Event) : Bool :=
  action = .abort || events.any Event.settles

namespace Session

variable {s : Session} {policy : TailCall}

/-- One of the actions raises the flag, and neither it nor any later one loads or resets. -/
def RaisedBy (s : Session) (actions : List Action) : Prop :=
  ∃ earlier action later, actions = earlier ++ action :: later ∧
    (∀ a ∈ action :: later, a.renews = false) ∧
    action.raises ((s.applyAll earlier).state.apply action).report.events = true

/-! ### The flag through one action -/

/-- The flag after the step is raised if it was before or if the step tells of an end that raises
it. -/
def FlagFollows (s : Session) (step : Step Session) : Prop :=
  step.state.cancelled = (s.cancelled || step.report.events.any Event.settles)

theorem FlagFollows.next {step : Step Session} {f : Session → Step Session}
    (h : s.FlagFollows step) (hf : step.state.FlagFollows (f step.state)) :
    s.FlagFollows (step.next f) := by
  rw [FlagFollows] at h hf ⊢
  rw [Step.state_next, hf, h, Step.report_next, Report.events_append, List.any_append,
    Bool.or_assoc]

theorem flagFollows_of_same {step : Step Session} (hflag : step.state.cancelled = s.cancelled)
    (hevents : step.report.events.any Event.settles = false) : s.FlagFollows step := by
  rw [FlagFollows, hflag, hevents, Bool.or_false]

theorem flagFollows_endRun (s : Session) (outcome : Outcome) (executed : UInt32) :
    s.FlagFollows (s.endRun outcome executed) := by
  cases outcome <;> rfl

theorem flagFollows_cutOff (s : Session) : s.FlagFollows s.cutOff := by
  unfold cutOff
  split
  · exact s.flagFollows_endRun _ _
  · exact flagFollows_of_same rfl rfl

theorem flagFollows_arrive (s : Session) (stage : Stage) (elapsed : Duration) :
    s.FlagFollows (s.arrive stage elapsed) := by
  obtain ⟨cursor, executed, pause⟩ := stage
  cases pause with
  | waiting stack command => exact flagFollows_of_same rfl rfl
  | finished outcome => exact flagFollows_endRun { s with cursor } outcome executed

theorem flagFollows_launch (s : Session) : s.FlagFollows s.launch := by
  have hstarted : s.FlagFollows ⟨s, ⟨[.started], .starting :: s.firstStage.2⟩⟩ :=
    flagFollows_of_same rfl rfl
  rw [launch_eq]
  exact hstarted.next (s.flagFollows_arrive _ _)

theorem flagFollows_tick (s : Session) (elapsed : Duration) :
    s.FlagFollows (s.tick policy elapsed) := by
  cases hrun : s.run with
  | none =>
    rw [tick_of_idle hrun]
    exact flagFollows_of_same rfl rfl
  | some run =>
    rw [tick_of_running hrun, elapse]
    split
    · exact s.flagFollows_endRun _ _
    · -- executed commands tell of nothing but poses, so that all depends on where the run arrives
      have hposes : (Run.executeDue policy s.queues.commands s.tileUnder
          (s.pacing.due (run.elapsed + elapsed)) (s.stage run)).report.events.any Event.settles =
          false := by
        rw [List.any_eq_false]
        intro event hevent
        obtain ⟨cursor, rfl⟩ := Run.eq_cursor_of_mem_executeDue hevent
        exact Bool.false_ne_true
      have harrive := s.flagFollows_arrive (Run.executeDue policy s.queues.commands s.tileUnder
        (s.pacing.due (run.elapsed + elapsed)) (s.stage run)).state
        (s.pacing.leftover (run.elapsed + elapsed))
      rw [FlagFollows] at harrive ⊢
      rw [Step.state_next, Step.report_next, Report.events_append, List.any_append]
      rw [stage] at hposes harrive
      rw [hposes, Bool.false_or]
      exact harrive

theorem flagFollows_apply {action : Action} (hrenews : action.renews = false)
    (habort : action ≠ .abort) : s.FlagFollows (s.apply action) := by
  have htransition := s.apply_transition action
  generalize s.apply action = step at htransition ⊢
  cases htransition with
  | loaded | reset => contradiction
  | aborted => exact absurd rfl habort
  | started hlevel => exact s.flagFollows_cutOff.next (flagFollows_launch _)
  | ticked elapsed => exact s.flagFollows_tick elapsed
  | refused | pushed | popped | unchanged | paced => exact flagFollows_of_same rfl rfl

/-- A load and a reset lower the flag. After any other action it is raised if it was before or if
the action raises it. -/
theorem cancelled_apply (s : Session) (action : Action) :
    (s.apply action).state.cancelled =
      (!action.renews && (s.cancelled || action.raises (s.apply action).report.events)) := by
  have hplain : action.renews = false → action ≠ .abort →
      (s.apply action).state.cancelled =
        (s.cancelled || action.raises (s.apply action).report.events) := by
    intro hrenews habort
    rw [flagFollows_apply hrenews habort, Action.raises, decide_eq_false habort, Bool.false_or]
  cases action with
  | load level => rfl
  | reset => rfl
  | abort =>
    have hraised : s.abort.state.cancelled = true := by
      rw [abort, state_cutOff]
    have hcounts : Action.abort.raises s.abort.report.events = true := rfl
    show s.abort.state.cancelled = (true && (s.cancelled || Action.abort.raises _))
    rw [hraised]
    exact (Bool.or_true s.cancelled).symm
  | _ => exact hplain rfl (by simp)

/-! ### The flag through all actions -/

theorem raisedBy_cons {action : Action} {actions : List Action} :
    s.RaisedBy (action :: actions) ↔
      (action.raises (s.apply action).report.events = true ∧
          ∀ a ∈ action :: actions, a.renews = false) ∨
        (s.apply action).state.RaisedBy actions := by
  constructor
  · rintro ⟨earlier, raising, later, hactions, hrenews, hraises⟩
    cases earlier with
    | nil =>
      obtain ⟨rfl, rfl⟩ := List.cons.inj hactions
      exact .inl ⟨hraises, hrenews⟩
    | cons first earlier =>
      obtain ⟨rfl, rfl⟩ := List.cons.inj hactions
      exact .inr ⟨earlier, raising, later, rfl, hrenews, hraises⟩
  · rintro (⟨hraises, hrenews⟩ | ⟨earlier, raising, later, rfl, hrenews, hraises⟩)
    · exact ⟨[], action, actions, rfl, hrenews, hraises⟩
    · exact ⟨action :: earlier, raising, later, rfl, hrenews, hraises⟩

/-- The flag is raised after some actions if it was before and none of them lowers it, or if they
raise it. -/
theorem cancelled_applyAll_iff (s : Session) (actions : List Action) :
    (s.applyAll actions).state.cancelled = true ↔
      (s.cancelled = true ∧ ∀ action ∈ actions, action.renews = false) ∨ s.RaisedBy actions := by
  induction actions generalizing s with
  | nil => simp [RaisedBy]
  | cons action actions ih =>
    rw [applyAll_cons, Step.state_next, ih, raisedBy_cons, cancelled_apply]
    simp only [Bool.and_eq_true, Bool.not_eq_true', Bool.or_eq_true, List.forall_mem_cons]
    grind

/-! ### While the flag is raised -/

/-- Events of a session in which nothing runs: of what is refused or queued, and of runs that are
over as soon as they start. -/
inductive Barren : List Event → Prop
  | nil : Barren []
  | refused (reason : Refusal) {events : List Event} (h : Barren events) :
      Barren (.refused reason :: events)
  | queue (sub : Subroutine) (commands : List Command) {events : List Event}
      (h : Barren events) : Barren (.queue sub commands :: events)
  | run {events : List Event} (h : Barren events) :
      Barren (.started :: .ended .cancelled 0 :: events)

namespace Barren

variable {events : List Event}

theorem append {rest : List Event} (h : Barren events) (hrest : Barren rest) :
    Barren (events ++ rest) := by
  induction h with
  | nil => exact hrest
  | refused reason h ih => exact .refused reason ih
  | queue sub commands h ih => exact .queue sub commands ih
  | run h ih => exact .run ih

theorem ne_of_mem (h : Barren events) {event : Event} (hevent : event ∈ events) :
    event ≠ .victory ∧ ∀ pose, event ≠ .cursor pose := by
  induction h with
  | nil => contradiction
  | refused reason h ih =>
    rcases List.mem_cons.mp hevent with rfl | hevent
    · exact ⟨nofun, nofun⟩
    · exact ih hevent
  | queue sub commands h ih =>
    rcases List.mem_cons.mp hevent with rfl | hevent
    · exact ⟨nofun, nofun⟩
    · exact ih hevent
  | run h ih =>
    rcases List.mem_cons.mp hevent with rfl | hevent
    · exact ⟨nofun, nofun⟩
    rcases List.mem_cons.mp hevent with rfl | hevent
    · exact ⟨nofun, nofun⟩
    · exact ih hevent

/-- What starts is over at once. -/
theorem over_of_started (h : Barren events) {before after : List Event}
    (hevents : events = before ++ .started :: after) :
    ∃ rest, after = .ended .cancelled 0 :: rest := by
  induction h generalizing before with
  | nil => simp at hevents
  | refused reason h ih | queue sub commands h ih =>
    cases before with
    | nil => nomatch hevents
    | cons event before => exact ih (List.cons.inj hevents).2
  | @run events h ih =>
    cases before with
    | nil => exact ⟨events, (List.cons.inj hevents).2.symm⟩
    | cons event before =>
      have hend := (List.cons.inj hevents).2
      cases before with
      | nil => nomatch hend
      | cons event before => exact ih (List.cons.inj hend).2

end Barren

/-- The flag is raised and no run is in flight. -/
structure Barred (s : Session) : Prop where
  idle : s.run = none
  raised : s.cancelled = true

theorem Reachable.barred (hs : s.Reachable) (hflag : s.cancelled = true) : s.Barred := by
  refine ⟨?_, hflag⟩
  cases hrun : s.run with
  | none => rfl
  | some run =>
    have hlowered := (hs.inFlight hrun).lowered
    rw [hflag] at hlowered
    contradiction

theorem Barred.cutOff (h : s.Barred) : s.cutOff = .stay s := by
  simp only [Session.cutOff, h.idle]

/-- A run that starts while the flag is raised is over before it executes anything. -/
theorem Barred.launch (h : s.Barred) :
    s.launch.state.Barred ∧ s.launch.state.cursor = s.cursor ∧
      s.launch.report.events = [.started, .ended .cancelled 0] := by
  have hstage : s.firstStage = (⟨s.cursor, 0, .finished .cancelled⟩, []) := by
    rw [firstStage, if_pos h.raised]
  rw [launch_eq, hstage]
  have hflag : (s.cancelled || false) = true := by rw [h.raised, Bool.true_or]
  exact ⟨⟨rfl, hflag⟩, rfl, rfl⟩

theorem Barred.apply (h : s.Barred) {action : Action} (hrenews : action.renews = false) :
    (s.apply action).state.Barred ∧ (s.apply action).state.cursor = s.cursor ∧
      Barren (s.apply action).report.events := by
  have htransition := s.apply_transition action
  generalize s.apply action = step at htransition ⊢
  cases htransition with
  | refused action reason => exact ⟨h, rfl, .refused reason .nil⟩
  | loaded | reset => contradiction
  | pushed | popped => exact ⟨⟨h.idle, h.raised⟩, rfl, .queue _ _ .nil⟩
  | unchanged => exact ⟨h, rfl, .nil⟩
  | paced => exact ⟨⟨h.idle, h.raised⟩, rfl, .nil⟩
  | started hlevel =>
    rw [h.cutOff, Step.stay_next]
    obtain ⟨hbarred, hcursor, hevents⟩ := h.launch
    rw [hevents]
    exact ⟨hbarred, hcursor, .run .nil⟩
  | aborted =>
    rw [h.cutOff, Step.stay_next]
    exact ⟨⟨h.idle, rfl⟩, rfl, .nil⟩
  | ticked elapsed =>
    rw [tick_of_idle h.idle]
    exact ⟨h, rfl, .nil⟩

theorem Barred.applyAll (h : s.Barred) {actions : List Action}
    (hrenews : ∀ action ∈ actions, action.renews = false) :
    (s.applyAll actions).state.Barred ∧ (s.applyAll actions).state.cursor = s.cursor ∧
      Barren (s.applyAll actions).report.events := by
  induction actions generalizing s with
  | nil => exact ⟨h, rfl, .nil⟩
  | cons action actions ih =>
    obtain ⟨hfirst, hcursor, hevents⟩ := h.apply (hrenews action List.mem_cons_self)
    obtain ⟨hlast, hcursor', hevents'⟩ :=
      ih hfirst fun a ha => hrenews a (List.mem_cons_of_mem _ ha)
    exact ⟨hlast, hcursor'.trans hcursor, hevents.append hevents'⟩

/-- The flag is raised exactly if, since the last load or reset, there was an abort or a run ended
on the goal or off the path. From then on, until a load or a reset, it stays raised, the cursor
stays where it is, no pose and no victory is reported, and every run that starts is cancelled at
once. -/
theorem flag_iff_raised_and_sticks (pacing : Pacing) (actions : List Action) :
    let s := ((ofPacing pacing).applyAll actions).state
    (s.cancelled = true ↔ (ofPacing pacing).RaisedBy actions) ∧
      (s.cancelled = true → ∀ later, (∀ action ∈ later, action.renews = false) →
        let step := s.applyAll later
        step.state.cancelled = true ∧ step.state.cursor = s.cursor ∧
          (∀ event ∈ step.report.events, event ≠ .victory ∧ ∀ pose, event ≠ .cursor pose) ∧
          ∀ before after, step.report.events = before ++ .started :: after →
            ∃ rest, after = .ended .cancelled 0 :: rest) := by
  dsimp only
  constructor
  · have hfresh : (ofPacing pacing).cancelled = false := rfl
    rw [cancelled_applyAll_iff, hfresh]
    simp
  · intro hflag later hrenews
    have hbarred := ((Reachable.ofPacing pacing).applyAll actions).barred hflag
    obtain ⟨hlast, hcursor, hbarren⟩ := hbarred.applyAll hrenews
    exact ⟨hlast.raised, hcursor, fun event => hbarren.ne_of_mem,
      fun before after => hbarren.over_of_started⟩

/-- A walk off the only tile of a level. -/
def stumble : List Action :=
  [.load ⟨[[.path .grey]], ⟨0, 0, .right⟩, .const 2, .const true, "a single tile"⟩,
    .add ⟨.move .forward, none⟩ (.slot .f1),
    .add ⟨.move .forward, none⟩ (.slot .f1),
    .start,
    .tick (.ofMillis 300)]

theorem stumble_raises_and_sticks :
    let s := ((ofPacing .standard).applyAll stumble).state
    let later := [.start, .tick (.ofMillis 900), .abort, .takeBack, .start]
    (ofPacing .standard).RaisedBy stumble ∧
      (s.applyAll later).report.events =
        [.started, .ended .cancelled 0, .queue .f1 [⟨.move .forward, none⟩],
          .started, .ended .cancelled 0] ∧
      (s.applyAll later).state.cancelled = true ∧
      (s.applyAll later).state.cursor = ⟨1, 0, .right⟩ := by
  dsimp only
  have hflag : ((ofPacing .standard).applyAll stumble).state.cancelled = true := by decide
  obtain ⟨hiff, hsticks⟩ := flag_iff_raised_and_sticks .standard stumble
  obtain ⟨hraised, hcursor, -, -⟩ :=
    hsticks hflag [.start, .tick (.ofMillis 900), .abort, .takeBack, .start] (by decide)
  exact ⟨hiff.mp hflag, by decide, hraised, hcursor.trans (by decide)⟩

end Session

end TileWalk
