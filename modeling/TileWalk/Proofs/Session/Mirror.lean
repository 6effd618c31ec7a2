import TileWalk.Output.Transcript
import TileWalk.Proofs.Session.InFlight

/-!
What the events tell of a session. A mirror is a sink that knows nothing but the events it was fed.
Every change of a session announces itself, so that a mirror fed all events shows the level, the
cursor, the queues, whether a run is in flight and how the last one ended, and a transcript keeps
the same level, queues and cursor (`feed_events`).
-/

namespace TileWalk

/-- What events tell of a session. -/
structure Mirror where
  level : Option Level
  cursor : Cursor
  queues : Slots (List Command)
  running : Bool
  lastOutcome : Option Outcome
deriving DecidableEq

namespace Mirror

def blank : Mirror := ⟨none, .origin, .const [], false, none⟩

def sink : Sink Mirror where
  level m level := { m with level := some level, lastOutcome := none }
  cursor m cursor := { m with cursor }
  queue m sub commands := { m with queues := m.queues.set sub commands }
  refused m _ := m
  victory m := m
  complete m := m
  started m := { m with running := true }
  ended m outcome _ := { m with running := false, lastOutcome := some outcome }

theorem feed_endingEvents (m : Mirror) (outcome : Outcome) (executed : UInt32) :
    sink.feed m (Session.endingEvents outcome executed) =
      { m with running := false, lastOutcome := some outcome } := by
  cases outcome <;> rfl

/-- Announcing all three queues leaves nothing of what the mirror held of them. -/
theorem feed_queueEvents (m : Mirror) (s : Session) :
    sink.feed m s.queueEvents = { m with queues := .ofFn s.queue } := rfl

/-- How the last run ended can be told from events that tell of an end, and from any events once
it is known. -/
theorem lastOutcome_feed {m m' : Mirror} {events : List Event}
    (h : m.lastOutcome = m'.lastOutcome ∨ ∃ outcome executed, .ended outcome executed ∈ events) :
    (sink.feed m events).lastOutcome = (sink.feed m' events).lastOutcome := by
  induction events generalizing m m' with
  | nil =>
    rcases h with h | ⟨outcome, executed, hmem⟩
    · exact h
    · contradiction
  | cons event events ih =>
    rw [Sink.feed_cons, Sink.feed_cons]
    cases event with
    | level level => exact ih (.inl rfl)
    | ended outcome executed => exact ih (.inl rfl)
    | _ =>
      refine ih (h.imp id ?_)
      rintro ⟨outcome, executed, hmem⟩
      exact ⟨outcome, executed, List.mem_of_ne_of_mem (by simp) hmem⟩

section Engine

variable {policy : TailCall} {queues : Slots (List Command)} {tileUnder : Cursor → Tile}

theorem feed_execute (m : Mirror) (cursor : Cursor) (stack : List Activation)
    (command : Command) :
    let executed := Run.execute policy queues tileUnder cursor stack command
    sink.feed { m with cursor } executed.report.events = { m with cursor := executed.state.1 } := by
  cases hop : command.operation <;> simp only [Run.execute, hop] <;> rfl

theorem feed_executeDue (m : Mirror) (due : Nat) (stage : Stage) :
    let executed := Run.executeDue policy queues tileUnder due stage
    sink.feed { m with cursor := stage.cursor } executed.report.events =
      { m with cursor := executed.state.cursor } := by
  induction due generalizing stage with
  | zero => rfl
  | succ due ih =>
    cases hpause : stage.pause with
    | finished outcome =>
      rw [Run.executeDue_of_finished hpause]
      rfl
    | waiting stack command =>
      rw [Run.executeDue_of_waiting hpause]
      dsimp only
      rw [Step.report_next, Report.events_append, Sink.feed_append, feed_execute]
      exact ih ⟨_, _, _⟩

end Engine

end Mirror

namespace Session

/-- What a mirror should show of the session. -/
def mirror (s : Session) : Mirror := ⟨s.level, s.cursor, .ofFn s.queue, s.running, s.lastOutcome⟩

variable (s : Session)

/-! ### The mirror through one action -/

theorem feed_cutOff : Mirror.sink.feed s.mirror s.cutOff.report.events = s.cutOff.state.mirror := by
  cases hrun : s.run with
  | none =>
    rw [cutOff, hrun]
    rfl
  | some run =>
    rw [cutOff, hrun]
    exact Mirror.feed_endingEvents _ _ _

/-- A mirror that shows a run at a stage follows where the run arrives. -/
theorem feed_arrive (stage : Stage) (elapsed : Duration) :
    Mirror.sink.feed { s.mirror with cursor := stage.cursor, running := true }
        (s.arrive stage elapsed).report.events =
      (s.arrive stage elapsed).state.mirror := by
  obtain ⟨cursor, executed, pause⟩ := stage
  cases pause with
  | waiting stack command => rfl
  | finished outcome => exact Mirror.feed_endingEvents _ _ _

theorem feed_launch : Mirror.sink.feed s.mirror s.launch.report.events = s.launch.state.mirror := by
  have harrive := s.feed_arrive s.firstStage.1 .zero
  rw [cursor_firstStage] at harrive
  exact harrive

theorem feed_tick (policy : TailCall) (elapsed : Duration) :
    Mirror.sink.feed s.mirror (s.tick policy elapsed).report.events =
      (s.tick policy elapsed).state.mirror := by
  cases hrun : s.run with
  | none =>
    rw [tick_of_idle hrun]
    rfl
  | some run =>
    have hrunning : s.mirror = { s.mirror with cursor := s.cursor, running := true } := by
      simp only [mirror, running, hrun, Option.isSome_some]
    rw [tick_of_running hrun, elapse]
    split
    · exact Mirror.feed_endingEvents _ _ _
    · rw [Step.report_next, Report.events_append, Sink.feed_append, hrunning]
      have hposes := @Mirror.feed_executeDue policy s.queues.commands s.tileUnder
        { s.mirror with running := true } (s.pacing.due (run.elapsed + elapsed)) (s.stage run)
      rw [stage] at hposes
      rw [hposes]
      exact s.feed_arrive _ _

/-- Without a level the cursor stays where it is, and nothing is said of it. -/
theorem feed_cleared :
    Mirror.sink.feed s.mirror
        (s.cleared.queueEvents ++ (s.level.map fun level => .cursor level.start).toList) =
      s.cleared.mirror := by
  rw [Sink.feed_append, Mirror.feed_queueEvents]
  cases s with
  | mk level cursor queues cancelled pacing run lastOutcome => cases level <;> rfl

variable {s}

/-- A mirror that keeps up with one step and with the next keeps up with both. -/
theorem feed_next {step : Step Session} {f : Session → Step Session}
    (hfirst : Mirror.sink.feed s.mirror step.report.events = step.state.mirror)
    (hnext : Mirror.sink.feed step.state.mirror (f step.state).report.events =
      (f step.state).state.mirror) :
    Mirror.sink.feed s.mirror (step.next f).report.events = (step.next f).state.mirror := by
  rw [Step.report_next, Report.events_append, Sink.feed_append, hfirst, hnext, Step.state_next]

/-- A mirror that shows the session before an action and is fed the events of the action shows the
session after it. -/
theorem feed_apply (s : Session) (action : Action) :
    Mirror.sink.feed s.mirror (s.apply action).report.events = (s.apply action).state.mirror := by
  have htransition := s.apply_transition action
  generalize s.apply action = step at htransition ⊢
  cases htransition with
  | loaded level => exact feed_next s.feed_cutOff rfl
  | @pushed _ command placement sub haddition hrefusal hplace => cases sub <;> rfl
  | @popped sub hrun hused => cases sub <;> rfl
  | reset => exact feed_next s.feed_cutOff (feed_cleared _)
  | started hlevel => exact feed_next s.feed_cutOff (feed_launch _)
  | aborted => exact feed_next s.feed_cutOff rfl
  | ticked elapsed => exact s.feed_tick _ elapsed
  | refused | unchanged | paced => rfl

theorem feed_applyAll (s : Session) (actions : List Action) :
    Mirror.sink.feed s.mirror (s.applyAll actions).report.events =
      (s.applyAll actions).state.mirror := by
  induction actions generalizing s with
  | nil => rfl
  | cons action actions ih => exact feed_next (s.feed_apply action) (ih _)

/-! ### Where levels are announced -/

variable {level : Level}

theorem level_not_mem_queueEvents : .level level ∉ s.queueEvents := by
  simp [queueEvents, queueEvent, Subroutine.all]

/-- A level is announced only when it is loaded. -/
theorem eq_load_of_mem {action : Action} (h : .level level ∈ (s.apply action).report.events) :
    action = .load level := by
  have htransition := s.apply_transition action
  generalize s.apply action = step at htransition h
  cases htransition with
  | loaded loaded =>
    rcases List.mem_append.mp h with h | h
    · exact absurd (isOfRun_of_mem_cutOff h) id
    · have hqueues : Event.level level ∉ (s.cutOff.state.onLevel loaded).queueEvents :=
        level_not_mem_queueEvents
      simp [hqueues] at h
      rw [h]
  | reset =>
    rcases List.mem_append.mp h with h | h
    · exact absurd (isOfRun_of_mem_cutOff h) id
    · rcases List.mem_append.mp h with h | h
      · exact absurd h level_not_mem_queueEvents
      · simp at h
  | started hlevel =>
    rcases List.mem_append.mp h with h | h
    · exact absurd (isOfRun_of_mem_cutOff h) id
    · exact absurd (isOfRun_of_mem_launch h) id
  | aborted =>
    rw [Step.report_next, Step.report_stay, Report.append_empty] at h
    exact absurd (isOfRun_of_mem_cutOff h) id
  | ticked elapsed => exact absurd (isOfRun_of_mem_tick h) id
  | refused | pushed | popped => simp [refuse] at h
  | unchanged | paced => contradiction

end Session

/-! ### Displays -/

/-- The display holds what the mirror shows, the cursor once there is a level to draw it on. -/
structure Display.Matches (d : Display) (m : Mirror) : Prop where
  level : d.level = m.level
  queues : d.queues = m.queues
  cursor : m.level.isSome = true → d.cursor = some m.cursor

namespace Display.Matches

variable {d : Display} {m : Mirror}

theorem blank : Display.blank.Matches .blank := ⟨rfl, rfl, nofun⟩

theorem feed (h : d.Matches m) {events : List Event} (hlevel : ∀ level, .level level ∉ events) :
    (events.foldl update d).Matches (Mirror.sink.feed m events) := by
  induction events generalizing d m with
  | nil => exact h
  | cons event events ih =>
    refine ih ?_ fun level hmem => hlevel level (List.mem_cons_of_mem _ hmem)
    cases event with
    | level level => exact absurd List.mem_cons_self (hlevel level)
    | cursor cursor => exact ⟨h.level, h.queues, fun _ => rfl⟩
    | queue sub commands =>
      exact ⟨h.level, congrArg (fun queues => queues.set sub commands) h.queues, h.cursor⟩
    | _ => exact ⟨h.level, h.queues, h.cursor⟩

/-- A new level makes the display forget the cursor, so that the pose on it has to come next. -/
theorem level_cursor (h : d.Matches m) (level : Level) (cursor : Cursor) :
    ((d.update (.level level)).update (.cursor cursor)).Matches
      (Mirror.sink.feed m [.level level, .cursor cursor]) :=
  ⟨rfl, h.queues, fun _ => rfl⟩

end Display.Matches

namespace Session

variable {s : Session} {d : Display} {m : Mirror}

theorem matches_apply (h : d.Matches m) (action : Action) :
    ((s.apply action).report.events.foldl Display.update d).Matches
      (Mirror.sink.feed m (s.apply action).report.events) := by
  by_cases hload : ∃ level, action = .load level
  · obtain ⟨level, rfl⟩ := hload
    have hcut := h.feed fun level (hmem : .level level ∈ s.cutOff.report.events) =>
      absurd (isOfRun_of_mem_cutOff hmem) id
    have hlevel := hcut.level_cursor level level.start
    rw [Session.apply, applyWith, load, Step.report_next, Report.events_append, List.foldl_append,
      Sink.feed_append]
    exact hlevel.feed fun _ => level_not_mem_queueEvents
  · exact h.feed fun level hmem => hload ⟨level, eq_load_of_mem hmem⟩

theorem matches_applyAll (h : d.Matches m) (actions : List Action) :
    ((s.applyAll actions).report.events.foldl Display.update d).Matches
      (Mirror.sink.feed m (s.applyAll actions).report.events) := by
  induction actions generalizing s d m with
  | nil => exact h
  | cons action actions ih =>
    rw [applyAll_cons, Step.report_next, Report.events_append, List.foldl_append, Sink.feed_append]
    exact ih (matches_apply h action)

/-- The events of a session alone determine what it shows. Whatever actions were applied, a mirror
that was fed their events shows what the session shows, and a transcript of them holds the level,
the queues and, on a level, the cursor, even if its outlet takes nothing. -/
theorem feed_events (pacing : Pacing) (actions : List Action) (outlet : Outlet) :
    let step := (ofPacing pacing).applyAll actions
    let transcript := Transcript.sink.feed (.opening outlet) step.report.events
    Mirror.sink.feed .blank step.report.events = step.state.mirror ∧
      transcript.display.level = step.state.level ∧
      (∀ sub, transcript.queue sub = step.state.queue sub) ∧
      (step.state.level.isSome = true → transcript.display.cursor = some step.state.cursor) := by
  have hmirror := (ofPacing pacing).feed_applyAll actions
  have hmatches := matches_applyAll (s := ofPacing pacing) .blank actions
  have hblank : (ofPacing pacing).mirror = .blank := rfl
  rw [hblank] at hmirror
  rw [hmirror] at hmatches
  dsimp only
  refine ⟨hmirror, ?_, fun sub => ?_, ?_⟩
  · rw [Transcript.display_feed_sink]
    exact hmatches.level
  · rw [Transcript.queue, Transcript.display_feed_sink]
    exact (congrArg (fun queues => queues.get sub) hmatches.queues).trans (Slots.get_ofFn _ _)
  · rw [Transcript.display_feed_sink]
    exact hmatches.cursor

end Session

end TileWalk
