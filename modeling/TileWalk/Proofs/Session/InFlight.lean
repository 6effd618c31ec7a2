import TileWalk.Proofs.Run.Pause
import TileWalk.Proofs.Session.Effect
import TileWalk.Proofs.Session.Time

/-!
The run in flight of a session that actions lead to: it is on a level, the flag is lowered, and its
stage is sound (`Reachable.inFlight`). These facts are established where a run arrives at a stage,
and no action but one that ends the run touches what they speak of.
-/

namespace TileWalk.Session

/-- What holds of a run that has just started, and goes on holding while time passes and when the
pacing changes, holds of the run in flight wherever actions lead. -/
theorem Reachable.run_induction {P : Session → Run → Prop}
    (launched : ∀ {s : Session} {run : Run}, s.level.isSome = true →
      s.launch.state.run = some run → P s.launch.state run)
    (ticked : ∀ {s : Session} {run after : Run} (elapsed : Duration), s.run = some run → P s run →
      (s.tick .replace elapsed).state.run = some after → P (s.tick .replace elapsed).state after)
    (paced : ∀ {s : Session} {run : Run} (pacing : Pacing), s.run = some run → P s run →
      P { s with pacing } run)
    {s : Session} (hs : s.Reachable) {run : Run} (hrun : s.run = some run) : P s run := by
  induction hs generalizing run with
  | ofPacing pacing => contradiction
  | @apply s action hs ih =>
    have heffect := s.apply_effect action
    generalize s.apply action = step at heffect hrun ⊢
    cases heffect with
    | refused => exact ih hrun
    | edited action queues hidle =>
      rw [hidle] at hrun
      contradiction
    | paced interval pacing notes => exact paced pacing hrun (ih hrun)
    | ticked elapsed =>
      cases hbefore : s.run with
      | none =>
        rw [tick_of_idle hbefore, Step.state_stay, hbefore] at hrun
        contradiction
      | some before => exact ticked elapsed hbefore (ih hbefore) hrun
    | stopped hcuts hidle =>
      rw [Step.state_next, hidle] at hrun
      contradiction
    | started hlevel =>
      refine launched ?_ hrun
      rw [state_cutOff]
      exact hlevel

/-- The facts about a run in flight. -/
structure InFlight (s : Session) (run : Run) : Prop where
  level : ∃ level, s.level = some level
  lowered : s.cancelled = false
  sound : (s.stage run).Sound s.queues.commands s.tileUnder

theorem InFlight.waits {s : Session} {run : Run} (h : s.InFlight run) :
    Run.Waits s.queues.commands (s.tileUnder s.cursor) run.stack run.command :=
  h.sound.waits rfl

/-- A run that arrives at a sound stage and is not over there is in flight. -/
theorem inFlight_arrive {s : Session} (hlevel : ∃ level, s.level = some level)
    (hflag : s.cancelled = false) {stage : Stage}
    (hsound : stage.Sound s.queues.commands s.tileUnder) {elapsed : Duration} {run : Run}
    (h : (s.arrive stage elapsed).state.run = some run) :
    (s.arrive stage elapsed).state.InFlight run := by
  obtain ⟨cursor, executed, pause⟩ := stage
  cases pause with
  | waiting stack command =>
    obtain rfl := Option.some.inj h
    exact ⟨hlevel, hflag, hsound⟩
  | finished outcome => simp [arrive, endRun] at h

theorem launch_eq (s : Session) :
    s.launch = Step.next ⟨s, ⟨[.started], .starting :: s.firstStage.2⟩⟩ fun _ =>
      s.arrive s.firstStage.1 .zero := rfl

theorem cursor_firstStage (s : Session) : s.firstStage.1.cursor = s.cursor := by
  unfold firstStage
  split <;> rfl

theorem executed_firstStage (s : Session) : s.firstStage.1.executed = 0 := by
  unfold firstStage
  split <;> rfl

/-- A run begins at a sound stage, or it is over at once because the flag is raised. -/
theorem firstStage_cases (s : Session) :
    (s.cancelled = true ∧ s.firstStage.1.pause = .finished .cancelled) ∨
      (s.cancelled = false ∧ s.firstStage.1.Sound s.queues.commands s.tileUnder) := by
  cases hflag : s.cancelled with
  | true =>
    rw [firstStage, if_pos hflag]
    exact .inl ⟨rfl, rfl⟩
  | false =>
    rw [firstStage, if_neg (by simp [hflag])]
    exact .inr ⟨rfl, Run.sound_initial _⟩

theorem inFlight_launch {s : Session} (hlevel : ∃ level, s.level = some level) {run : Run}
    (h : s.launch.state.run = some run) : s.launch.state.InFlight run := by
  rw [launch_eq, Step.state_next] at h ⊢
  rcases s.firstStage_cases with ⟨-, hover⟩ | ⟨hflag, hsound⟩
  · simp [arrive, hover, endRun] at h
  · exact inFlight_arrive hlevel hflag hsound h

theorem inFlight_tick {s : Session} {run after : Run} (hrun : s.run = some run)
    (h : s.InFlight run) {elapsed : Duration}
    (hafter : (s.tick .replace elapsed).state.run = some after) :
    (s.tick .replace elapsed).state.InFlight after := by
  obtain ⟨hlevel, hflag, hsound⟩ := h
  rw [tick_eq hrun hflag] at hafter ⊢
  exact inFlight_arrive hlevel hflag (hsound.executeDue _) hafter

theorem Reachable.inFlight {s : Session} (hs : s.Reachable) {run : Run} (hrun : s.run = some run) :
    s.InFlight run := by
  refine hs.run_induction (fun hlevel h => ?_) (fun _ hrun h hafter => ?_) (fun _ _ h => ?_) hrun
  · exact inFlight_launch (Option.isSome_iff_exists.mp hlevel) h
  · exact inFlight_tick hrun h hafter
  · exact ⟨h.level, h.lowered, h.sound⟩

/-- A run that has arrived and is not over has all that the stage says. -/
theorem run_arrive {s : Session} {run : Run} {stage : Stage} {elapsed : Duration}
    (h : (s.arrive stage elapsed).state.run = some run) :
    run.elapsed = elapsed ∧ run.executed = stage.executed := by
  obtain ⟨cursor, executed, pause⟩ := stage
  cases pause with
  | waiting stack command =>
    obtain rfl := Option.some.inj h
    exact ⟨rfl, rfl⟩
  | finished outcome => simp [arrive, endRun] at h

/-- A run that has just started has not waited and has carried out no command. -/
theorem run_of_start {s : Session} (hs : s.Reachable) {run : Run}
    (h : (s.apply .start).state.run = some run) :
    run.elapsed = .zero ∧ run.executed = 0 := by
  simp only [Session.apply, applyWith, start] at h
  split at h
  · next hlevel =>
    rw [Option.isNone_iff_eq_none] at hlevel
    rw [refuse, hs.idle_of_level_eq_none hlevel] at h
    contradiction
  · rw [Step.state_next, launch_eq, Step.state_next] at h
    obtain ⟨helapsed, hexecuted⟩ := run_arrive h
    exact ⟨helapsed, hexecuted.trans (executed_firstStage _)⟩

end TileWalk.Session
