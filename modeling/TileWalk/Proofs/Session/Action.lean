import TileWalk.Proofs.Run.Execution
import TileWalk.Session.Basic

/-!
What the parts of actions do to a session, field by field, and which actions are refused: an action
that reports a refusal reports nothing else and changes nothing (`apply_eq_refuse`).
-/

namespace TileWalk

/-- A report without refusals. -/
def Report.Accepted (report : Report) : Prop :=
  ∀ reason, Event.refused reason ∉ report.events

theorem Report.Accepted.append {a b : Report} (ha : a.Accepted) (hb : b.Accepted) :
    (a ++ b).Accepted := by
  intro reason h
  rcases List.mem_append.mp h with h | h
  · exact ha reason h
  · exact hb reason h

theorem Report.accepted_of_events_eq_nil {report : Report} (h : report.events = []) :
    report.Accepted := by
  intro reason hmem
  simp [h] at hmem

namespace Session

variable {policy : TailCall} (s : Session)

/-! ### Fields -/

theorem state_cutOff :
    s.cutOff.state = { s with
      run := none
      lastOutcome := if s.running then some .cancelled else s.lastOutcome } := by
  cases s with
  | mk level cursor queues cancelled pacing run lastOutcome =>
    cases run <;> simp [cutOff, endRun, running, Outcome.raisesFlag]

theorem cursor_arrive (stage : Stage) (elapsed : Duration) :
    (s.arrive stage elapsed).state.cursor = stage.cursor := by
  simp only [arrive]
  cases stage.pause <;> rfl

theorem level_arrive (stage : Stage) (elapsed : Duration) :
    (s.arrive stage elapsed).state.level = s.level := by
  simp only [arrive]
  cases stage.pause <;> rfl

theorem level_launch : s.launch.state.level = s.level := by
  simp only [launch, Step.state_next, level_arrive]

theorem level_tick (elapsed : Duration) : (s.tick policy elapsed).state.level = s.level := by
  cases hrun : s.run with
  | none => simp [tick, hrun]
  | some run =>
    simp only [tick, hrun, elapse]
    split
    · rfl
    · simp only [Step.state_next, level_arrive]

theorem queues_arrive (stage : Stage) (elapsed : Duration) :
    (s.arrive stage elapsed).state.queues = s.queues := by
  simp only [arrive]
  cases stage.pause <;> rfl

theorem queues_launch : s.launch.state.queues = s.queues := by
  simp only [launch, Step.state_next, queues_arrive]

theorem queues_tick (elapsed : Duration) : (s.tick policy elapsed).state.queues = s.queues := by
  cases hrun : s.run with
  | none => simp [tick, hrun]
  | some run =>
    simp only [tick, hrun, elapse]
    split
    · rfl
    · simp only [Step.state_next, queues_arrive]

theorem pacing_arrive (stage : Stage) (elapsed : Duration) :
    (s.arrive stage elapsed).state.pacing = s.pacing := by
  simp only [arrive]
  cases stage.pause <;> rfl

theorem pacing_launch : s.launch.state.pacing = s.pacing := by
  simp only [launch, Step.state_next, pacing_arrive]

theorem pacing_tick (elapsed : Duration) : (s.tick policy elapsed).state.pacing = s.pacing := by
  cases hrun : s.run with
  | none => simp [tick, hrun]
  | some run =>
    simp only [tick, hrun, elapse]
    split
    · rfl
    · simp only [Step.state_next, pacing_arrive]

theorem level_add (command : Command) (placement : Placement) :
    (s.add command placement).state.level = s.level := by
  unfold add
  split
  · rfl
  · split <;> rfl

/-- Only loading changes the level. -/
theorem level_apply (action : Action) :
    (s.apply action).state.level =
      match action with
      | .load level => some level
      | _ => s.level := by
  cases action with
  | load level => rfl
  | add command placement => exact s.level_add command placement
  | submit operation condition placement =>
    simp only [Session.apply, applyWith, submit]
    split
    · exact s.level_add _ placement
    · rfl
  | takeBack =>
    simp only [Session.apply, applyWith, takeBack]
    split
    · rfl
    · split <;> rfl
  | reset => simp only [Session.apply, applyWith, reset, Step.state_next, cleared, state_cutOff]
  | start =>
    simp only [Session.apply, applyWith, start]
    split
    · rfl
    · simp only [Step.state_next, level_launch, state_cutOff]
  | abort => simp only [Session.apply, applyWith, abort, state_cutOff]
  | pace interval =>
    simp only [Session.apply, applyWith, pace]
    split <;> rfl
  | tick elapsed => exact s.level_tick elapsed

/-! ### Executed commands -/

theorem operations_arrive (stage : Stage) (elapsed : Duration) :
    (s.arrive stage elapsed).report.operations = [] := by
  unfold arrive
  split <;> rfl

theorem operations_cutOff : s.cutOff.report.operations = [] := by
  unfold cutOff
  split <;> rfl

theorem operations_launch : s.launch.report.operations = [] := by
  have hnotes : ∀ note ∈ s.firstStage.2, note.IsAside := by
    unfold firstStage
    split
    · exact fun _ hnote => absurd hnote List.not_mem_nil
    · exact fun _ => Run.isAside_of_mem_seek
  have hstarting : (Report.mk [.started] (.starting :: s.firstStage.2)).operations = [] :=
    List.filterMap_eq_nil_iff.mpr fun note hnote => by
      rcases List.mem_cons.mp hnote with rfl | hnote
      · rfl
      · exact (hnotes note hnote).2
  show (Report.mk [.started] (.starting :: s.firstStage.2) ++ _).operations = []
  rw [Report.operations_append, hstarting, operations_arrive, List.append_nil]

/-! ### Refusals -/

theorem accepted_endRun (outcome : Outcome) (executed : UInt32) :
    (s.endRun outcome executed).report.Accepted := by
  intro reason h
  cases outcome <;> simp [endRun, endingEvents] at h

theorem accepted_cutOff : s.cutOff.report.Accepted := by
  unfold cutOff
  split
  · exact s.accepted_endRun _ _
  · exact Report.accepted_of_events_eq_nil rfl

theorem accepted_arrive (stage : Stage) (elapsed : Duration) :
    (s.arrive stage elapsed).report.Accepted := by
  unfold arrive
  split
  · exact Report.accepted_of_events_eq_nil rfl
  · exact accepted_endRun _ _ _

theorem accepted_launch : s.launch.report.Accepted := by
  refine Report.Accepted.append ?_ (s.accepted_arrive _ _)
  intro reason h
  simp at h

theorem accepted_tick (elapsed : Duration) : (s.tick policy elapsed).report.Accepted := by
  unfold tick
  split
  · unfold elapse
    dsimp only
    split
    · exact s.accepted_endRun _ _
    · refine Report.Accepted.append ?_ (s.accepted_arrive _ _)
      intro reason h
      obtain ⟨cursor, hcursor⟩ := Run.eq_cursor_of_mem_executeDue h
      contradiction
  · exact Report.accepted_of_events_eq_nil rfl

theorem accepted_queueEvents {events : List Event} {notes : List Note}
    (h : ∀ reason, Event.refused reason ∉ events) :
    (Report.mk (s.queueEvents ++ events) notes).Accepted := by
  intro reason hmem
  rcases List.mem_append.mp hmem with hmem | hmem
  · simp [queueEvents, queueEvent, Subroutine.all] at hmem
  · exact h reason hmem

variable {s}

theorem eq_of_mem_refuse {reason reason' : Refusal}
    (h : Event.refused reason ∈ (s.refuse reason').report.events) : reason = reason' := by
  simpa [refuse] using h

theorem add_eq_refuse {command : Command} {placement : Placement} {reason : Refusal}
    (h : Event.refused reason ∈ (s.add command placement).report.events) :
    s.add command placement = s.refuse reason := by
  unfold add at h ⊢
  split at h
  · rw [eq_of_mem_refuse h]
  · split at h
    · rw [eq_of_mem_refuse h]
    · simp [queueEvent] at h

/-- An action that reports a refusal reports nothing else and changes nothing. -/
theorem apply_eq_refuse {action : Action} {reason : Refusal}
    (h : Event.refused reason ∈ (s.apply action).report.events) :
    s.apply action = s.refuse reason := by
  cases action with
  | load level =>
    have hload : (s.load level).report.Accepted := by
      refine s.accepted_cutOff.append fun reason hmem => ?_
      simp [queueEvents, queueEvent, Subroutine.all] at hmem
    exact absurd h (hload reason)
  | add command placement => exact add_eq_refuse h
  | submit operation condition placement =>
    simp only [Session.apply, applyWith, submit] at h ⊢
    split at h
    · exact add_eq_refuse h
    · rw [eq_of_mem_refuse h]
  | takeBack =>
    simp only [Session.apply, applyWith, takeBack] at h ⊢
    split at h
    · next hrun => rw [if_pos hrun, eq_of_mem_refuse h]
    · split at h <;> simp [queueEvent] at h
  | reset =>
    have hreset : s.reset.report.Accepted := by
      refine s.accepted_cutOff.append (accepted_queueEvents _ fun reason hmem => ?_)
      cases hlevel : s.cutOff.state.level <;> simp [hlevel] at hmem
    exact absurd h (hreset reason)
  | start =>
    simp only [Session.apply, applyWith, start] at h ⊢
    split at h
    · next hlevel => rw [if_pos hlevel, eq_of_mem_refuse h]
    · exact absurd h (s.accepted_cutOff.append (accepted_launch _) reason)
  | abort => exact absurd h (accepted_cutOff _ reason)
  | pace interval =>
    simp only [Session.apply, applyWith, pace] at h ⊢
    split at h
    · simp at h
    · rw [eq_of_mem_refuse h]
  | tick elapsed => exact absurd h (s.accepted_tick elapsed reason)

end Session

end TileWalk
