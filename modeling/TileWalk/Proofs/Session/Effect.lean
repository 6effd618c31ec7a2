import TileWalk.Proofs.Session.Transition

/-!
What an action can do to a session. Every step that an action makes is one of six effects
(`apply_effect`), so that a fact about all actions is proved effect by effect.
-/

namespace TileWalk

/-- An event that tells how things stand and nothing about a run. -/
def Event.IsScene : Event → Prop
  | .level _ | .cursor _ | .queue _ _ => True
  | _ => False

/-- An event that tells of a run. -/
def Event.IsOfRun : Event → Prop
  | .cursor _ | .started | .victory | .ended _ _ => True
  | _ => False

/-- An action that cuts off the run in flight. -/
def Action.CutsOff : Action → Prop
  | .load _ | .reset | .start | .abort => True
  | _ => False

namespace Session

/-- The effects that an action may have on a session. -/
inductive Effect (s : Session) : Action → Step Session → Prop
  | refused (action : Action) (reason : Refusal) : Effect s action (s.refuse reason)
  /-- The queues change while no run is in flight. -/
  | edited (action : Action) (queues : Queues) {report : Report} (hrun : s.run = none)
      (hscene : ∀ event ∈ report.events, event.IsScene) :
      Effect s action ⟨{ s with queues }, report⟩
  | paced (interval : Duration) (pacing : Pacing) (notes : List Note) :
      Effect s (.pace interval) ⟨{ s with pacing }, ⟨[], notes⟩⟩
  | ticked (elapsed : Duration) : Effect s (.tick elapsed) (s.tick .replace elapsed)
  /-- The run in flight is cut off and none takes its place. -/
  | stopped {action : Action} {after : Session} {report : Report} (hcuts : action.CutsOff)
      (hrun : after.run = none) (hscene : ∀ event ∈ report.events, event.IsScene) :
      Effect s action (s.cutOff.next fun _ => ⟨after, report⟩)
  | started (hlevel : s.level.isSome = true) : Effect s .start (s.cutOff.next launch)

variable (s : Session)

theorem isScene_of_mem_queueEvents {event : Event} (h : event ∈ s.queueEvents) :
    event.IsScene := by
  obtain ⟨sub, -, rfl⟩ := List.mem_map.mp h
  trivial

theorem run_of_refusal?_eq_none {s : Session} {command : Command}
    (h : s.refusal? command = none) : s.run = none := by
  cases hrun : s.run with
  | none => rfl
  | some run =>
    cases hlevel : s.level <;> simp [refusal?, hlevel, hrun] at h

theorem Transition.effect {s : Session} {action : Action} {step : Step Session}
    (h : s.Transition action step) : s.Effect action step := by
  have hidle : s.cutOff.state.run = none := by rw [state_cutOff]
  cases h with
  | refused action reason => exact .refused action reason
  | loaded level =>
    refine .stopped trivial hidle fun event hevent => ?_
    rcases List.mem_cons.mp hevent with rfl | hevent
    · trivial
    rcases List.mem_cons.mp hevent with rfl | hevent
    · trivial
    exact isScene_of_mem_queueEvents _ hevent
  | pushed haddition hrefusal hplace =>
    refine .edited action _ (run_of_refusal?_eq_none hrefusal) fun event hevent => ?_
    rw [List.mem_singleton.mp hevent]
    trivial
  | popped hrun hused =>
    refine .edited _ _ hrun fun event hevent => ?_
    rw [List.mem_singleton.mp hevent]
    trivial
  | unchanged hrun hused =>
    exact .edited _ s.queues hrun fun event hevent => absurd hevent List.not_mem_nil
  | reset =>
    refine .stopped trivial hidle fun event hevent => ?_
    rcases List.mem_append.mp hevent with hevent | hevent
    · exact isScene_of_mem_queueEvents _ hevent
    · obtain ⟨level, -, rfl⟩ := Option.map_eq_some_iff.mp (Option.mem_toList.mp hevent)
      trivial
  | started hlevel => exact .started hlevel
  | aborted =>
    exact .stopped trivial hidle fun event hevent => absurd hevent List.not_mem_nil
  | paced h => exact .paced _ _ _
  | ticked elapsed => exact .ticked elapsed

theorem apply_effect (action : Action) : s.Effect action (s.apply action) :=
  (s.apply_transition action).effect

/-! ### The events of runs -/

variable {s} {policy : TailCall} {event : Event}

theorem isOfRun_of_mem_endingEvents {outcome : Outcome} {executed : UInt32}
    (h : event ∈ endingEvents outcome executed) : event.IsOfRun := by
  rcases List.mem_append.mp h with h | h
  · split at h
    · rw [List.mem_singleton.mp h]
      trivial
    · contradiction
  · rw [List.mem_singleton.mp h]
    trivial

theorem isOfRun_of_mem_cutOff (h : event ∈ s.cutOff.report.events) : event.IsOfRun := by
  unfold cutOff at h
  split at h
  · exact isOfRun_of_mem_endingEvents h
  · contradiction

theorem isOfRun_of_mem_arrive {stage : Stage} {elapsed : Duration}
    (h : event ∈ (s.arrive stage elapsed).report.events) : event.IsOfRun := by
  unfold arrive at h
  split at h
  · contradiction
  · exact isOfRun_of_mem_endingEvents h

theorem isOfRun_of_mem_launch (h : event ∈ s.launch.report.events) : event.IsOfRun := by
  rcases List.mem_cons.mp h with rfl | h
  · trivial
  · exact isOfRun_of_mem_arrive h

theorem isOfRun_of_mem_tick {elapsed : Duration}
    (h : event ∈ (s.tick policy elapsed).report.events) : event.IsOfRun := by
  unfold tick at h
  split at h
  · unfold elapse at h
    dsimp only at h
    split at h
    · exact isOfRun_of_mem_endingEvents h
    · rcases List.mem_append.mp h with h | h
      · obtain ⟨cursor, rfl⟩ := Run.eq_cursor_of_mem_executeDue h
        trivial
      · exact isOfRun_of_mem_arrive h
  · contradiction

/-- An action reports a refusal, how things stand, or what a run does. -/
theorem kind_of_mem_apply {action : Action} (h : event ∈ (s.apply action).report.events) :
    (∃ reason, event = .refused reason) ∨ event.IsScene ∨ event.IsOfRun := by
  have heffect := s.apply_effect action
  generalize s.apply action = step at heffect h
  cases heffect with
  | refused action reason => exact .inl ⟨reason, List.mem_singleton.mp h⟩
  | edited action queues hrun hscene => exact .inr (.inl (hscene event h))
  | paced => contradiction
  | ticked elapsed => exact .inr (.inr (isOfRun_of_mem_tick h))
  | stopped hcuts hrun hscene =>
    rcases List.mem_append.mp h with h | h
    · exact .inr (.inr (isOfRun_of_mem_cutOff h))
    · exact .inr (.inl (hscene event h))
  | started hlevel =>
    rcases List.mem_append.mp h with h | h
    · exact .inr (.inr (isOfRun_of_mem_cutOff h))
    · exact .inr (.inr (isOfRun_of_mem_launch h))

/-- That there is no level to go on to is nothing that a session knows of. -/
theorem complete_not_mem_apply (s : Session) (action : Action) :
    .complete ∉ (s.apply action).report.events := by
  intro h
  rcases kind_of_mem_apply h with ⟨reason, hreason⟩ | hscene | hrun
  · contradiction
  · exact hscene
  · exact hrun

/-- A run that a load cuts off is not won. -/
theorem victory_not_mem_load (s : Session) (level : Level) :
    .victory ∉ (s.apply (.load level)).report.events := by
  intro h
  rcases List.mem_append.mp h with h | h
  · unfold cutOff at h
    split at h
    · simp [endRun, endingEvents] at h
    · contradiction
  · simp [queueEvents, queueEvent, Subroutine.all] at h

end Session

end TileWalk
