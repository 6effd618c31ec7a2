import TileWalk.Proofs.Session.InFlight
import TileWalk.Proofs.Session.Recursion

/-!
What is reported at the end of a run is true. An outcome that a run comes to by itself says what is
under the cursor at that moment, and a run is reported as cancelled only where it was cut off or the
flag was raised from the start (`truthful_of_ended`).
-/

namespace TileWalk.Session

/-- What the report of an ended run says, where `step` is the step in which it ends. The tile is the
one under the cursor at that moment, for the report of an outcome of the run's own comes last. -/
structure Truthful (s : Session) (action : Action) (step : Step Session) (outcome : Outcome)
    (executed : UInt32) : Prop where
  last : outcome ≠ .cancelled → step.report.events.getLast? = some (.ended outcome executed)
  won : outcome = .won → step.state.tileUnder step.state.cursor = .goal
  offPath : outcome = .offPath → step.state.tileUnder step.state.cursor = .void
  exhausted : outcome = .exhausted → executed ≠ 0 →
    step.state.tileUnder step.state.cursor ≠ .goal
  /-- The run started while the flag was raised, or it was in flight and the action cut it off. -/
  cancelled : outcome = .cancelled →
    (action = .start ∧ s.cancelled = true ∧ executed = 0) ∨
      (action.CutsOff ∧ ∃ run, s.run = some run ∧ executed = run.executed)

variable {s : Session} {outcome outcome' : Outcome} {executed executed' : UInt32}

/-! ### Where a run is reported as ended -/

theorem ended_mem_endingEvents :
    .ended outcome executed ∈ endingEvents outcome' executed' ↔
      outcome = outcome' ∧ executed = executed' := by
  cases outcome' <;> simp [endingEvents]

theorem getLast?_endingEvents (outcome : Outcome) (executed : UInt32) :
    (endingEvents outcome executed).getLast? = some (.ended outcome executed) := by
  simp [endingEvents]

theorem ended_not_mem_of_isScene {events : List Event}
    (h : ∀ event ∈ events, event.IsScene) : .ended outcome executed ∉ events :=
  fun hmem => h _ hmem

theorem ended_mem_cutOff (h : .ended outcome executed ∈ s.cutOff.report.events) :
    outcome = .cancelled ∧ ∃ run, s.run = some run ∧ executed = run.executed := by
  cases hrun : s.run with
  | none => simp [cutOff, hrun] at h
  | some run =>
    simp only [cutOff, hrun, endRun] at h
    obtain ⟨rfl, rfl⟩ := ended_mem_endingEvents.mp h
    exact ⟨rfl, run, rfl, rfl⟩

/-- A run that ends where it arrives ends there as the stage says, and nothing is reported after. -/
theorem ended_mem_arrive {stage : Stage} {elapsed : Duration}
    (h : .ended outcome executed ∈ (s.arrive stage elapsed).report.events) :
    stage.pause = .finished outcome ∧ stage.executed = executed ∧
      (s.arrive stage elapsed).report.events = endingEvents outcome executed ∧
      (s.arrive stage elapsed).state.tileUnder (s.arrive stage elapsed).state.cursor =
        s.tileUnder stage.cursor := by
  obtain ⟨cursor, count, pause⟩ := stage
  cases pause with
  | waiting stack command => simp [arrive] at h
  | finished outcome' =>
    simp only [arrive, endRun] at h
    obtain ⟨rfl, rfl⟩ := ended_mem_endingEvents.mp h
    exact ⟨rfl, rfl, rfl, rfl⟩

/-! ### Truth -/

variable {action : Action}

theorem Truthful.next {σ : Type} {first : Step σ} {f : σ → Step Session}
    (h : s.Truthful action (f first.state) outcome executed) :
    s.Truthful action (first.next f) outcome executed := by
  refine ⟨fun hown => ?_, h.won, h.offPath, h.exhausted, h.cancelled⟩
  rw [Step.report_next, Report.events_append, List.getLast?_append, h.last hown]
  rfl

theorem truthful_arrive {t : Session} {stage : Stage} {elapsed : Duration}
    (hsound : stage.Sound t.queues.commands t.tileUnder)
    (h : .ended outcome executed ∈ (t.arrive stage elapsed).report.events) :
    s.Truthful action (t.arrive stage elapsed) outcome executed := by
  obtain ⟨hpause, rfl, hevents, htile⟩ := ended_mem_arrive h
  rw [Stage.Sound, hpause] at hsound
  refine ⟨fun _ => ?_, ?_, ?_, ?_, ?_⟩
  · rw [hevents, getLast?_endingEvents]
  · rintro rfl
    cases hsound with
    | won hgoal => exact htile.trans hgoal
  · rintro rfl
    cases hsound with
    | offPath hvoid => exact htile.trans hvoid
  · rintro rfl hbegun
    cases hsound with
    | exhausted hgoal => exact htile ▸ hgoal hbegun
  · rintro rfl
    cases hsound

theorem truthful_of_cancelled {step : Step Session}
    (h : (action = .start ∧ s.cancelled = true ∧ executed = 0) ∨
      (action.CutsOff ∧ ∃ run, s.run = some run ∧ executed = run.executed)) :
    s.Truthful action step .cancelled executed :=
  ⟨fun hown => absurd rfl hown, nofun, nofun, nofun, fun _ => h⟩

/-- A run may start in a session `t` that `s` has become by cutting its own run off. -/
theorem truthful_launch {t : Session} (hsame : t.cancelled = s.cancelled)
    (h : .ended outcome executed ∈ t.launch.report.events) :
    s.Truthful .start t.launch outcome executed := by
  rw [launch_eq] at h ⊢
  have harrive := List.mem_of_ne_of_mem (by simp) h
  rcases t.firstStage_cases with ⟨hflag, hover⟩ | ⟨-, hsound⟩
  · obtain ⟨hpause, rfl, -, -⟩ := ended_mem_arrive harrive
    obtain rfl : Outcome.cancelled = outcome := Pause.finished.inj (hover.symm.trans hpause)
    exact truthful_of_cancelled (.inl ⟨rfl, hsame ▸ hflag, t.executed_firstStage⟩)
  · exact (truthful_arrive hsound harrive).next

theorem truthful_tick (hs : ∀ run, s.run = some run → s.InFlight run) {elapsed : Duration}
    (h : .ended outcome executed ∈ (s.tick .replace elapsed).report.events) :
    s.Truthful action (s.tick .replace elapsed) outcome executed := by
  cases hrun : s.run with
  | none =>
    rw [tick_of_idle hrun] at h
    contradiction
  | some run =>
    obtain ⟨-, hflag, hsound⟩ := hs run hrun
    rw [tick_eq hrun hflag] at h ⊢
    rw [Step.report_next, Report.events_append, List.mem_append] at h
    rcases h with h | h
    · obtain ⟨cursor, hcursor⟩ := Run.eq_cursor_of_mem_executeDue h
      contradiction
    · exact Truthful.next (truthful_arrive (hsound.executeDue _) h)

theorem Effect.truthful {step : Step Session} (heffect : s.Effect action step)
    (hs : ∀ run, s.run = some run → s.InFlight run)
    (h : .ended outcome executed ∈ step.report.events) :
    s.Truthful action step outcome executed := by
  cases heffect with
  | refused action reason => simp [refuse] at h
  | edited action queues hrun hscene => exact absurd h (ended_not_mem_of_isScene hscene)
  | paced interval pacing notes => simp at h
  | ticked elapsed => exact truthful_tick hs h
  | stopped hcuts hrun hscene =>
    rw [Step.report_next, Report.events_append, List.mem_append] at h
    rcases h with h | h
    · obtain ⟨rfl, hcut⟩ := ended_mem_cutOff h
      exact truthful_of_cancelled (.inr ⟨hcuts, hcut⟩)
    · exact absurd h (ended_not_mem_of_isScene hscene)
  | started hlevel =>
    rw [Step.report_next, Report.events_append, List.mem_append] at h
    -- a start may report two ends: of the run it cuts off, and of its own if that is over at once
    rcases h with h | h
    · obtain ⟨rfl, hcut⟩ := ended_mem_cutOff h
      exact truthful_of_cancelled (.inr ⟨trivial, hcut⟩)
    · have hsame : s.cutOff.state.cancelled = s.cancelled := by rw [state_cutOff]
      exact (truthful_launch hsame h).next

/-- Wherever actions lead, what an action reports of the end of a run is true. -/
theorem truthful_of_ended (hs : s.Reachable)
    (h : .ended outcome executed ∈ (s.apply action).report.events) :
    s.Truthful action (s.apply action) outcome executed :=
  (s.apply_effect action).truthful (fun _ => hs.inFlight) h

/-- A run that executed anything and comes to rest on the goal by itself has won. -/
theorem Truthful.eq_won {step : Step Session} (h : s.Truthful action step outcome executed)
    (hown : outcome ≠ .cancelled) (hbegun : executed ≠ 0)
    (hgoal : step.state.tileUnder step.state.cursor = .goal) : outcome = .won := by
  cases outcome with
  | offPath => exact absurd (hgoal.symm.trans (h.offPath rfl)) (by decide)
  | won => rfl
  | exhausted => exact absurd hgoal (h.exhausted rfl hbegun)
  | cancelled => exact absurd rfl hown

/-- The visitor comes to the goal in a call, and the run says so in the tick in which it gets there. -/
theorem truthful_visitor :
    visitor.Reachable ∧
      (let s := (visitor.apply .start).state
       .ended .won 2 ∈ (s.apply (.tick (.ofMillis 700))).report.events ∧
        s.Truthful (.tick (.ofMillis 700)) (s.apply (.tick (.ofMillis 700))) .won 2) := by
  have hvisitor : visitor.Reachable := (Reachable.ofPacing _).applyAll _
  have hended : .ended .won 2 ∈
      ((visitor.apply .start).state.apply (.tick (.ofMillis 700))).report.events := by decide
  exact ⟨hvisitor, hended, truthful_of_ended (hvisitor.apply .start) hended⟩

end TileWalk.Session
