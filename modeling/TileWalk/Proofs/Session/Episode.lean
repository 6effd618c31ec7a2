import TileWalk.Proofs.Session.Mirror
import TileWalk.Proofs.Session.Time

/-!
Events told level by level: how the runs on each level ended that was loaded (`episodes`). A step of
a session on which a run is launched or goes on either leaves it in flight and tells of no end, or
tells of one end, which the session then remembers (`RunsOn`).
-/

namespace TileWalk

def Event.outcome? : Event → Option Outcome
  | .ended outcome _ => some outcome
  | _ => none

/-- A level that was loaded, and how the runs on it ended. -/
structure Episode where
  level : Level
  outcomes : List Outcome
deriving DecidableEq

/-- How the runs of some events ended. -/
def outcomesOf (events : List Event) : List Outcome :=
  events.filterMap Event.outcome?

/-- How the runs ended before the first level that was loaded, and on each that was. -/
def chapters : List Event → List Outcome × List Episode
  | [] => ([], [])
  | .level level :: events => ([], ⟨level, (chapters events).1⟩ :: (chapters events).2)
  | .ended outcome _ :: events => (outcome :: (chapters events).1, (chapters events).2)
  | _ :: events => chapters events

def episodes (events : List Event) : List Episode := (chapters events).2

variable {events rest : List Event} {outcomes outcomes' : List Outcome}

@[simp] theorem outcomesOf_append (a b : List Event) :
    outcomesOf (a ++ b) = outcomesOf a ++ outcomesOf b := List.filterMap_append

/-- All ends are told in some chapter. -/
theorem outcomesOf_eq_chapters (events : List Event) :
    outcomesOf events = (chapters events).1 ++ (chapters events).2.flatMap Episode.outcomes := by
  fun_induction chapters events with
  | case1 => rfl
  | case2 level events ih => exact ih
  | case3 outcome executed events ih =>
    show outcome :: outcomesOf events = _
    rw [ih]
    rfl
  | case4 event events hlevel hended ih =>
    cases event with
    | level => exact absurd rfl (hlevel _)
    | ended => exact absurd rfl (hended _ _)
    | _ => exact ih

/-- The events tell of these ends, and neither of a level nor of the end of a campaign. -/
structure Tell (events : List Event) (outcomes : List Outcome) : Prop where
  level : ∀ level, .level level ∉ events
  complete : .complete ∉ events
  outcomes : outcomesOf events = outcomes

namespace Tell

theorem nil : Tell [] [] := ⟨fun _ => List.not_mem_nil, List.not_mem_nil, rfl⟩

theorem append (h : Tell events outcomes) (h' : Tell rest outcomes') :
    Tell (events ++ rest) (outcomes ++ outcomes') where
  level level hmem := (List.mem_append.mp hmem).elim (h.level level) (h'.level level)
  complete hmem := (List.mem_append.mp hmem).elim h.complete h'.complete
  outcomes := by rw [outcomesOf_append, h.outcomes, h'.outcomes]

theorem chapters_append (h : Tell events outcomes) (rest : List Event) :
    chapters (events ++ rest) = (outcomes ++ (chapters rest).1, (chapters rest).2) := by
  obtain ⟨hlevel, -, rfl⟩ := h
  induction events with
  | nil => rfl
  | cons event events ih =>
    have ih := ih fun level hmem => hlevel level (List.mem_cons_of_mem _ hmem)
    cases event with
    | level level => exact absurd List.mem_cons_self (hlevel level)
    | ended outcome executed =>
      show (outcome :: (chapters (events ++ rest)).1, (chapters (events ++ rest)).2) = _
      rw [ih]
      rfl
    | _ => exact ih

theorem count_complete_append (h : Tell events outcomes) (rest : List Event) :
    (events ++ rest).count .complete = rest.count .complete := by
  rw [List.count_append, List.count_eq_zero_of_not_mem h.complete, Nat.zero_add]

end Tell

namespace Session

variable {s : Session} {run : Run}

/-- A run is in flight after the step, and nothing tells of an end; or the step tells of its end. -/
inductive RunsOn (step : Step Session) : Prop
  | waits (hrun : step.state.run.isSome = true) (houtcomes : outcomesOf step.report.events = [])
      (hvictory : .victory ∉ step.report.events)
  | ends (outcome : Outcome) (hrun : step.state.run = none)
      (hlast : step.state.lastOutcome = some outcome)
      (houtcomes : outcomesOf step.report.events = [outcome])
      (hvictory : .victory ∈ step.report.events ↔ outcome = .won)

theorem runsOn_endRun (s : Session) (outcome : Outcome) (executed : UInt32) :
    RunsOn (s.endRun outcome executed) := by
  refine .ends outcome rfl rfl ?_ ?_
  · cases outcome <;> rfl
  · cases outcome <;> simp [endRun, endingEvents]

theorem runsOn_arrive (s : Session) (stage : Stage) (elapsed : Duration) :
    RunsOn (s.arrive stage elapsed) := by
  unfold arrive
  split
  · exact .waits rfl rfl List.not_mem_nil
  · exact runsOn_endRun _ _ _

theorem RunsOn.next {σ : Type} {first : Step σ} {f : σ → Step Session}
    (h : RunsOn (f first.state)) (houtcomes : outcomesOf first.report.events = [])
    (hvictory : .victory ∉ first.report.events) : RunsOn (first.next f) := by
  cases h with
  | waits hrun houtcomes' hvictory' =>
    refine .waits hrun ?_ ?_
    · rw [Step.report_next, Report.events_append, outcomesOf_append, houtcomes, houtcomes']
      rfl
    · simp [hvictory, hvictory']
  | ends outcome hrun hlast houtcomes' hvictory' =>
    refine .ends outcome hrun hlast ?_ ?_
    · rw [Step.report_next, Report.events_append, outcomesOf_append, houtcomes, houtcomes']
      rfl
    · simp [hvictory, hvictory']

theorem runsOn_launch (s : Session) : RunsOn s.launch := by
  rw [launch_eq]
  refine RunsOn.next ?_ rfl (by simp)
  exact runsOn_arrive _ _ _

theorem runsOn_tick (hrun : s.run = some run) (elapsed : Duration) :
    RunsOn (s.apply (.tick elapsed)) := by
  show RunsOn (s.tick .replace elapsed)
  rw [tick_of_running hrun, elapse]
  dsimp only
  split
  · exact runsOn_endRun _ _ _
  · refine RunsOn.next ?_ ?_ fun hmem => ?_
    · exact runsOn_arrive _ _ _
    · refine List.filterMap_eq_nil_iff.mpr fun event hmem => ?_
      obtain ⟨cursor, rfl⟩ := Run.eq_cursor_of_mem_executeDue hmem
      rfl
    · obtain ⟨cursor, hcursor⟩ := Run.eq_cursor_of_mem_executeDue hmem
      contradiction

theorem runsOn_abort (hrun : s.run = some run) : RunsOn (s.apply .abort) := by
  show RunsOn s.abort
  rw [abort, cutOff]
  dsimp only
  rw [hrun]
  exact runsOn_endRun _ _ _

/-- No run begins or ends where a command is submitted. -/
theorem submit_of_idle (hrun : s.run = none) (operation : String) (condition : Option String)
    (placement : Placement) :
    (s.apply (.submit operation condition placement)).state.run = none ∧
      outcomesOf (s.apply (.submit operation condition placement)).report.events = [] ∧
      .victory ∉ (s.apply (.submit operation condition placement)).report.events := by
  have heffect := s.apply_effect (.submit operation condition placement)
  generalize s.apply (.submit operation condition placement) = step at heffect ⊢
  cases heffect with
  | refused => exact ⟨hrun, rfl, by simp [refuse]⟩
  | edited _ queues _ hscene =>
    refine ⟨hrun, List.filterMap_eq_nil_iff.mpr fun event hmem => ?_, fun hmem => hscene _ hmem⟩
    cases event with
    | ended => exact absurd (hscene _ hmem) id
    | _ => rfl
  | stopped hcuts => exact absurd hcuts id

theorem start_of_idle (hlevel : s.level.isSome = true) (hrun : s.run = none) :
    s.apply .start = s.launch := by
  have hlevel : s.level.isNone = false := by
    rw [← Option.not_isSome, hlevel]
    rfl
  simp [Session.apply, applyWith, start, hlevel, cutOff, hrun]

theorem load_of_idle (hrun : s.run = none) (level : Level) :
    (s.apply (.load level)).state = s.onLevel level ∧
      (s.apply (.load level)).report.events =
        .level level :: .cursor level.start :: (s.onLevel level).queueEvents := by
  simp [Session.apply, applyWith, load, cutOff, hrun]

theorem tell_queueEvents (s : Session) (cursor : Cursor) :
    Tell (.cursor cursor :: s.queueEvents) [] where
  level level := by simp [queueEvents, queueEvent, Subroutine.all]
  complete := by simp [queueEvents, queueEvent, Subroutine.all]
  outcomes := rfl

end Session

end TileWalk
