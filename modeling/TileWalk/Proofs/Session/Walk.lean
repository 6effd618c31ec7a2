import TileWalk.Proofs.Session.Trail

/-!
Where a run walks. From one reported pose to the next the cursor makes one motion; it goes on only
from tiles that are not void and never from the goal, for there the run is won (`walks_firstRun`).
-/

namespace TileWalk

/-- The events of a run report a walk from `start`: it makes one motion at a time, goes on only from
where the rules allow, and wins where it comes to the goal. -/
structure Walks (tileUnder : Cursor → Tile) (start : Cursor) (events : List Event) : Prop where
  steps : ∃ motions, start :: posesOf events = start.walk motions
  onPath : ∀ pose ∈ (start :: posesOf events).dropLast, tileUnder pose ≠ .void
  offGoal : ∀ pose ∈ (posesOf events).dropLast, tileUnder pose ≠ .goal
  wins : ∀ pose, (posesOf events).getLast? = some pose → tileUnder pose = .goal →
    ∃ before executed, events = before ++ [.cursor pose, .victory, .ended .won executed]

namespace Walks

variable {tileUnder : Cursor → Tile} {start : Cursor} {events : List Event}

/-- Without a motion there is nothing to show. -/
theorem of_posesOf_eq_nil (h : posesOf events = []) : Walks tileUnder start events := by
  refine ⟨⟨[], by rw [h]; rfl⟩, ?_, ?_, ?_⟩
  all_goals
    rw [h]
    intro pose hpose
    contradiction

/-- An event that tells of no pose may come first. -/
theorem cons (h : Walks tileUnder start events) {event : Event} (hevent : event.pose? = none) :
    Walks tileUnder start (event :: events) := by
  have hposes : posesOf (event :: events) = posesOf events := List.filterMap_cons_none hevent
  refine ⟨?_, ?_, ?_, fun pose hlast hgoal => ?_⟩
  · rw [hposes]
    exact h.steps
  · rw [hposes]
    exact h.onPath
  · rw [hposes]
    exact h.offGoal
  · rw [hposes] at hlast
    obtain ⟨before, executed, hevents⟩ := h.wins pose hlast hgoal
    exact ⟨event :: before, executed, by rw [hevents, List.cons_append]⟩

/-- A motion from a tile that is not void may come first, if the run is won where it leads to the
goal. -/
theorem move {motion : Motion} (h : Walks tileUnder (start.step motion) events)
    (hpath : tileUnder start ≠ .void)
    (hwins : tileUnder (start.step motion) = .goal →
      ∃ executed, events = [.victory, .ended .won executed]) :
    Walks tileUnder start (.cursor (start.step motion) :: events) := by
  have hposes : posesOf (.cursor (start.step motion) :: events) =
      start.step motion :: posesOf events := rfl
  obtain ⟨motions, hsteps⟩ := h.steps
  refine ⟨⟨motion :: motions, ?_⟩, ?_, ?_, fun pose hlast hgoal => ?_⟩
  · rw [hposes, hsteps]
    rfl
  · rw [hposes, List.dropLast_cons_cons]
    intro pose hpose
    rcases List.mem_cons.mp hpose with rfl | hpose
    · exact hpath
    · exact h.onPath pose hpose
  · -- a pose after the first excludes that the first is on the goal
    intro pose hpose
    cases hrest : posesOf events with
    | nil =>
      rw [hposes, hrest] at hpose
      contradiction
    | cons next rest =>
      rw [hposes, hrest, List.dropLast_cons_cons, ← hrest] at hpose
      rcases List.mem_cons.mp hpose with rfl | hpose
      · intro hgoal
        obtain ⟨executed, rfl⟩ := hwins hgoal
        contradiction
      · exact h.offGoal pose hpose
  · cases hrest : posesOf events with
    | nil =>
      rw [hposes, hrest] at hlast
      obtain rfl : start.step motion = pose := by simpa using hlast
      obtain ⟨executed, rfl⟩ := hwins hgoal
      exact ⟨[], executed, rfl⟩
    | cons next rest =>
      rw [hposes, hrest, List.getLast?_cons_cons, ← hrest] at hlast
      obtain ⟨before, executed, hevents⟩ := h.wins pose hlast hgoal
      exact ⟨.cursor (start.step motion) :: before, executed, by rw [hevents, List.cons_append]⟩

end Walks

namespace Trail

variable {queues : Slots (List Command)} {tileUnder : Cursor → Tile} {stage : Stage}
variable {events : List Event}

theorem posesOf_endingEvents (outcome : Outcome) (executed : UInt32) :
    posesOf (Session.endingEvents outcome executed) = [] := by
  cases outcome <;> rfl

/-- All that may be reported of a run that is over is its end. -/
theorem eq_of_finished {outcome : Outcome} (h : Trail queues tileUnder stage events)
    (hpause : stage.pause = .finished outcome) :
    events = Session.endingEvents outcome stage.executed := by
  cases h with
  | ended hended =>
    rw [hpause] at hended
    rw [Pause.finished.inj hended]
  | pending hwaiting => simp [hpause] at hwaiting
  | refused hwaiting => simp [hpause] at hwaiting
  | executed hwaiting => simp [hpause] at hwaiting
  | cutOff hwaiting => simp [hpause] at hwaiting

/-- The trail of a run from a sound stage on is a walk. -/
theorem walks (h : Trail queues tileUnder stage events)
    (hsound : stage.Sound queues tileUnder) : Walks tileUnder stage.cursor events := by
  induction h with
  | pending => exact .of_posesOf_eq_nil rfl
  | refused hpause reason h ih => exact (ih hsound).cons rfl
  | @executed stage stack command events executed hpause hexecuted h ih =>
    have hwaits := hsound.waits hpause
    have hrest := ih (hexecuted ▸ hsound.execute hpause)
    cases hop : command.operation with
    | move motion =>
      simp only [Run.execute, hop] at hexecuted
      subst hexecuted
      refine hrest.move hwaits.onPath fun hgoal => ⟨increment stage.executed, ?_⟩
      rw [if_pos hgoal] at h
      exact h.eq_of_finished rfl
    | call s =>
      simp only [Run.execute, hop] at hexecuted
      subst hexecuted
      exact hrest
    | unknown => exact absurd hop hwaits.known
  | cutOff => exact .of_posesOf_eq_nil rfl
  | ended => exact .of_posesOf_eq_nil (posesOf_endingEvents _ _)

end Trail

namespace Session

/-- The run that starts in a session with a level walks from the cursor as the rules allow. -/
theorem walks_firstRun {s : Session} {level : Level} (hlevel : s.level = some level)
    (later : List Action) :
    Walks (fun pose => level.tile pose.x pose.y) s.cursor
      (firstRun (s.applyAll (.start :: later)).report.events) := by
  have htile : s.tileUnder = fun pose => level.tile pose.x pose.y := by
    funext pose
    rw [tileUnder, tile, hlevel]
  have htrail := trail_firstRun (s := s) (by rw [hlevel]; rfl) later
  rw [← htile, ← s.cursor_firstStage]
  rcases s.firstStage_cases with ⟨-, hover⟩ | ⟨-, hsound⟩
  · rw [htrail.eq_of_finished hover]
    exact .of_posesOf_eq_nil (Trail.posesOf_endingEvents _ _)
  · exact htrail.walks hsound

/-- A session whose program leads around a corner of void to the goal. -/
def corner : Session :=
  (fresh.applyAll
    [.load ⟨[[.path .grey, .path .grey], [.void, .goal]], ⟨0, 0, .right⟩, .const 3, .const true,
        "around the corner"⟩,
      .add ⟨.move .forward, none⟩ (.slot .f1),
      .add ⟨.move (.turn .right), none⟩ (.slot .f1),
      .add ⟨.move .forward, none⟩ (.slot .f1)]).state

theorem walks_corner :
    ∃ level, corner.level = some level ∧
      firstRun (corner.applyAll [.start, .tick (.ofMillis 300), .takeBack,
          .tick (.ofMillis 900)]).report.events =
        [.cursor ⟨1, 0, .right⟩, .refused .running, .cursor ⟨1, 0, .down⟩, .cursor ⟨1, 1, .down⟩,
          .victory, .ended .won 3] ∧
      Walks (fun pose => level.tile pose.x pose.y) ⟨0, 0, .right⟩
        [.cursor ⟨1, 0, .right⟩, .refused .running, .cursor ⟨1, 0, .down⟩, .cursor ⟨1, 1, .down⟩,
          .victory, .ended .won 3] := by
  have hlevel : corner.level = some ⟨[[.path .grey, .path .grey], [.void, .goal]],
      ⟨0, 0, .right⟩, .const 3, .const true, "around the corner"⟩ := by decide
  have hrun : firstRun (corner.applyAll [.start, .tick (.ofMillis 300), .takeBack,
      .tick (.ofMillis 900)]).report.events =
        [.cursor ⟨1, 0, .right⟩, .refused .running, .cursor ⟨1, 0, .down⟩, .cursor ⟨1, 1, .down⟩,
          .victory, .ended .won 3] := by decide
  have hwalks := walks_firstRun hlevel [.tick (.ofMillis 300), .takeBack, .tick (.ofMillis 900)]
  rw [hrun] at hwalks
  exact ⟨_, hlevel, hrun, hwalks⟩

end Session

end TileWalk
