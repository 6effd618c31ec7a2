import TileWalk.Proofs.Run.Pruning
import TileWalk.Proofs.Session.Simulation

/-!
Sessions with and without dead commands. Taking commands without a known operation out of the queues
and grey conditions off the others changes nothing that a run reports or shows
(`sameRun_of_prune`). What is told of the run before is another matter: it is kept until a run ends.
-/

namespace TileWalk.Session

/-- Where the queues of an idle session are those of another one, pruned, and all else that matters
to a run is equal, nothing that controls a run tells the two apart: they report the same events and
show the same of the run. How the last run ended is the same as well if it was the same to begin
with, and in any case once a run has ended. -/
theorem sameRun_of_prune {s t : Session} (hs : s.run = none) (ht : t.run = none)
    (hlevel : s.level = t.level) (hcursor : s.cursor = t.cursor)
    (hflag : s.cancelled = t.cancelled) (hpacing : s.pacing = t.pacing)
    (hqueues : ∀ sub, t.queue sub = Command.prune (s.queue sub)) {actions : List Action}
    (hactions : ∀ action ∈ actions, action.ControlsRun) :
    SameRun (s.applyAll actions) (t.applyAll actions) ∧
      ((s.lastOutcome = t.lastOutcome ∨
          ∃ outcome executed, .ended outcome executed ∈ (s.applyAll actions).report.events) →
        (s.applyAll actions).state.lastOutcome = (t.applyAll actions).state.lastOutcome) := by
  have hpruned : t.queues.commands = s.queues.commands.map Command.prune := by
    refine Slots.ext_get fun sub => ?_
    rw [Slots.get_map]
    exact hqueues sub
  have hR := Run.simulates_pruned s.queues.commands
  rw [← hpruned] at hR
  exact sameRun_of_simulates hs ht hlevel hcursor hflag hpacing hR Run.prunedStacks_initial hactions

/-- A corridor that turns no corner. -/
def corridor : Level :=
  ⟨[[.path .grey, .path .red, .goal]], ⟨0, 0, .right⟩, .const 4, .const true, "a corridor"⟩

/-- A program with a dead command in every place, and a call that is no tail call for that reason. -/
def cluttered : Session :=
  (fresh.applyAll
    [.load corridor,
      .add ⟨.unknown, none⟩ (.slot .f1),
      .add ⟨.move .forward, some .grey⟩ (.slot .f1),
      .add ⟨.call .f2, some .red⟩ (.slot .f1),
      .add ⟨.unknown, some .red⟩ (.slot .f1),
      .add ⟨.unknown, none⟩ (.slot .f2),
      .add ⟨.call .f1, some .grey⟩ (.slot .f2)]).state

/-- The same program without what is dead. -/
def tidy : Session :=
  (fresh.applyAll
    [.load corridor,
      .add ⟨.move .forward, none⟩ (.slot .f1),
      .add ⟨.call .f2, some .red⟩ (.slot .f1),
      .add ⟨.call .f1, none⟩ (.slot .f2)]).state

theorem sameRun_cluttered_tidy :
    (∀ sub, tidy.queue sub = Command.prune (cluttered.queue sub)) ∧
      SameRun (cluttered.applyAll [.start, .tick (.ofMillis 1200)])
        (tidy.applyAll [.start, .tick (.ofMillis 1200)]) ∧
      (cluttered.applyAll [.start, .tick (.ofMillis 1200)]).report.events =
        [.started, .cursor ⟨1, 0, .right⟩, .cursor ⟨2, 0, .right⟩, .victory, .ended .won 4] ∧
      (tidy.applyAll [.start, .tick (.ofMillis 1200)]).state.lastOutcome = some .won := by
  have hqueues : ∀ sub, tidy.queue sub = Command.prune (cluttered.queue sub) := by
    intro sub
    cases sub <;> decide
  have hactions : ∀ action ∈ [Action.start, .tick (.ofMillis 1200)], action.ControlsRun := by
    simp [Action.ControlsRun]
  obtain ⟨hsame, houtcome⟩ := sameRun_of_prune (s := cluttered) (t := tidy) (by decide) (by decide)
    (by decide) (by decide) (by decide) (by decide) hqueues hactions
  exact ⟨hqueues, hsame, by decide, (houtcome (.inl (by decide))).symm.trans (by decide)⟩

/-- What is told of an earlier run differs until a run ends. -/
theorem lastOutcome_ne_of_earlier_run :
    let s := (fresh.applyAll [.load corridor, .add ⟨.unknown, none⟩ .firstOpen]).state
    let t := (fresh.applyAll [.load corridor, .start]).state
    (s.run = none ∧ t.run = none ∧ s.level = t.level ∧ s.cursor = t.cursor ∧
        s.cancelled = t.cancelled ∧ s.pacing = t.pacing ∧
        ∀ sub, t.queue sub = Command.prune (s.queue sub)) ∧
      Action.ControlsRun (.pace (.ofMillis 100)) ∧
      (s.apply (.pace (.ofMillis 100))).state.lastOutcome ≠
        (t.apply (.pace (.ofMillis 100))).state.lastOutcome := by
  refine ⟨⟨by decide, by decide, by decide, by decide, by decide, by decide, fun sub => ?_⟩,
    trivial, by decide⟩
  cases sub <;> decide

end TileWalk.Session
