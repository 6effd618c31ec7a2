import TileWalk.Proofs.Run.Simulation
import TileWalk.Proofs.Session.Mirror

/-!
Sessions with different programs side by side. Where a relation between stacks simulates, nothing
that controls a run tells the sessions apart (`alike_of_simulates`): they report the same events and
show the same of the run, and the same outcome as soon as a run has ended.
-/

namespace TileWalk

/-- An action that controls a run and leaves the program and the level alone. -/
def Action.ControlsRun : Action → Prop
  | .start | .tick _ | .pace _ | .abort => True
  | _ => False

/-- Runs of two programs in flight, waiting equally long for commands that do the same. -/
structure Run.ParallelRun (p q : Slots (List Command)) (R : Run.StackRelation) (a b : Run) :
    Prop where
  elapsed : a.elapsed = b.elapsed
  executed : a.executed = b.executed
  pause : Run.Parallel p q R (.waiting a.stack a.command) (.waiting b.stack b.command)

namespace Session

variable {R : Run.StackRelation} {p q : Slots (List Command)} {s t : Session}

/-- Sessions with the programs `p` and `q` that differ in nothing else that matters to a run. -/
structure Parallel (p q : Slots (List Command)) (R : Run.StackRelation) (s t : Session) :
    Prop where
  level : s.level = t.level
  cursor : s.cursor = t.cursor
  cancelled : s.cancelled = t.cancelled
  pacing : s.pacing = t.pacing
  program : s.queues.commands = p ∧ t.queues.commands = q
  run : Option.Rel (Run.ParallelRun p q R) s.run t.run

namespace Parallel

theorem tileUnder (h : Parallel p q R s t) : s.tileUnder = t.tileUnder := by
  funext cursor
  rw [Session.tileUnder, Session.tileUnder, tile, tile, h.level]

/-- Either no run is in flight or two runs are. -/
theorem run_cases (h : Parallel p q R s t) :
    (s.run = none ∧ t.run = none) ∨
      ∃ a b, s.run = some a ∧ t.run = some b ∧ Run.ParallelRun p q R a b := by
  have hrun := h.run
  generalize s.run = a at hrun ⊢
  generalize t.run = b at hrun ⊢
  cases hrun with
  | none => exact .inl ⟨rfl, rfl⟩
  | some hab => exact .inr ⟨_, _, rfl, rfl, hab⟩

theorem running (h : Parallel p q R s t) : s.running = t.running := by
  rw [Session.running, Session.running]
  rcases h.run_cases with ⟨hs, ht⟩ | ⟨a, b, hs, ht, -⟩
  · rw [hs, ht]
  · rw [hs, ht, Option.isSome_some, Option.isSome_some]

theorem timeLeft (h : Parallel p q R s t) : s.timeLeft = t.timeLeft := by
  rw [Session.timeLeft, Session.timeLeft, h.pacing]
  rcases h.run_cases with ⟨hs, ht⟩ | ⟨a, b, hs, ht, hab⟩
  · rw [hs, ht]
  · rw [hs, ht, Option.map_some, Option.map_some, hab.elapsed]

theorem refuse (h : Parallel p q R s t) (reason : Refusal) :
    Step.Alike (Parallel p q R) (s.refuse reason) (t.refuse reason) :=
  ⟨h, .refl _⟩

theorem endRun (h : Parallel p q R s t) (outcome : Outcome) (executed : UInt32) :
    Step.Alike (Parallel p q R) (s.endRun outcome executed) (t.endRun outcome executed) where
  state := ⟨h.level, h.cursor, congrArg (· || outcome.raisesFlag) h.cancelled, h.pacing, h.program,
    .none⟩
  report := .refl _

theorem cutOff (h : Parallel p q R s t) : Step.Alike (Parallel p q R) s.cutOff t.cutOff := by
  rw [Session.cutOff, Session.cutOff]
  rcases h.run_cases with ⟨hs, ht⟩ | ⟨a, b, hs, ht, hab⟩
  · rw [hs, ht]
    exact .stay h
  · rw [hs, ht]
    dsimp only
    rw [hab.executed]
    exact h.endRun _ _

/-- Runs arrive side by side at parallel stages. -/
theorem arrive (h : Parallel p q R s t) {a b : Stage}
    (hstage : Stage.Alike (Run.Parallel p q R) a b) (elapsed : Duration) :
    Step.Alike (Parallel p q R) (s.arrive a elapsed) (t.arrive b elapsed) := by
  obtain ⟨cursor, executed, hpause⟩ := hstage
  cases hpause with
  | finished outcome =>
    have hmoved : Parallel p q R { s with cursor } { t with cursor } := { h with cursor := rfl }
    exact hmoved.endRun outcome executed
  | @waiting a b c d hop hstack hcall =>
    have hmoved : Parallel p q R { s with cursor, run := some ⟨a, c, elapsed, executed⟩ }
        { t with cursor, run := some ⟨b, d, elapsed, executed⟩ } :=
      { h with cursor := rfl, run := .some ⟨rfl, rfl, .waiting hop hstack hcall⟩ }
    exact .stay hmoved

theorem launch (hR : Run.Simulates p q R) (hinit : R Run.initialStack Run.initialStack)
    (h : Parallel p q R s t) : Step.Alike (Parallel p q R) s.launch t.launch := by
  have hnotes : ∀ {u : Session}, ∀ note ∈ u.firstStage.2, note.IsAside := by
    intro u note hnote
    unfold firstStage at hnote
    split at hnote
    · contradiction
    · exact Run.isAside_of_mem_seek hnote
  have hstage : Stage.Alike (Run.Parallel p q R) s.firstStage.1 t.firstStage.1 := by
    rw [firstStage, firstStage, h.cancelled, h.cursor, h.tileUnder, h.program.1, h.program.2]
    split
    · exact .intro _ _ (.finished .cancelled)
    · exact .intro _ _ (hR _ _ _ hinit)
  have hasides : Report.Alike ⟨[], s.firstStage.2⟩ ⟨[], t.firstStage.2⟩ := .of_asides hnotes hnotes
  have hstarted : Step.Alike (Parallel p q R) ⟨s, ⟨[.started], .starting :: s.firstStage.2⟩⟩
      ⟨t, ⟨[.started], .starting :: t.firstStage.2⟩⟩ :=
    ⟨h, Report.Alike.append (.refl ⟨[.started], [.starting]⟩) hasides⟩
  rw [launch_eq, launch_eq]
  exact hstarted.next fun _ _ _ => h.arrive hstage .zero

theorem tick (hR : Run.Simulates p q R) (h : Parallel p q R s t) (elapsed : Duration) :
    Step.Alike (Parallel p q R) (s.tick .replace elapsed) (t.tick .replace elapsed) := by
  rcases h.run_cases with ⟨hs, ht⟩ | ⟨a, b, hs, ht, hab⟩
  · rw [tick_of_idle hs, tick_of_idle ht]
    exact .stay h
  · rw [tick_of_running hs, tick_of_running ht, elapse, elapse, hab.elapsed, h.pacing,
      h.cancelled]
    split
    · rw [hab.executed]
      exact h.endRun _ _
    · rw [h.tileUnder, h.program.1, h.program.2, h.cursor, hab.executed]
      exact (hR.bisimulation.executeDue _ (.intro t.cursor b.executed hab.pause)).next
        fun x y hxy => h.arrive hxy _

/-- What controls a run keeps sessions side by side. -/
theorem apply (hR : Run.Simulates p q R) (hinit : R Run.initialStack Run.initialStack)
    (h : Parallel p q R s t) {action : Action} (haction : action.ControlsRun) :
    Step.Alike (Parallel p q R) (s.apply action) (t.apply action) := by
  cases action with
  | start =>
    simp only [Session.apply, applyWith, Session.start, h.level]
    split
    · exact h.refuse _
    · exact h.cutOff.next fun u v huv => huv.launch hR hinit
  | tick elapsed => exact h.tick hR elapsed
  | pace interval =>
    simp only [Session.apply, applyWith, pace]
    split
    · next pacing _ =>
      have hpaced : Parallel p q R { s with pacing } { t with pacing } :=
        { h with pacing := rfl }
      exact ⟨hpaced, .refl _⟩
    · exact h.refuse _
  | abort =>
    have hraised : Parallel p q R { s with cancelled := true } { t with cancelled := true } :=
      { h with cancelled := rfl }
    exact hraised.cutOff
  | _ => contradiction

theorem applyAll (hR : Run.Simulates p q R) (hinit : R Run.initialStack Run.initialStack)
    (h : Parallel p q R s t) {actions : List Action}
    (hactions : ∀ action ∈ actions, action.ControlsRun) :
    Step.Alike (Parallel p q R) (s.applyAll actions) (t.applyAll actions) := by
  induction actions generalizing s t with
  | nil => exact .stay h
  | cons action actions ih =>
    exact (h.apply hR hinit (hactions action List.mem_cons_self)).next fun u v huv =>
      ih huv fun a ha => hactions a (List.mem_cons_of_mem _ ha)

end Parallel

/-- Steps that report the same events and lead to sessions that show the same of the run. -/
structure SameRun (a b : Step Session) : Prop where
  events : a.report.events = b.report.events
  cursor : a.state.cursor = b.state.cursor
  running : a.state.running = b.state.running
  timeLeft : a.state.timeLeft = b.state.timeLeft
  cancelled : a.state.cancelled = b.state.cancelled

/-- Idle sessions whose programs run in simulation cannot be told apart by what controls a run. How
the last run ended is the same if it was the same to begin with, and once a run has ended. -/
theorem sameRun_of_simulates {s t : Session} (hs : s.run = none) (ht : t.run = none)
    (hlevel : s.level = t.level) (hcursor : s.cursor = t.cursor)
    (hflag : s.cancelled = t.cancelled) (hpacing : s.pacing = t.pacing)
    (hR : Run.Simulates s.queues.commands t.queues.commands R)
    (hinit : R Run.initialStack Run.initialStack) {actions : List Action}
    (hactions : ∀ action ∈ actions, action.ControlsRun) :
    SameRun (s.applyAll actions) (t.applyAll actions) ∧
      ((s.lastOutcome = t.lastOutcome ∨
          ∃ outcome executed, .ended outcome executed ∈ (s.applyAll actions).report.events) →
        (s.applyAll actions).state.lastOutcome = (t.applyAll actions).state.lastOutcome) := by
  have hidle : Option.Rel (Run.ParallelRun s.queues.commands t.queues.commands R) s.run t.run := by
    rw [hs, ht]
    exact .none
  have hparallel : Parallel s.queues.commands t.queues.commands R s t :=
    ⟨hlevel, hcursor, hflag, hpacing, ⟨rfl, rfl⟩, hidle⟩
  obtain ⟨hstate, hreport⟩ := hparallel.applyAll hR hinit hactions
  refine ⟨⟨hreport.events, hstate.cursor, hstate.running, hstate.timeLeft, hstate.cancelled⟩,
    fun h => ?_⟩
  have hmirror := @Mirror.lastOutcome_feed s.mirror t.mirror _ h
  have hfirst := congrArg Mirror.lastOutcome (s.feed_applyAll actions)
  have hsecond := congrArg Mirror.lastOutcome (t.feed_applyAll actions)
  rw [← hreport.events] at hsecond
  exact hfirst.symm.trans (hmirror.trans hsecond)

end Session

end TileWalk
