import TileWalk.Proofs.Session.Stock

/-!
What a load and a reset leave of the past. After a load a session is determined by the level and
the pacing, and after a reset it is what a load of its level would have made of it, but for what it
tells of the last run (`load_forgets_and_reset_renews`). That is told and never looked at: sessions
that differ in nothing else report the same for ever (`heedless_applyAll`).
-/

namespace TileWalk.Session

variable {s : Session}

/-- The session without what it tells of the last run. -/
def untold (s : Session) : Session := { s with lastOutcome := none }

/-- What `f` does to a session does not depend on what the session tells of the last run. -/
def Heedless (f : Session → Step Session) : Prop :=
  ∀ s, (f s.untold).map untold = (f s).map untold

/-- A session that has just begun on a level. -/
def begun (pacing : Pacing) (level : Level) : Session := (ofPacing pacing).onLevel level

/-! ### Nothing looks at the last run -/

/-- A step, whatever its kind, and then the same from either session. -/
theorem map_untold_next {σ : Type} {step : Step σ} {f g : σ → Step Session}
    (h : ∀ t, (f t).map untold = (g t).map untold) :
    (step.next f).map untold = (step.next g).map untold := by
  show (step.next fun t => (f t).map untold) = step.next fun t => (g t).map untold
  simp only [h]

theorem Heedless.next {f g : Session → Step Session} (hf : Heedless f) (hg : Heedless g) :
    Heedless fun s => (f s).next g := by
  intro s
  -- what `g` sees of where `f` leads is the same, so that `g` may start from the untold session
  calc ((f s.untold).next g).map untold
      = ((f s.untold).next fun t => g t.untold).map untold :=
        map_untold_next fun t => (hg t).symm
    _ = (((f s.untold).map untold).next g).map untold := rfl
    _ = (((f s).map untold).next g).map untold := by rw [hf]
    _ = ((f s).next fun t => g t.untold).map untold := rfl
    _ = ((f s).next g).map untold := map_untold_next hg

/-- Sessions that differ only in what they tell of the last run report the same. -/
theorem Heedless.report_eq {f : Session → Step Session} (hf : Heedless f) {s t : Session}
    (h : s.untold = t.untold) : (f s).report = (f t).report := by
  have hmap : (f s).map untold = (f t).map untold := by rw [← hf s, h, hf t]
  have hreport := congrArg Step.report hmap
  rwa [Step.report_map, Step.report_map] at hreport

theorem heedless_cutOff : Heedless cutOff := by
  rintro ⟨level, cursor, queues, cancelled, pacing, run, lastOutcome⟩
  cases run <;> rfl

theorem heedless_arrive (stage : Stage) (elapsed : Duration) :
    Heedless fun s => s.arrive stage elapsed := by
  intro s
  obtain ⟨cursor, executed, pause⟩ := stage
  cases pause <;> rfl

theorem heedless_launch : Heedless launch := by
  have hstarted : Heedless fun s => ⟨s, ⟨[.started], .starting :: s.firstStage.2⟩⟩ := fun _ => rfl
  have harrive : Heedless fun s => s.arrive s.firstStage.1 .zero := fun s =>
    heedless_arrive s.firstStage.1 .zero s
  exact hstarted.next harrive

theorem heedless_tick (elapsed : Duration) : Heedless fun s => s.tick .replace elapsed := by
  intro s
  have hrun : s.untold.run = s.run := rfl
  have hcancelled : s.untold.cancelled = s.cancelled := rfl
  have hpacing : s.untold.pacing = s.pacing := rfl
  simp only [tick, elapse, hrun, hcancelled, hpacing]
  cases s.run with
  | none => rfl
  | some run =>
    dsimp only
    split
    · rfl
    · exact map_untold_next fun stage => heedless_arrive stage _ s

theorem heedless_add (command : Command) (placement : Placement) :
    Heedless fun s => s.add command placement := by
  intro s
  have hrefusal : s.untold.refusal? command = s.refusal? command := rfl
  have hplace : s.untold.queues.place placement = s.queues.place placement := rfl
  simp only [add, hrefusal, hplace]
  cases s.refusal? command with
  | some reason => rfl
  | none => cases s.queues.place placement <;> rfl

theorem heedless_apply (action : Action) : Heedless fun s => s.apply action := by
  intro s
  cases action with
  | load level => exact heedless_cutOff.next (fun _ => rfl) s
  | add command placement => exact heedless_add command placement s
  | submit operation condition placement =>
    simp only [Session.apply, applyWith, submit]
    split
    · exact heedless_add _ placement s
    · rfl
  | takeBack =>
    have hrun : s.untold.run = s.run := rfl
    have hused : s.untold.queues.lastUsed? = s.queues.lastUsed? := rfl
    simp only [Session.apply, applyWith, takeBack, hrun, hused]
    split
    · rfl
    · split <;> rfl
  | reset => exact heedless_cutOff.next (fun _ => rfl) s
  | start =>
    have hlevel : s.untold.level = s.level := rfl
    simp only [Session.apply, applyWith, start, hlevel]
    split
    · rfl
    · exact heedless_cutOff.next heedless_launch s
  | abort => exact heedless_cutOff { s with cancelled := true }
  | pace interval =>
    simp only [Session.apply, applyWith, pace]
    split <;> rfl
  | tick elapsed => exact heedless_tick elapsed s

theorem heedless_applyAll (actions : List Action) : Heedless fun s => s.applyAll actions := by
  induction actions with
  | nil => exact fun _ => rfl
  | cons action actions ih => exact (heedless_apply action).next ih

/-! ### Where a load and a reset lead -/

theorem state_load (s : Session) (level : Level) :
    (s.apply (.load level)).state = begun s.pacing level := by
  show s.cutOff.state.onLevel level = _
  rw [state_cutOff]
  rfl

theorem Reachable.state_reset (hs : s.Reachable) {level : Level} (hlevel : s.level = some level) :
    (s.apply .reset).state =
      { begun s.pacing level with lastOutcome := (s.apply .reset).state.lastOutcome } := by
  have hcapacities : s.queues.capacities = level.capacities := by
    rw [hs.suit.capacities, hlevel]
    rfl
  show s.cutOff.state.cleared =
    { begun s.pacing level with lastOutcome := s.cutOff.state.lastOutcome }
  rw [state_cutOff]
  simp only [cleared, Queues.emptied, hlevel, hcapacities]
  rfl

/-- A load makes sessions of the same pacing equal, whatever they were before. A reset of a session
on a level leads where a load of that level leads, but for what is told of the last run, and
whatever actions follow, the reports from there on are the same. Neither touches the pacing. -/
theorem load_forgets_and_reset_renews (hs : s.Reachable) :
    (∀ t : Session, t.pacing = s.pacing → ∀ level,
        (t.apply (.load level)).state = (s.apply (.load level)).state) ∧
      (∀ level, s.level = some level →
        let renewed := (s.apply .reset).state
        let loaded := (s.apply (.load level)).state
        renewed = { loaded with lastOutcome := renewed.lastOutcome } ∧
          ∀ actions, (renewed.applyAll actions).report = (loaded.applyAll actions).report) ∧
      (s.apply .reset).state.pacing = s.pacing ∧
      ∀ level, (s.apply (.load level)).state.pacing = s.pacing := by
  refine ⟨fun t hpacing level => ?_, fun level hlevel => ?_, ?_, fun level => ?_⟩
  · rw [state_load, state_load, hpacing]
  · dsimp only
    have hreset := hs.state_reset hlevel
    rw [state_load]
    refine ⟨hreset, fun actions => (heedless_applyAll actions).report_eq ?_⟩
    rw [hreset]
    rfl
  · show s.cutOff.state.pacing = s.pacing
    rw [state_cutOff]
  · rw [state_load]
    rfl

/-- A reset in the middle of a call and a load of the same level: the one tells of a cancelled run,
the other of none, and a new program runs alike in both. -/
theorem caller_forgets_and_renews :
    let program : List Action :=
      [.add ⟨.move .forward, none⟩ (.slot .f1), .start, .tick (.ofMillis 300)]
    (∀ level, (spinner.apply (.load level)).state = (caller.apply (.load level)).state) ∧
      ∃ level, caller.level = some level ∧
        (caller.apply .reset).state.lastOutcome = some .cancelled ∧
        (caller.apply (.load level)).state.lastOutcome = none ∧
        ((caller.apply .reset).state.applyAll program).report =
          ((caller.apply (.load level)).state.applyAll program).report ∧
        ((caller.apply .reset).state.applyAll program).report.events =
          [.queue .f1 [⟨.move .forward, none⟩], .started, .cursor ⟨1, 0, .right⟩,
            .ended .exhausted 1] := by
  have hcaller : caller.Reachable := (Reachable.ofPacing _).applyAll _
  obtain ⟨hload, hreset, -, -⟩ := load_forgets_and_reset_renews hcaller
  refine ⟨hload spinner (by decide), _, rfl, by decide, by decide, ?_, by decide⟩
  exact (hreset _ rfl).2 _

end TileWalk.Session
