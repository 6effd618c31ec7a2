import TileWalk.Proofs.Run.TailCall
import TileWalk.Proofs.Session.Sight

/-!
Sessions whose engine keeps every caller and sessions whose engine does not. Nothing that can be
seen tells the two apart, whatever is done to them (`sights_applyWith_nest`).
-/

namespace TileWalk.Session

/-- Sessions that differ at most in callers that the run of the first leaves out. -/
inductive Trimmed : Session → Session → Prop
  | idle (s : Session) (hrun : s.run = none) : Trimmed s s
  | running (s : Session) {run : Run} {stack : List Activation} (hrun : s.run = some run)
      (hstack : Run.Trimmed s.queues.commands run.stack stack) :
      Trimmed s { s with run := some { run with stack } }

theorem Trimmed.refl (s : Session) : Trimmed s s := by
  cases hrun : s.run with
  | none => exact .idle s hrun
  | some run =>
    have hs : { s with run := some { run with stack := run.stack } } = s := by
      cases s
      simp_all
    have h := Trimmed.running s hrun (.refl run.stack)
    rwa [hs] at h

theorem Trimmed.cutOff {s t : Session} (h : Trimmed s t) : s.cutOff = t.cutOff := by
  cases h with
  | idle => rfl
  | running hrun =>
    simp only [Session.cutOff, hrun]
    rfl

theorem Trimmed.view {s t : Session} (h : Trimmed s t) : s.view = t.view := by
  cases h with
  | idle => rfl
  | running hrun =>
    simp only [Session.view, Session.running, Session.timeLeft, hrun]
    rfl

/-- A session with the stack of its run left out. -/
def unstacked (s : Session) : Session :=
  { s with run := s.run.map fun run => { run with stack := [] } }

theorem Trimmed.unstacked {s t : Session} (h : Trimmed s t) : s.unstacked = t.unstacked := by
  cases h with
  | idle => rfl
  | running hrun =>
    simp only [Session.unstacked, hrun]
    rfl

theorem arrive_alike (s : Session) {run : Option Run} {lean full : Stage}
    (h : Stage.Alike (Run.TrimmedPause s.queues.commands) lean full) (elapsed : Duration) :
    Step.Alike Trimmed (s.arrive lean elapsed) ({ s with run }.arrive full elapsed) := by
  obtain ⟨cursor, executed, hpause⟩ := h
  cases hpause with
  | finished outcome => exact .of_eq Trimmed.refl rfl
  | @waiting stack stack' command h =>
    exact .stay (Trimmed.running { s with cursor, run := some ⟨stack, command, elapsed, executed⟩ }
      rfl h)

theorem elapse_alike {s : Session} {run : Run} {stack : List Activation}
    (hstack : Run.Trimmed s.queues.commands run.stack stack) (elapsed : Duration) :
    Step.Alike Trimmed (s.elapse .replace run elapsed)
      ({ s with run := some { run with stack } }.elapse .nest { run with stack } elapsed) := by
  simp only [elapse]
  split
  · exact .of_eq Trimmed.refl rfl
  · have hpause := Run.TrimmedPause.waiting run.command hstack
    have htrimmed := Run.bisimulation_trimmedPause s.queues.commands
    exact (htrimmed.executeDue _ (.intro s.cursor run.executed hpause)).next
      fun lean full h => s.arrive_alike h _

theorem add_of_running {s : Session} {run : Run} (hrun : s.run = some run) (command : Command)
    (placement : Placement) :
    s.add command placement = s.refuse (if s.level.isNone then .noLevel else .running) := by
  cases hlevel : s.level with
  | none => simp [add, refusal?, hlevel]
  | some level => simp [add, refusal?, hlevel, hrun]

theorem Trimmed.refuse {s t : Session} (h : Trimmed s t) (reason : Refusal) :
    Step.Alike Trimmed (s.refuse reason) (t.refuse reason) :=
  ⟨h, .refl _⟩

theorem Trimmed.add {s : Session} {run : Run} {stack : List Activation} (hrun : s.run = some run)
    (h : Trimmed s { s with run := some { run with stack } }) (command : Command)
    (placement : Placement) :
    Step.Alike Trimmed (s.add command placement)
      ({ s with run := some { run with stack } }.add command placement) := by
  rw [add_of_running hrun, add_of_running rfl]
  exact h.refuse _

/-- An engine that keeps every caller does the same, action by action. -/
theorem Trimmed.apply {s t : Session} (h : Trimmed s t) (action : Action) :
    Step.Alike Trimmed (s.apply action) (t.applyWith .nest action) := by
  have hcut := h.cutOff
  cases h with
  | idle hrun =>
    refine .of_eq Trimmed.refl ?_
    cases action with
    | tick elapsed => simp only [Session.apply, applyWith, tick, hrun]
    | _ => rfl
  | @running run stack hrun hstack =>
    have h := Trimmed.running s hrun hstack
    cases action with
    | load level => exact .of_eq Trimmed.refl (by simp only [Session.apply, applyWith, load, hcut])
    | add command placement => exact Trimmed.add hrun h command placement
    | submit operation condition placement =>
      simp only [Session.apply, applyWith, submit]
      split
      · exact Trimmed.add hrun h _ placement
      · exact h.refuse _
    | takeBack =>
      simp only [Session.apply, applyWith, takeBack, hrun]
      exact h.refuse _
    | reset => exact .of_eq Trimmed.refl (by simp only [Session.apply, applyWith, reset, hcut])
    | start =>
      simp only [Session.apply, applyWith, start]
      split
      · exact h.refuse _
      · exact .of_eq Trimmed.refl (by rw [hcut])
    | abort =>
      have habort := Trimmed.running { s with cancelled := true } hrun hstack
      exact .of_eq Trimmed.refl habort.cutOff
    | pace interval =>
      simp only [Session.apply, applyWith, pace]
      split
      · next pacing _ => exact ⟨.running { s with pacing } hrun hstack, .refl _⟩
      · exact h.refuse _
    | tick elapsed =>
      simp only [Session.apply, applyWith, tick, hrun]
      exact elapse_alike hstack elapsed

/-- Keeping the callers that a call in tail position replaces changes nothing that can be seen, only
the stack and the traces in the log. -/
theorem sights_applyWith_nest (s : Session) (actions : List Action) :
    s.sights (applyWith .nest) actions = s.sights apply actions ∧
      (s.after (applyWith .nest) actions).unstacked = (s.after apply actions).unstacked := by
  have hact : ∀ s t, ∀ action ∈ actions, Trimmed s t →
      Step.Alike Trimmed (s.apply action) (t.applyWith .nest action) :=
    fun s t action _ h => h.apply action
  exact ⟨(sights_eq_of_simulation (.refl s) (fun _ _ => Trimmed.view) hact).symm,
    (after_of_simulation (.refl s) hact).unstacked.symm⟩

end TileWalk.Session
