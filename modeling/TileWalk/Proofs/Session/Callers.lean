import TileWalk.Proofs.Run.Callers
import TileWalk.Proofs.Session.Origin

/-!
The callers on the stack of the run in flight, wherever actions lead. None of them is finished, so
there is at most one for each inner call that was executed since the start, and none at all in a
program with its calls in tail position (`no_finished_caller_is_kept`).
-/

namespace TileWalk.Session

/-- What `tell` says of the actions after the last start, put together. It follows `before` if there
is no start among the actions. -/
def sinceStart {α : Type} (tell : Session → Action → List α) (s : Session) (before : List α) :
    List Action → List α
  | [] => before
  | .start :: actions => (s.apply .start).state.sinceStart tell [] actions
  | action :: actions => (s.apply action).state.sinceStart tell (before ++ tell s action) actions

theorem sinceStart_cons {α : Type} {tell : Session → Action → List α} {action : Action}
    (h : action ≠ .start) (s : Session) (before : List α) (actions : List Action) :
    s.sinceStart tell before (action :: actions) =
      (s.apply action).state.sinceStart tell (before ++ tell s action) actions := by
  cases action with
  | start => contradiction
  | _ => rfl

/-- The operations that an action executes. -/
def executed (s : Session) (action : Action) : List Operation :=
  (s.apply action).report.operations

/-- The places of the commands that an action executes. -/
def places (s : Session) : Action → List Place
  | .tick elapsed =>
    match s.run with
    | some run =>
      if s.cancelled then []
      else
        Run.placesDue s.queues.commands s.tileUnder (s.pacing.due (run.elapsed + elapsed))
          (s.stage run)
    | none => []
  | _ => []

/-- The places and operations account for the callers of the run in flight, if there is one. -/
def Accounts (s : Session) (places : List Place) (operations : List Operation) : Prop :=
  ∀ run, s.run = some run →
    Run.Accounted s.queues.commands places operations run.stack.tail

variable {s : Session} {before : List Place} {done : List Operation}

theorem accounts_arrive {stage : Stage}
    (h : Run.Accounted s.queues.commands before done stage.pause.callers) (elapsed : Duration) :
    (s.arrive stage elapsed).state.Accounts before done := by
  intro run hrun
  obtain ⟨cursor, executed, pause⟩ := stage
  cases pause with
  | waiting stack command =>
    obtain rfl := Option.some.inj hrun
    exact h
  | finished outcome => simp [arrive, endRun] at hrun

theorem callers_firstStage (s : Session) : s.firstStage.1.pause.callers = [] := by
  unfold firstStage
  split
  · rfl
  · exact List.suffix_nil.mp (Run.callers_seek _ _ Run.initialStack)

/-- A run begins without callers. -/
theorem accounts_start (hs : s.Reachable) : (s.apply .start).state.Accounts [] [] := by
  simp only [Session.apply, applyWith, start]
  split
  · next hlevel =>
    intro run hrun
    rw [refuse, hs.idle_of_level_eq_none (Option.isNone_iff_eq_none.mp hlevel)] at hrun
    contradiction
  · rw [Step.state_next, launch_eq, Step.state_next]
    refine accounts_arrive ?_ _
    rw [callers_firstStage]
    exact .nil

theorem Accounts.tick (h : s.Accounts before done) (hs : s.Reachable) (elapsed : Duration) :
    (s.apply (.tick elapsed)).state.Accounts (before ++ s.places (.tick elapsed))
      (done ++ s.executed (.tick elapsed)) := by
  cases hrun : s.run with
  | none =>
    intro after hafter
    rw [show s.apply (.tick elapsed) = .stay s from tick_of_idle hrun _, Step.state_stay, hrun]
      at hafter
    contradiction
  | some run =>
    obtain ⟨-, hlowered, hsound⟩ := hs.inFlight hrun
    have htick : s.apply (.tick elapsed) = _ := tick_eq hrun hlowered elapsed
    have hplaces : s.places (.tick elapsed) =
        Run.placesDue s.queues.commands s.tileUnder (s.pacing.due (run.elapsed + elapsed))
          (s.stage run) := by
      simp only [places, hrun, hlowered]
      rfl
    rw [executed, htick, Step.state_next, Step.report_next, Report.operations_append,
      operations_arrive, List.append_nil, hplaces]
    have hstage : Run.Accounted s.queues.commands before done (s.stage run).pause.callers :=
      h run hrun
    exact accounts_arrive (hstage.executeDue hsound _) _

/-- An action that is neither a start nor a tick leaves the run in flight and the queues as they
are, or it leaves no run in flight. -/
theorem run_of_untimed {action : Action} (htick : ∀ elapsed, action ≠ .tick elapsed)
    (hstart : action ≠ .start) {run : Run} (h : (s.apply action).state.run = some run) :
    s.run = some run ∧ (s.apply action).state.queues = s.queues := by
  have heffect := s.apply_effect action
  generalize s.apply action = step at heffect h ⊢
  cases heffect with
  | refused => exact ⟨h, rfl⟩
  | edited action queues hidle =>
    rw [hidle] at h
    contradiction
  | paced => exact ⟨h, rfl⟩
  | ticked elapsed => exact absurd rfl (htick elapsed)
  | stopped hcuts hidle =>
    rw [Step.state_next, hidle] at h
    contradiction
  | started => exact absurd rfl hstart

theorem Accounts.untimed {action : Action} (h : s.Accounts before done)
    (htick : ∀ elapsed, action ≠ .tick elapsed) (hstart : action ≠ .start) :
    (s.apply action).state.Accounts (before ++ s.places action) (done ++ s.executed action) := by
  intro run hrun
  obtain ⟨hbefore, hqueues⟩ := run_of_untimed htick hstart hrun
  have hplaces : s.places action = [] := by
    cases action with
    | tick elapsed => exact absurd rfl (htick elapsed)
    | _ => rfl
  rw [hqueues, hplaces, executed, s.operations_of_ne_tick htick, List.append_nil, List.append_nil]
  exact h run hbefore

theorem Accounts.apply {action : Action} (h : s.Accounts before done) (hs : s.Reachable)
    (hstart : action ≠ .start) :
    (s.apply action).state.Accounts (before ++ s.places action) (done ++ s.executed action) := by
  by_cases htick : ∃ elapsed, action = .tick elapsed
  · obtain ⟨elapsed, rfl⟩ := htick
    exact h.tick hs elapsed
  · exact h.untimed (fun elapsed heq => htick ⟨elapsed, heq⟩) hstart

theorem Accounts.applyAll (h : s.Accounts before done) (hs : s.Reachable)
    (actions : List Action) :
    (s.applyAll actions).state.Accounts (s.sinceStart places before actions)
      (s.sinceStart executed done actions) := by
  induction actions generalizing s before done with
  | nil => exact h
  | cons action actions ih =>
    by_cases hstart : action = .start
    · subst hstart
      exact ih (accounts_start hs) (hs.apply .start)
    · rw [sinceStart_cons hstart, sinceStart_cons hstart]
      exact ih (h.apply hs hstart) (hs.apply action)

/-- No finished caller is kept on the stack of a run in flight. The innermost activation has passed
a command of its queue. Every other one has passed a call last, and others follow the call in its
queue. So besides the innermost there is at most one activation for each call executed since the
start that is not the last command of its queue, where the executed operations are counted by the
places at which they stand. If every call is the last command of its queue, then there is just one
activation, and none comes to stand below another however many commands the run goes on to
execute. -/
theorem no_finished_caller_is_kept {pacing : Pacing} {actions : List Action} {s : Session}
    (hs : ((ofPacing pacing).applyAll actions).state = s) {run : Run} (hrun : s.run = some run) :
    let executedPlaces := (ofPacing pacing).sinceStart places [] actions
    (∃ top callers, run.stack = top :: callers ∧
        1 ≤ top.next ∧ top.next ≤ (s.queue top.subroutine).length ∧
        ∀ caller ∈ callers, caller.Awaits s.queues.commands) ∧
      executedPlaces.map (Place.operation? s.queues.commands) =
        ((ofPacing pacing).sinceStart executed [] actions).map some ∧
      run.stack.length ≤ 1 + executedPlaces.countP (Place.isInnerCall s.queues.commands) ∧
      (CallsLast s.queues.commands → run.stack.length = 1 ∧
        ∀ due, (Run.executeDue .replace s.queues.commands s.tileUnder due
          (s.stage run)).state.pause.callers = []) := by
  subst hs
  have hreachable : ((ofPacing pacing).applyAll actions).state.Reachable :=
    (Reachable.ofPacing pacing).applyAll actions
  have hidle : (ofPacing pacing).Accounts [] [] := by
    intro run hrun
    contradiction
  have haccounted := hidle.applyAll (.ofPacing pacing) actions run hrun
  have hflight := hreachable.inFlight hrun
  obtain ⟨top, callers, hstack, hpos, hpassed⟩ := hflight.waits.passed
  obtain ⟨hlt, -⟩ := List.getElem?_eq_some_iff.mp hpassed
  have hlength : run.stack.length = 1 + run.stack.tail.length := by
    rw [hstack, List.length_cons, List.tail_cons, Nat.add_comm]
  refine ⟨⟨top, callers, hstack, hpos, Nat.le_of_pred_lt hlt, ?_⟩, haccounted.operations_eq, ?_,
    fun hlast => ⟨?_, fun due => ?_⟩⟩
  · rw [hstack] at haccounted
    exact haccounted.awaits
  · rw [hlength]
    exact Nat.add_le_add_left haccounted.length_le 1
  · rw [hlength, haccounted.eq_nil hlast, List.length_nil]
  · exact (Run.Accounted.executeDue haccounted hflight.sound due).eq_nil hlast

/-- Three subroutines that call each other in turn for ever, the first of which goes on with
`rest` when its call is over. They run for two commands, and then again for four. -/
def relay (rest : List Command) : List Action :=
  [.load ⟨[[.path .grey]], ⟨0, 0, .up⟩, .const 3, .const true, "a single tile"⟩,
    .add ⟨.call .f2, none⟩ (.slot .f1)] ++ rest.map (.add · (.slot .f1)) ++
  [.add ⟨.call .f3, none⟩ (.slot .f2), .add ⟨.call .f1, none⟩ (.slot .f3),
    .start, .tick (.ofMillis 700), .start, .tick (.ofMillis 1250)]

theorem relay_keeps_callers_that_go_on :
    let turning := relay [⟨.move (.turn .left), none⟩]
    let turned := ((ofPacing .standard).applyAll turning).state
    let plain := ((ofPacing .standard).applyAll (relay [])).state
    (∃ run, turned.run = some run ∧
        run.stack = [⟨.f2, 1, true⟩, ⟨.f1, 1, true⟩, ⟨.f1, 1, false⟩] ∧
        (∀ caller ∈ run.stack.tail, caller.Awaits turned.queues.commands) ∧
        (ofPacing .standard).sinceStart places [] turning =
          [⟨.f1, 0⟩, ⟨.f2, 0⟩, ⟨.f3, 0⟩, ⟨.f1, 0⟩] ∧
        run.stack.length ≤ 1 + 2) ∧
      ∃ run, plain.run = some run ∧ run.executed = 4 ∧ run.stack.length = 1 ∧
        ∀ due, (Run.executeDue .replace plain.queues.commands plain.tileUnder due
          (plain.stage run)).state.pause.callers = [] := by
  intro turning turned plain
  constructor
  · have hrun : turned.run = some ⟨[⟨.f2, 1, true⟩, ⟨.f1, 1, true⟩, ⟨.f1, 1, false⟩],
        ⟨.call .f3, none⟩, .ofMillis 50, 4⟩ := by decide
    have hplaces : (ofPacing .standard).sinceStart places [] turning =
        [⟨.f1, 0⟩, ⟨.f2, 0⟩, ⟨.f3, 0⟩, ⟨.f1, 0⟩] := by decide
    have hcount : [⟨.f1, 0⟩, ⟨.f2, 0⟩, ⟨.f3, 0⟩, ⟨.f1, 0⟩].countP
        (Place.isInnerCall turned.queues.commands) = 2 := by decide
    obtain ⟨⟨top, callers, hstack, -, -, hawaits⟩, -, hle, -⟩ :=
      no_finished_caller_is_kept (s := turned) rfl hrun
    rw [hplaces, hcount] at hle
    refine ⟨_, hrun, rfl, ?_, hplaces, hle⟩
    rw [hstack]
    exact hawaits
  · have hrun : plain.run = some ⟨[⟨.f2, 1, true⟩], ⟨.call .f3, none⟩, .ofMillis 50, 4⟩ := by
      decide
    have hlast : CallsLast plain.queues.commands := by
      intro sub
      cases sub <;> decide
    obtain ⟨-, -, -, hone⟩ := no_finished_caller_is_kept (s := plain) rfl hrun
    exact ⟨_, hrun, rfl, hone hlast⟩

end TileWalk.Session
