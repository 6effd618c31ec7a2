import TileWalk.Proofs.Session.Report
import TileWalk.Session.Basic

/-!
What can be seen of a session as actions are applied to it. `sights_eq_of_simulation` is the way to
compare two sessions, or two engines: where a relation between their states is kept by every action
and related states show the same, all that can be seen is the same.
-/

namespace TileWalk

/-- What a session shows of its run. -/
structure View where
  cursor : Cursor
  cancelled : Bool
  running : Bool
  timeLeft : Option Duration
  lastOutcome : Option Outcome
deriving DecidableEq

/-- What can be seen of one action: its events, what it logs above traces, and what the session
shows afterwards. -/
structure Sight where
  events : List Event
  log : List Note
  view : View
deriving DecidableEq

namespace Session

/-- What the session shows of its run. -/
def view (s : Session) : View :=
  ⟨s.cursor, s.cancelled, s.running, s.timeLeft, s.lastOutcome⟩

variable {act act' : Session → Action → Step Session}

/-- What can be seen of each of some actions, where `act` is the step that an action makes. -/
def sights (act : Session → Action → Step Session) (s : Session) : List Action → List Sight
  | [] => []
  | action :: actions =>
    let step := act s action
    ⟨step.report.events, step.report.log, step.state.view⟩ :: step.state.sights act actions

/-- The session after some actions. -/
def after (act : Session → Action → Step Session) (s : Session) : List Action → Session
  | [] => s
  | action :: actions => (act s action).state.after act actions

theorem after_of_simulation {R : Session → Session → Prop} {s t : Session}
    {actions : List Action} (h : R s t)
    (hact : ∀ s t, ∀ action ∈ actions, R s t → Step.Alike R (act s action) (act' t action)) :
    R (s.after act actions) (t.after act' actions) := by
  induction actions generalizing s t with
  | nil => exact h
  | cons action actions ih =>
    have hstep := hact s t action List.mem_cons_self h
    exact ih hstep.state fun s t a ha => hact s t a (List.mem_cons_of_mem _ ha)

theorem sights_eq_of_simulation {R : Session → Session → Prop} {s t : Session}
    {actions : List Action} (h : R s t) (hview : ∀ s t, R s t → s.view = t.view)
    (hact : ∀ s t, ∀ action ∈ actions, R s t → Step.Alike R (act s action) (act' t action)) :
    s.sights act actions = t.sights act' actions := by
  induction actions generalizing s t with
  | nil => rfl
  | cons action actions ih =>
    have hstep := hact s t action List.mem_cons_self h
    have hrest := ih hstep.state fun s t a ha => hact s t a (List.mem_cons_of_mem _ ha)
    simp only [sights, hstep.report.events, hstep.report.log, hview _ _ hstep.state, hrest]

end Session

end TileWalk
