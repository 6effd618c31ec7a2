import TileWalk.Session.Report

/-!
Reading and comparing reports. `Report.operations` reads off which commands were executed.
Reports are alike if they differ at most in traces that tell of no execution, and steps are alike
if their reports are and their states are related; `Step.Alike.next` chains such steps.
-/

namespace TileWalk

namespace Note

/-- The operation whose execution a note tells of. -/
def operation? : Note → Option Operation
  | .executing operation => some operation
  | _ => none

/-- A trace of what is passed or left on the way to the next command. -/
def IsAside (note : Note) : Prop :=
  note.severity = .trace ∧ note.operation? = none

end Note

/-- The pose that an event tells of. -/
def Event.pose? : Event → Option Cursor
  | .cursor pose => some pose
  | _ => none

namespace Report

/-- The operations that a report tells were executed, in order. -/
def operations (report : Report) : List Operation :=
  report.notes.filterMap Note.operation?

/-- The poses that a report tells of, in order. -/
def poses (report : Report) : List Cursor :=
  report.events.filterMap Event.pose?

/-- The notes of a report that are not traces. -/
def log (report : Report) : List Note :=
  report.notes.filter fun note => note.severity ≠ .trace

@[simp] theorem operations_empty : empty.operations = [] := rfl

@[simp] theorem operations_append (a b : Report) :
    (a ++ b).operations = a.operations ++ b.operations := List.filterMap_append

@[simp] theorem poses_append (a b : Report) : (a ++ b).poses = a.poses ++ b.poses :=
  List.filterMap_append

@[simp] theorem log_append (a b : Report) : (a ++ b).log = a.log ++ b.log := List.filter_append ..

theorem events_eq_map_poses {report : Report}
    (h : ∀ event ∈ report.events, ∃ cursor, event = .cursor cursor) :
    report.events = report.poses.map .cursor := by
  obtain ⟨events, notes⟩ := report
  simp only [poses]
  induction events with
  | nil => rfl
  | cons event events ih =>
    obtain ⟨cursor, rfl⟩ := h event List.mem_cons_self
    rw [List.filterMap_cons, Event.pose?, List.map_cons,
      ← ih fun event hevent => h event (List.mem_cons_of_mem _ hevent)]

theorem operations_of_asides {events : List Event} {notes : List Note}
    (h : ∀ note ∈ notes, note.IsAside) : (Report.mk events notes).operations = [] :=
  List.filterMap_eq_nil_iff.mpr fun note hnote => (h note hnote).2

theorem log_of_asides {events : List Event} {notes : List Note}
    (h : ∀ note ∈ notes, note.IsAside) : (Report.mk events notes).log = [] := by
  refine List.filter_eq_nil_iff.mpr fun note hnote => ?_
  simp [(h note hnote).1]

theorem operations_executing (events : List Event) (operation : Operation) (notes : List Note) :
    (Report.mk events (.executing operation :: notes)).operations =
      operation :: (Report.mk events notes).operations := rfl

/-- Reports that differ at most in traces of what is passed and left. -/
structure Alike (a b : Report) : Prop where
  events : a.events = b.events
  operations : a.operations = b.operations
  log : a.log = b.log

theorem Alike.refl (a : Report) : Alike a a := ⟨rfl, rfl, rfl⟩

theorem Alike.append {a b c d : Report} (h1 : Alike a b) (h2 : Alike c d) :
    Alike (a ++ c) (b ++ d) where
  events := by rw [events_append, events_append, h1.events, h2.events]
  operations := by rw [operations_append, operations_append, h1.operations, h2.operations]
  log := by rw [log_append, log_append, h1.log, h2.log]

theorem Alike.of_asides {events : List Event} {notes notes' : List Note}
    (h : ∀ note ∈ notes, note.IsAside) (h' : ∀ note ∈ notes', note.IsAside) :
    Alike ⟨events, notes⟩ ⟨events, notes'⟩ where
  events := rfl
  operations := by rw [operations_of_asides h, operations_of_asides h']
  log := by rw [log_of_asides h, log_of_asides h']

/-- Reports of one execution are alike, whatever is passed and left after it. -/
theorem Alike.executing {events : List Event} {operation : Operation} {notes notes' : List Note}
    (h : ∀ note ∈ notes, note.IsAside) (h' : ∀ note ∈ notes', note.IsAside) :
    Alike ⟨events, .executing operation :: notes⟩ ⟨events, .executing operation :: notes'⟩ where
  events := rfl
  operations := by
    rw [operations_executing, operations_executing, operations_of_asides h,
      operations_of_asides h']
  log := by
    show Report.log ⟨events, notes⟩ = Report.log ⟨events, notes'⟩
    rw [log_of_asides h, log_of_asides h']

end Report

namespace Step

variable {σ τ : Type}

/-- Steps with reports alike that lead to states in relation `R`. -/
structure Alike (R : σ → σ → Prop) (a b : Step σ) : Prop where
  state : R a.state b.state
  report : a.report.Alike b.report

theorem Alike.of_eq {R : σ → σ → Prop} (hR : ∀ s, R s s) {a b : Step σ} (h : a = b) :
    Alike R a b := by
  subst h
  exact ⟨hR _, .refl _⟩

theorem Alike.stay {R : σ → σ → Prop} {s t : σ} (h : R s t) : Alike R (stay s) (stay t) :=
  ⟨h, .refl _⟩

theorem Alike.next {R : σ → σ → Prop} {S : τ → τ → Prop} {a b : Step σ} {f g : σ → Step τ}
    (h : Alike R a b) (hfg : ∀ s t, R s t → Alike S (f s) (g t)) :
    Alike S (a.next f) (b.next g) :=
  ⟨(hfg _ _ h.state).state, h.report.append (hfg _ _ h.state).report⟩

end Step

end TileWalk
