import TileWalk.Session.Event

/-!
Reports: what one step of a session or campaign brought about, as events for its sinks and notes for
its log. A `Step` is a state together with the report of how it came about; steps are chained with
`Step.next`.
-/

namespace TileWalk

/-- How much a reader of the log should care. -/
inductive Severity
  | warning
  | info
  | debug
  | trace
deriving DecidableEq, Inhabited

/-- The name of the severity in the log. -/
def Severity.label : Severity → String
  | warning => "WARN"
  | info => "INFO"
  | debug => "DEBUG"
  | trace => "TRACE"

inductive Note
  | refused (reason : Refusal)
  | loading (width height : Nat) (start : Cursor)
  | queued (operation : Operation) (s : Subroutine)
  | tookBack (s : Subroutine)
  | starting
  | ended (outcome : Outcome) (executed : UInt32)
  | paced (interval : Duration)
  /-- A subroutine was left. -/
  | leaving (s : Subroutine)
  /-- The command at an index of a subroutine does nothing on the tile under the cursor. -/
  | skipping (operation : Operation) (s : Subroutine) (index : Nat) (tile : Tile)
  | executing (operation : Operation)
  | noSuchIndex (index count : Nat)
  | noSuchKey (key : String)
  | entering (index : Nat) (key : String)
  | complete (count : Nat)
  /-- An action tried to load a level past the campaign. -/
  | loadIgnored
deriving DecidableEq, Inhabited

namespace Note

def severity : Note → Severity
  | refused _ | noSuchIndex _ _ | noSuchKey _ | loadIgnored => .warning
  | ended .won _ | ended .exhausted _ | entering _ _ | complete _ => .info
  | ended .offPath _ | ended .cancelled _ | loading _ _ _ | queued _ _ | tookBack _ | starting
  | paced _ => .debug
  | leaving _ | skipping _ _ _ _ | executing _ => .trace

def message : Note → String
  | refused reason => "input rejected: " ++ reason.message
  | loading width height start =>
    let x := start.x.toNat
    let y := start.y.toNat
    s!"loading {width}x{height} level starting at ({x}, {y})"
  | queued operation s => "queued " ++ operation.name ++ " into " ++ s.label
  | tookBack s => "removed last command of " ++ s.label
  | starting => "starting run from " ++ Subroutine.f1.label
  | ended outcome executed =>
    let verb := match outcome with
      | .won | .exhausted => "finished"
      | .offPath | .cancelled => "stopped"
    let steps := executed.toNat
    let words := outcome.message
    s!"run {verb} after {steps} steps: {words}"
  | paced interval =>
    let millis := interval.millis
    s!"pacing interval set to {millis} ms"
  | leaving s => s.label ++ " ran out of commands"
  | skipping operation s index tile =>
    let what := operation.name
    let list := s.label
    let ground := tile.name
    s!"skipping {what} at {list}[{index}] on {ground}"
  | executing operation => "executing " ++ operation.name
  | noSuchIndex index count => s!"level index {index} is out of range for {count} levels"
  | noSuchKey key => s!"level provider has no level stored under `{key}`"
  | entering index key =>
    let number := index + 1
    s!"loading level {number} (`{key}`)"
  | complete count => s!"all {count} levels complete"
  | loadIgnored => "ignoring direct level load; use the progression navigation instead"

/-- The remark as a line of the log. -/
def line (note : Note) : String :=
  note.severity.label ++ " " ++ note.message

end Note

/-- What happened: events and notes, each in order. -/
structure Report where
  events : List Event
  notes : List Note
deriving DecidableEq, Inhabited

namespace Report

/-- Nothing happened. -/
def empty : Report := ⟨[], []⟩

def append (a b : Report) : Report := ⟨a.events ++ b.events, a.notes ++ b.notes⟩

instance : Append Report := ⟨append⟩

@[simp] theorem events_empty : empty.events = [] := rfl

@[simp] theorem notes_empty : empty.notes = [] := rfl

@[simp] theorem events_append (a b : Report) : (a ++ b).events = a.events ++ b.events := rfl

@[simp] theorem notes_append (a b : Report) : (a ++ b).notes = a.notes ++ b.notes := rfl

@[simp] theorem empty_append (a : Report) : empty ++ a = a := rfl

@[simp] theorem append_empty (a : Report) : a ++ empty = a := by
  cases a
  show Report.mk _ _ = _
  simp [empty]

theorem append_assoc (a b c : Report) : a ++ b ++ c = a ++ (b ++ c) := by
  show Report.mk _ _ = Report.mk _ _
  simp [List.append_assoc]

end Report

/-- A state and the report of how it came about. -/
structure Step (σ : Type) where
  state : σ
  report : Report
deriving DecidableEq, Inhabited

namespace Step

variable {σ τ : Type}

/-- A state that nothing led to. -/
def stay (s : σ) : Step σ := ⟨s, .empty⟩

/-- One step, then another from where it led. -/
def next (step : Step σ) (f : σ → Step τ) : Step τ :=
  let after := f step.state
  ⟨after.state, step.report ++ after.report⟩

/-- The same report of a state computed from the one reported. -/
def map (f : σ → τ) (step : Step σ) : Step τ := ⟨f step.state, step.report⟩

@[simp] theorem state_stay (s : σ) : (stay s).state = s := rfl

@[simp] theorem report_stay (s : σ) : (stay s).report = .empty := rfl

@[simp] theorem state_next (step : Step σ) (f : σ → Step τ) :
    (step.next f).state = (f step.state).state := rfl

@[simp] theorem report_next (step : Step σ) (f : σ → Step τ) :
    (step.next f).report = step.report ++ (f step.state).report := rfl

@[simp] theorem state_map (f : σ → τ) (step : Step σ) : (step.map f).state = f step.state := rfl

@[simp] theorem report_map (f : σ → τ) (step : Step σ) : (step.map f).report = step.report := rfl

@[simp] theorem next_stay (step : Step σ) : step.next stay = step := by
  cases step
  simp [next, stay]

theorem next_assoc {υ : Type} (step : Step σ) (f : σ → Step τ) (g : τ → Step υ) :
    (step.next f).next g = step.next fun s => (f s).next g := by
  simp [next, Report.append_assoc]

end Step

end TileWalk
