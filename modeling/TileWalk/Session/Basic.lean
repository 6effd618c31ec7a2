import TileWalk.Session.Queues
import TileWalk.Session.Run

/-!
A puzzle session: a level, the cursor, the queues and at most one run. Every change goes through
`Session.apply`, which takes an action and reports the events and notes it brought about. An action
that is refused reports the reason and changes nothing.
-/

namespace TileWalk

/-- The state of a session. -/
structure Session where
  level : Option Level
  cursor : Cursor
  queues : Queues
  /-- The cancellation flag: while it is raised, no run gets to execute a command. -/
  cancelled : Bool
  pacing : Pacing
  /-- The run in flight, if any. -/
  run : Option Run
  /-- How the last run on the loaded level ended. -/
  lastOutcome : Option Outcome
deriving DecidableEq, Inhabited

namespace Session

def ofPacing (pacing : Pacing) : Session :=
  { level := none
    cursor := .origin
    queues := .closed
    cancelled := false
    pacing
    run := none
    lastOutcome := none }

/-- A session without a level, with the standard pacing. -/
def fresh : Session := ofPacing .standard

/-! ### What a session shows -/

/-- The tile at a position; all is void without a level. -/
def tile (s : Session) (x y : UInt32) : Tile :=
  match s.level with
  | some level => level.tile x y
  | none => .void

def tileUnder (s : Session) (cursor : Cursor) : Tile :=
  s.tile cursor.x cursor.y

def queue (s : Session) (sub : Subroutine) : List Command :=
  s.queues.commands.get sub

/-- A run waits for time to pass. -/
def running (s : Session) : Bool := s.run.isSome

/-- The time until the waiting command executes. -/
def timeLeft (s : Session) : Option Duration :=
  s.run.map fun run => s.pacing.interval - run.elapsed

/-! ### Parts of actions -/

/-- The event that announces the queue of a subroutine. -/
def queueEvent (s : Session) (sub : Subroutine) : Event :=
  .queue sub (s.queue sub)

def queueEvents (s : Session) : List Event :=
  Subroutine.all.map s.queueEvent

/-- Input is refused. -/
def refuse (s : Session) (reason : Refusal) : Step Session :=
  ⟨s, ⟨[.refused reason], [.refused reason]⟩⟩

/-- The events at the end of a run. -/
def endingEvents (outcome : Outcome) (executed : UInt32) : List Event :=
  (if outcome = .won then [.victory] else []) ++ [.ended outcome executed]

def endRun (s : Session) (outcome : Outcome) (executed : UInt32) : Step Session :=
  ⟨{ s with
      run := none
      lastOutcome := some outcome
      cancelled := s.cancelled || outcome.raisesFlag },
    ⟨endingEvents outcome executed, [.ended outcome executed]⟩⟩

/-- The run in flight, if any, is cut off. -/
def cutOff (s : Session) : Step Session :=
  match s.run with
  | some run => s.endRun .cancelled run.executed
  | none => .stay s

/-- A run has come to `stage`, and its waiting command has waited for `elapsed`. -/
def arrive (s : Session) (stage : Stage) (elapsed : Duration) : Step Session :=
  match stage.pause with
  | .waiting stack command =>
    .stay { s with
      cursor := stage.cursor
      run := some ⟨stack, command, elapsed, stage.executed⟩ }
  | .finished outcome => { s with cursor := stage.cursor }.endRun outcome stage.executed

/-- The session on a level at its beginning: the start pose, empty queues, the flag lowered. -/
def onLevel (s : Session) (level : Level) : Session :=
  { s with
    level := some level
    cursor := level.start
    queues := .ofCapacities level.capacities
    cancelled := false
    lastOutcome := none }

/-- The session without commands, with the flag lowered and the cursor at the start. -/
def cleared (s : Session) : Session :=
  { s with
    cursor := (s.level.map Level.start).getD s.cursor
    queues := s.queues.emptied
    cancelled := false }

/-- Why a new command is refused before any queue is looked at. -/
def refusal? (s : Session) (command : Command) : Option Refusal :=
  match s.level with
  | none => some .noLevel
  | some level =>
    if s.run.isSome then some .running
    else
      match command.operation with
      | .call sub => if level.enabled.get sub then none else some (.disabled sub)
      | _ => none

/-- The first stage of a run. While the flag is raised the run ends at once. -/
def firstStage (s : Session) : Stage × List Note :=
  if s.cancelled then (⟨s.cursor, 0, .finished .cancelled⟩, [])
  else
    let sought := Run.seek s.queues.commands (s.tileUnder s.cursor) Run.initialStack
    (⟨s.cursor, 0, sought.1⟩, sought.2)

/-- A run starts; none is in flight. -/
def launch (s : Session) : Step Session :=
  let (stage, notes) := s.firstStage
  Step.next ⟨s, ⟨[.started], .starting :: notes⟩⟩ fun s => s.arrive stage .zero

/-- Time passes for a run in flight. As many commands execute as fall due, unless the run ends
before; time left over counts for the command that waits then. -/
def elapse (policy : TailCall) (s : Session) (run : Run) (elapsed : Duration) : Step Session :=
  let total := run.elapsed + elapsed
  let due := s.pacing.due total
  if s.cancelled ∧ 0 < due then s.endRun .cancelled run.executed
  else
    let stages := Run.executeDue policy s.queues.commands s.tileUnder due
      ⟨s.cursor, run.executed, .waiting run.stack run.command⟩
    stages.next fun stage => s.arrive stage (s.pacing.leftover total)

/-! ### Actions -/

def load (s : Session) (level : Level) : Step Session :=
  s.cutOff.next fun s =>
    ⟨s.onLevel level,
      ⟨.level level :: .cursor level.start :: (s.onLevel level).queueEvents,
        [.loading level.width level.height level.start]⟩⟩

def add (s : Session) (command : Command) (placement : Placement) : Step Session :=
  match s.refusal? command with
  | some reason => s.refuse reason
  | none =>
    match s.queues.place placement with
    | .error reason => s.refuse reason
    | .ok sub =>
      let s := { s with queues := s.queues.push sub command }
      ⟨s, ⟨[s.queueEvent sub], [.queued command.operation sub]⟩⟩

/-- The command that two labels describe is added to a queue. -/
def submit (s : Session) (operation : String) (condition : Option String)
    (placement : Placement) : Step Session :=
  match Command.ofLabels operation condition with
  | .ok command => s.add command placement
  | .error reason => s.refuse reason

/-- The last command of the last queue that holds any is removed. -/
def takeBack (s : Session) : Step Session :=
  if s.run.isSome then s.refuse .running
  else
    match s.queues.lastUsed? with
    | some sub =>
      let s := { s with queues := s.queues.pop sub }
      ⟨s, ⟨[s.queueEvent sub], [.tookBack sub]⟩⟩
    | none => .stay s

/-- All commands are removed, the flag is lowered and the cursor returns to the start. -/
def reset (s : Session) : Step Session :=
  s.cutOff.next fun s =>
    ⟨s.cleared,
      ⟨s.cleared.queueEvents ++ (s.level.map fun level => Event.cursor level.start).toList, []⟩⟩

/-- A run starts, in place of the one in flight. -/
def start (s : Session) : Step Session :=
  if s.level.isNone then s.refuse .noLevel else s.cutOff.next launch

/-- The flag is raised and the run in flight is cut off. -/
def abort (s : Session) : Step Session :=
  { s with cancelled := true }.cutOff

/-- The pacing changes, for the waiting command too. -/
def pace (s : Session) (interval : Duration) : Step Session :=
  match Pacing.ofInterval interval with
  | .ok pacing => ⟨{ s with pacing }, ⟨[], [.paced interval]⟩⟩
  | .error reason => s.refuse reason

def tick (policy : TailCall) (s : Session) (elapsed : Duration) : Step Session :=
  match s.run with
  | some run => s.elapse policy run elapsed
  | none => .stay s

/-- The step that an action makes, with calls in tail position treated as `policy` says. -/
def applyWith (policy : TailCall) (s : Session) : Action → Step Session
  | .load level => s.load level
  | .add command placement => s.add command placement
  | .submit operation condition placement => s.submit operation condition placement
  | .takeBack => s.takeBack
  | .reset => s.reset
  | .start => s.start
  | .abort => s.abort
  | .pace interval => s.pace interval
  | .tick elapsed => s.tick policy elapsed

def apply (s : Session) (action : Action) : Step Session :=
  s.applyWith .replace action

/-- The steps that some actions make, one after the other. -/
def applyAll (s : Session) : List Action → Step Session
  | [] => .stay s
  | action :: actions => (s.apply action).next fun s => s.applyAll actions

@[simp] theorem applyAll_nil (s : Session) : s.applyAll [] = .stay s := rfl

@[simp] theorem applyAll_cons (s : Session) (action : Action) (actions : List Action) :
    s.applyAll (action :: actions) = (s.apply action).next fun s => s.applyAll actions := rfl

theorem applyAll_append (s : Session) (a b : List Action) :
    s.applyAll (a ++ b) = (s.applyAll a).next fun s => s.applyAll b := by
  induction a generalizing s with
  | nil => simp [Step.next]
  | cons action actions ih => simp [ih, Step.next_assoc]

end Session

end TileWalk
