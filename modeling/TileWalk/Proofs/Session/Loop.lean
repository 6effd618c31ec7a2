import TileWalk.Proofs.Session.InFlight
import TileWalk.Proofs.Session.Recursion

/-!
The engine as a loop that takes one interval of time after the other, and that takes nothing for
granted: it looks for a waiting command, and at the flag, whenever it needs one, and it tells a
`Lapse` where a run in flight should not have come. The loop agrees with the session wherever
actions lead (`Reachable.applyByLoop_eq`), so it never lapses.
-/

namespace TileWalk

/-- A run as the loop keeps it, with the cursor. While a command is carried out and the next one is
sought, no command waits. -/
structure Loop where
  cursor : Cursor
  executed : UInt32
  stack : List Activation
  waiting : Option (Command × Duration)
deriving DecidableEq

/-- A state that an engine has to provide for although no run comes to it. -/
inductive Lapse
  /-- A run is in flight and no command waits. -/
  | nothingWaits
  /-- A command falls due while the flag is raised. -/
  | flagRaised
  /-- A command without a known operation falls due. -/
  | unknownDue
deriving DecidableEq

namespace Loop

/-- A run at the first command of the first subroutine. -/
def begin (cursor : Cursor) : Loop := ⟨cursor, 0, Run.initialStack, none⟩

/-- A run in flight as the loop keeps it. -/
def ofRun (s : Session) (run : Run) : Loop :=
  ⟨s.cursor, run.executed, run.stack, some (run.command, run.elapsed)⟩

/-- How long the waiting command, if any, has waited. -/
def waited (loop : Loop) : Duration := (loop.waiting.map Prod.snd).getD .zero

/-- The loop at a pause, and the outcome if the run is over. -/
def pausedAt (loop : Loop) : Pause → Loop × Option Outcome
  | .waiting stack command => ({ loop with stack, waiting := some (command, .zero) }, none)
  | .finished outcome => (loop, some outcome)

/-- Walks to the next command. -/
def advance (s : Session) (loop : Loop) : Step (Loop × Option Outcome) :=
  if s.cancelled then .stay (loop, some .cancelled)
  else
    let sought := Run.seek s.queues.commands (s.tileUnder loop.cursor) loop.stack
    ⟨loop.pausedAt sought.1, ⟨[], sought.2⟩⟩

/-- Takes the waiting command and carries it out. -/
def resume (s : Session) (loop : Loop) : Except Lapse (Step (Loop × Option Outcome)) :=
  match loop.waiting with
  | none => .error .nothingWaits
  | some (command, _) =>
    if s.cancelled then .error .flagRaised
    else
      let executed := increment loop.executed
      match command.operation with
      | .move motion =>
        let cursor := loop.cursor.step motion
        .ok ⟨({ loop with cursor, executed, waiting := none },
          if s.tileUnder cursor = .goal then some .won else none),
          ⟨[.cursor cursor], [.executing command.operation]⟩⟩
      | .call sub =>
        let stack := Run.call .replace s.queues.commands sub loop.stack
        .ok ⟨({ loop with stack, executed, waiting := none }, none),
          ⟨[], [.executing command.operation]⟩⟩
      | .unknown => .error .unknownDue

/-- Carries out the waiting command and, unless that ends the run, walks to the next. -/
def turn (s : Session) (loop : Loop) : Except Lapse (Step (Loop × Option Outcome)) :=
  (resume s loop).map fun resumed =>
    match resumed.state.2 with
    | some _ => resumed
    | none => resumed.next fun after => advance s after.1

theorem waited_pausedAt {loop : Loop} {pause : Pause} (h : (loop.pausedAt pause).2 = none) :
    (loop.pausedAt pause).1.waited = .zero := by
  cases pause with
  | waiting stack command => rfl
  | finished outcome => contradiction

theorem waited_advance {s : Session} {loop : Loop} (h : (advance s loop).state.2 = none) :
    (advance s loop).state.1.waited = .zero := by
  cases hflag : s.cancelled with
  | true => simp [advance, hflag] at h
  | false =>
    simp only [advance, hflag, Bool.false_eq_true, if_false] at h ⊢
    exact waited_pausedAt h

/-- The command that waits after a turn has not waited yet. -/
theorem waited_turn {s : Session} {loop : Loop} {turned : Step (Loop × Option Outcome)}
    (hturn : turn s loop = .ok turned) (h : turned.state.2 = none) :
    turned.state.1.waited = .zero := by
  cases hresume : resume s loop with
  | error lapse => simp [turn, hresume, Except.map] at hturn
  | ok resumed =>
    simp only [turn, hresume, Except.map, Except.ok.injEq] at hturn
    subst hturn
    cases hover : resumed.state.2 with
    | some outcome => simp [hover] at h
    | none =>
      simp only [hover] at h ⊢
      exact waited_advance h

/-- A turn leaves less time to spend: it takes a whole interval. -/
theorem waited_turn_add_lt {s : Session} {loop : Loop} {command : Command} {elapsed carry : Duration}
    (hwaiting : loop.waiting = some (command, elapsed))
    (hdue : ¬(elapsed + carry).nanos < s.pacing.interval.nanos)
    {turned : Step (Loop × Option Outcome)} (hturn : turn s loop = .ok turned)
    (hgoes : turned.state.2 = none) :
    turned.state.1.waited.nanos + (elapsed + carry - s.pacing.interval).nanos <
      loop.waited.nanos + carry.nanos := by
  have hnow : loop.waited = elapsed := by rw [waited, hwaiting]; rfl
  have hpos := s.pacing.positive
  rw [Duration.nanos_add] at hdue
  rw [waited_turn hturn hgoes, hnow, Duration.nanos_sub, Duration.nanos_zero, Duration.nanos_add]
  omega

/-- Spends `carry` on the waiting command, and what that leaves on the commands after it. -/
def spend (s : Session) (loop : Loop) (carry : Duration) :
    Except Lapse (Step (Loop × Option Outcome)) :=
  match _hwaiting : loop.waiting with
  | none => .error .nothingWaits
  | some (command, elapsed) =>
    if _hdue : (elapsed + carry).nanos < s.pacing.interval.nanos then
      .ok (.stay ({ loop with waiting := some (command, elapsed + carry) }, none))
    else
      match _hturn : turn s loop with
      | .error lapse => .error lapse
      | .ok turned =>
        match _hgoes : turned.state.2 with
        | some _ => .ok turned
        | none =>
          (spend s turned.state.1 (elapsed + carry - s.pacing.interval)).map fun rest =>
            turned.next fun _ => rest
termination_by loop.waited.nanos + carry.nanos
decreasing_by exact waited_turn_add_lt _hwaiting _hdue _hturn _hgoes

/-- The session after a loop is done with an action. A run that goes on needs a waiting command. -/
def settle (s : Session) (done : Step (Loop × Option Outcome)) : Except Lapse (Step Session) :=
  match done.state with
  | (loop, some outcome) =>
    .ok (done.next fun _ => { s with cursor := loop.cursor }.endRun outcome loop.executed)
  | (loop, none) =>
    match loop.waiting with
    | none => .error .nothingWaits
    | some (command, elapsed) =>
      .ok (done.next fun _ => .stay { s with
        cursor := loop.cursor
        run := some ⟨loop.stack, command, elapsed, loop.executed⟩ })

end Loop

/-- The step that an action makes, with the loop as engine. -/
def Session.applyByLoop (s : Session) : Action → Except Lapse (Step Session)
  | .start =>
    if s.level.isNone then .ok (s.refuse .noLevel)
    else
      let idle := s.cutOff.state
      (Loop.settle idle (Loop.advance idle (.begin idle.cursor))).map fun launched =>
        s.cutOff.next fun _ => Step.next ⟨idle, ⟨[.started], [.starting]⟩⟩ fun _ => launched
  | .tick elapsed =>
    match s.run with
    | none => .ok (.stay s)
    | some run => (Loop.spend s (.ofRun s run) elapsed).bind (Loop.settle s)
  | action => .ok (s.apply action)

namespace Loop

/-! ### The cases of the loop -/

variable {s : Session} {loop : Loop} {command : Command} {elapsed carry : Duration}
variable {turned : Step (Loop × Option Outcome)}

theorem spend_of_lt (hwaiting : loop.waiting = some (command, elapsed))
    (hdue : (elapsed + carry).nanos < s.pacing.interval.nanos) :
    spend s loop carry =
      .ok (.stay ({ loop with waiting := some (command, elapsed + carry) }, none)) := by
  rw [spend]
  split
  · next hnothing =>
    rw [hwaiting] at hnothing
    contradiction
  · next command' elapsed' hwaiting' =>
    obtain ⟨rfl, rfl⟩ : command = command' ∧ elapsed = elapsed' := by simpa [hwaiting] using hwaiting'
    rw [dif_pos hdue]

theorem spend_of_turn (hwaiting : loop.waiting = some (command, elapsed))
    (hdue : ¬(elapsed + carry).nanos < s.pacing.interval.nanos)
    (hturn : turn s loop = .ok turned) :
    spend s loop carry =
      match turned.state.2 with
      | some _ => .ok turned
      | none =>
        (spend s turned.state.1 (elapsed + carry - s.pacing.interval)).map fun rest =>
          turned.next fun _ => rest := by
  rw [spend]
  split
  · next hnothing =>
    rw [hwaiting] at hnothing
    contradiction
  · next command' elapsed' hwaiting' =>
    obtain ⟨rfl, rfl⟩ : command = command' ∧ elapsed = elapsed' := by simpa [hwaiting] using hwaiting'
    rw [dif_neg hdue]
    split
    · next lapse hlapse =>
      rw [hturn] at hlapse
      contradiction
    · next turned' hturn' =>
      obtain rfl : turned = turned' := Except.ok.inj (hturn.symm.trans hturn')
      split
      · next outcome hover => rw [hover]
      · next hgoes => rw [hgoes]

/-! ### The loop and the stages of a run -/

/-- Where the loop is at a stage: at the waiting command, or at the outcome. -/
inductive At (elapsed : Duration) : Stage → Loop × Option Outcome → Prop
  | waiting (loop : Loop) (command : Command) (hwaiting : loop.waiting = some (command, elapsed)) :
      At elapsed ⟨loop.cursor, loop.executed, .waiting loop.stack command⟩ (loop, none)
  | finished (loop : Loop) (outcome : Outcome) :
      At elapsed ⟨loop.cursor, loop.executed, .finished outcome⟩ (loop, some outcome)

/-- Once the run is over the time that a command has waited does not matter. -/
theorem At.over {stage : Stage} {outcome : Outcome} (h : At elapsed stage (loop, some outcome)) :
    stage.pause = .finished outcome ∧ ∀ elapsed', At elapsed' stage (loop, some outcome) := by
  cases h with
  | finished => exact ⟨rfl, fun _ => .finished loop outcome⟩

theorem at_pausedAt (loop : Loop) (pause : Pause) :
    At .zero ⟨loop.cursor, loop.executed, pause⟩ (loop.pausedAt pause) := by
  cases pause with
  | waiting stack command => exact .waiting { loop with stack, waiting := some (command, .zero) } _ rfl
  | finished outcome => exact .finished loop outcome

/-- A turn whose command does not end the run walks on from where the command leads. -/
theorem turn_of_resume (hflag : s.cancelled = false) {after : Loop} {report : Report}
    (hresume : resume s loop = .ok ⟨(after, none), report⟩) :
    let sought := Run.seek s.queues.commands (s.tileUnder after.cursor) after.stack
    turn s loop = .ok ⟨after.pausedAt sought.1, report ++ ⟨[], sought.2⟩⟩ := by
  simp only [turn, hresume, Except.map, Step.next, advance, hflag]
  rfl

/-- A turn carries the waiting command out as a run does. -/
theorem turn_eq (hflag : s.cancelled = false) (hwaiting : loop.waiting = some (command, elapsed))
    (hknown : command.operation ≠ .unknown) :
    let executed := Run.execute .replace s.queues.commands s.tileUnder loop.cursor loop.stack command
    ∃ after, turn s loop = .ok ⟨after, executed.report⟩ ∧
      At .zero ⟨executed.state.1, increment loop.executed, executed.state.2⟩ after := by
  dsimp only
  cases hop : command.operation with
  | move motion =>
    let moved : Loop :=
      ⟨loop.cursor.step motion, increment loop.executed, loop.stack, none⟩
    have hresume : resume s loop =
        .ok ⟨(moved, if s.tileUnder moved.cursor = .goal then some .won else none),
          ⟨[.cursor moved.cursor], [.executing (.move motion)]⟩⟩ := by
      simp only [resume, hwaiting, hflag, hop]
      rfl
    simp only [Run.execute, hop]
    by_cases hgoal : s.tileUnder moved.cursor = .goal
    · rw [if_pos hgoal] at hresume ⊢
      exact ⟨_, by rw [turn, hresume]; rfl, .finished moved .won⟩
    · rw [if_neg hgoal] at hresume ⊢
      exact ⟨_, turn_of_resume hflag hresume, at_pausedAt moved _⟩
  | call sub =>
    let entered : Loop :=
      ⟨loop.cursor, increment loop.executed, Run.call .replace s.queues.commands sub loop.stack, none⟩
    have hresume : resume s loop = .ok ⟨(entered, none), ⟨[], [.executing (.call sub)]⟩⟩ := by
      simp only [resume, hwaiting, hflag, hop]
      rfl
    simp only [Run.execute, hop]
    exact ⟨_, turn_of_resume hflag hresume, at_pausedAt entered _⟩
  | unknown => exact absurd hop hknown

theorem zero_add (d : Duration) : Duration.zero + d = d := by
  have hle := d.nanos_le
  apply Duration.ext_nanos
  rw [Duration.nanos_add, Duration.nanos_zero]
  omega

theorem due_of_le {p : Pacing} {total : Duration} (h : ¬total.nanos < p.interval.nanos) :
    p.due total = p.due (total - p.interval) + 1 ∧
      p.leftover total = p.leftover (total - p.interval) := by
  have hsub : (total - p.interval).nanos = total.nanos - p.interval.nanos := rfl
  have hle : p.interval.nanos ≤ total.nanos := by omega
  constructor
  · rw [Pacing.due, Pacing.due, hsub, Nat.div_eq_sub_div p.positive hle]
  · apply Duration.ext_nanos
    show total.nanos % _ = (total - p.interval).nanos % _
    rw [hsub, Nat.mod_eq_sub_mod hle]

/-- The loop spends time as a run does: on the commands that fall due, and what is left on the
command after them. -/
theorem spend_eq (hflag : s.cancelled = false) {stage : Stage}
    (hsound : stage.Sound s.queues.commands s.tileUnder) (hat : At elapsed stage (loop, none))
    (carry : Duration) :
    let done := Run.executeDue .replace s.queues.commands s.tileUnder
      (s.pacing.due (elapsed + carry)) stage
    ∃ after, spend s loop carry = .ok ⟨after, done.report⟩ ∧
      At (s.pacing.leftover (elapsed + carry)) done.state after := by
  dsimp only
  -- one turn of the loop takes one due command; in between nothing has waited, so that the
  -- carry alone is what is left to spend
  generalize hn : s.pacing.due (elapsed + carry) = n
  induction n generalizing stage loop elapsed carry with
  | zero =>
    have hlt := (Pacing.due_eq_zero_iff _ _).mp hn
    have hleft : s.pacing.leftover (elapsed + carry) = elapsed + carry :=
      Duration.ext_nanos (Nat.mod_eq_of_lt hlt)
    cases hat with
    | waiting _ command hwaiting =>
      refine ⟨_, spend_of_lt hwaiting hlt, ?_⟩
      rw [hleft]
      exact .waiting { loop with waiting := some (command, elapsed + carry) } command rfl
  | succ n ih =>
    have hge : ¬(elapsed + carry).nanos < s.pacing.interval.nanos := by
      rw [← Pacing.due_eq_zero_iff]
      omega
    obtain ⟨hdue, hleft⟩ := due_of_le hge
    cases hat with
    | waiting _ command hwaiting =>
      have hknown := (hsound.waits rfl).known
      obtain ⟨turned, hturn, hturned⟩ := turn_eq hflag hwaiting hknown
      have hnext := @Stage.Sound.execute .replace _ _ _ _ _ hsound rfl
      rw [Run.executeDue_of_waiting rfl, spend_of_turn hwaiting hge hturn]
      generalize Run.execute .replace s.queues.commands s.tileUnder loop.cursor loop.stack command
        = executed at hturn hturned hnext ⊢
      obtain ⟨after, outcome⟩ := turned
      cases outcome with
      | some outcome =>
        obtain ⟨hpause, hstays⟩ := hturned.over
        rw [Step.report_next, Step.state_next, Run.executeDue_of_finished hpause]
        refine ⟨_, ?_, hstays _⟩
        rw [Step.report_stay, Report.append_empty]
      | none =>
        have hrest := zero_add (elapsed + carry - s.pacing.interval)
        obtain ⟨last, hspend, hlast⟩ :=
          ih hnext hturned (elapsed + carry - s.pacing.interval) (by rw [hrest]; omega)
        rw [hrest, ← hleft] at hlast
        refine ⟨last, ?_, hlast⟩
        simp only [hspend, Except.map]
        rfl

theorem settle_of_at {stage : Stage} {after : Loop × Option Outcome} (h : At elapsed stage after)
    (report : Report) :
    settle s ⟨after, report⟩ =
      .ok (Step.next ⟨stage, report⟩ fun stage => s.arrive stage elapsed) := by
  cases h with
  | waiting loop command hwaiting =>
    simp only [settle, hwaiting]
    rfl
  | finished loop outcome => rfl

end Loop

namespace Session

/-- The loop launches a run as the session does. -/
theorem settle_begin (s : Session) :
    ((Loop.settle s (Loop.advance s (.begin s.cursor))).map fun launched =>
        Step.next ⟨s, ⟨[.started], [.starting]⟩⟩ fun _ => launched) = .ok s.launch := by
  cases hflag : s.cancelled with
  | true =>
    rw [launch_eq, firstStage, if_pos hflag, Loop.advance, if_pos hflag]
    rfl
  | false =>
    have hlowered : ¬s.cancelled = true := by simp [hflag]
    have hat := Loop.at_pausedAt (.begin s.cursor)
      (Run.seek s.queues.commands (s.tileUnder (Loop.begin s.cursor).cursor)
        (Loop.begin s.cursor).stack).1
    rw [launch_eq, firstStage, if_neg hlowered, Loop.advance, if_neg hlowered]
    dsimp only
    rw [Loop.settle_of_at hat]
    rfl

theorem applyByLoop_start (s : Session) : s.applyByLoop .start = .ok (s.apply .start) := by
  simp only [applyByLoop, Session.apply, applyWith, start]
  split
  · rfl
  · have hlaunch := settle_begin s.cutOff.state
    cases hsettle : Loop.settle s.cutOff.state
        (Loop.advance s.cutOff.state (.begin s.cutOff.state.cursor)) with
    | error lapse =>
      rw [hsettle] at hlaunch
      contradiction
    | ok launched =>
      rw [hsettle] at hlaunch
      simp only [Except.map, Except.ok.injEq] at hlaunch ⊢
      exact Step.next_congr hlaunch

theorem applyByLoop_tick {s : Session} (hs : ∀ run, s.run = some run → s.InFlight run)
    (elapsed : Duration) : s.applyByLoop (.tick elapsed) = .ok (s.tick .replace elapsed) := by
  cases hrun : s.run with
  | none => simp only [applyByLoop, tick_of_idle hrun, hrun]
  | some run =>
    obtain ⟨-, hflag, hsound⟩ := hs run hrun
    have hat : Loop.At run.elapsed (s.stage run) (.ofRun s run, none) :=
      .waiting (.ofRun s run) run.command rfl
    obtain ⟨after, hspend, hafter⟩ := Loop.spend_eq hflag hsound hat elapsed
    simp only [applyByLoop, hrun, hspend, Except.bind]
    rw [Loop.settle_of_at hafter, tick_eq hrun hflag]

/-- Wherever actions lead, the loop does what the session does, and never lapses. -/
theorem Reachable.applyByLoop_eq {s : Session} (hs : s.Reachable) (action : Action) :
    s.applyByLoop action = .ok (s.apply action) := by
  cases action with
  | start => exact s.applyByLoop_start
  | tick elapsed => exact applyByLoop_tick (fun _ => hs.inFlight) elapsed
  | _ => rfl

/-- Wherever actions lead, a run is in flight if and only if there is a time until its next command.
Then a level is loaded, the flag is lowered, and the command that waits is the one that the
innermost activation passed last; it does something on the tile under the cursor, which is not void.
So an engine that provides for anything else never has to. -/
theorem waits_and_never_lapses {s : Session} (hs : s.Reachable) :
    (s.running = true ↔ s.timeLeft.isSome = true) ∧
      (∀ run, s.run = some run →
        (∃ level, s.level = some level) ∧ s.cancelled = false ∧
          Run.Waits s.queues.commands (s.tileUnder s.cursor) run.stack run.command) ∧
      ∀ action, s.applyByLoop action = .ok (s.apply action) := by
  refine ⟨?_, fun run hrun => ?_, hs.applyByLoop_eq⟩
  · rw [running, timeLeft, Option.isSome_map]
  · have h := hs.inFlight hrun
    exact ⟨h.level, h.lowered, h.waits⟩

/-- The spinner in its second round: it turned, passed over a command, called itself, and is about to
turn again. -/
theorem spinner_waits_and_never_lapses :
    let s := (spinner.applyAll [.start, .tick (.ofMillis 700)]).state
    s.timeLeft = some (.ofMillis 200) ∧
      Run.Waits s.queues.commands (s.tileUnder s.cursor) [⟨.f1, 1, true⟩]
        ⟨.move (.turn .left), none⟩ ∧
      s.applyByLoop (.tick (.ofMillis 800)) = .ok (s.apply (.tick (.ofMillis 800))) := by
  have hs := reachable_spinner.applyAll [.start, .tick (.ofMillis 700)]
  obtain ⟨-, hwaits, hloop⟩ := waits_and_never_lapses hs
  exact ⟨by decide, (hwaits _ rfl).2.2, hloop _⟩

end Session

end TileWalk
