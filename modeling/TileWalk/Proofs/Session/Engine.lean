import Mathlib.Order.WellFounded
import TileWalk.Proofs.Run.Rounds
import TileWalk.Proofs.Session.Loop

/-!
The loop that spends the time of a tick, given by its body (`Engine.round`), with nothing taken for
granted about its end. It ends for a positive interval: a command that is carried out takes an
interval off the time that is left, and in between the walk to the next command ends
(`Engine.halts`). It does not end for every program if the interval is zero
(`Engine.spins_without_interval`). Where it ends it is where a session arrives
(`Engine.outlook_unrolls`).
-/

namespace TileWalk

/-- Where the time of a tick brings a run. -/
inductive Progress
  | suspended (cursor : Cursor) (run : Run)
  | finished (outcome : Outcome) (cursor : Cursor) (executed : UInt32)

/-- A run has come to `stage`, where its command, if one waits, has waited for `elapsed`. -/
def Progress.ofStage (stage : Stage) (elapsed : Duration) : Progress :=
  match stage.pause with
  | .waiting stack command => .suspended stage.cursor ⟨stack, command, elapsed, stage.executed⟩
  | .finished outcome => .finished outcome stage.cursor stage.executed

/-- The session after the time of a run is spent. -/
def Session.settle (s : Session) : Progress → Step Session
  | .suspended cursor run => .stay { s with cursor, run := some run }
  | .finished outcome cursor executed => { s with cursor }.endRun outcome executed

theorem Session.settle_ofStage (s : Session) (stage : Stage) (elapsed : Duration) :
    s.settle (.ofStage stage elapsed) = s.arrive stage elapsed := by
  obtain ⟨cursor, executed, pause⟩ := stage
  cases pause <;> rfl

/-- A run that has time to spend: its command waits, or the walk to the next one is under way. -/
inductive Engine
  | waits (cursor : Cursor) (run : Run) (carry : Duration)
  | walks (cursor : Cursor) (executed : UInt32) (stack : List Activation) (carry : Duration)

namespace Engine

/-- Carries out the command that waited, and leaves the walk to the next one to the rounds after. -/
def carryOut (s : Session) (cursor : Cursor) (run : Run) (carry : Duration) :
    Step (Round Engine Progress) :=
  let operation := run.command.operation
  let executed := increment run.executed
  match operation with
  | .move motion =>
    let cursor := cursor.step motion
    ⟨if s.tileUnder cursor = .goal then .done (.finished .won cursor executed)
      else .again (.walks cursor executed run.stack carry),
      ⟨[.cursor cursor], [.executing operation]⟩⟩
  | .call sub =>
    let stack := Run.call .replace s.queues.commands sub run.stack
    ⟨.again (.walks cursor executed stack carry), ⟨[], [.executing operation]⟩⟩
  | .unknown => ⟨.again (.walks cursor executed run.stack carry), ⟨[], [.executing operation]⟩⟩

/-- Where a round of the walk brings a run. -/
def walkOn (cursor : Cursor) (executed : UInt32) (carry : Duration) :
    Round (List Activation) Pause → Round Engine Progress
  | .again stack => .again (.walks cursor executed stack carry)
  | .done (.waiting stack command) => .again (.waits cursor ⟨stack, command, .zero, executed⟩ carry)
  | .done (.finished outcome) => .done (.finished outcome cursor executed)

/-- One round of a tick. All the time goes to the command that waits. If that is enough the command
is carried out, and leaves the time that it did not need; if not, the tick is over. -/
def round (interval : Duration) (s : Session) : Engine → Step (Round Engine Progress)
  | .waits cursor run carry =>
    let total := run.elapsed + carry
    if total.nanos < interval.nanos then
      .stay (.done (.suspended cursor { run with elapsed := total }))
    else if s.cancelled then .stay (.done (.finished .cancelled cursor run.executed))
    else carryOut s cursor run (total - interval)
  | .walks cursor executed stack carry =>
    (Run.walkRound s.cancelled s.queues.commands (s.tileUnder cursor) stack).map
      (walkOn cursor executed carry)

variable {s : Session} {interval carry : Duration} {cursor : Cursor} {run : Run}
variable {executed : UInt32} {stack : List Activation}

/-! ### The loop ends -/

/-- The time that there is to spend, and how much of the walk is left. -/
def left (s : Session) : Engine → Nat × Nat
  | .waits _ run carry => (run.elapsed.nanos + carry.nanos, 0)
  | .walks _ _ stack carry => (carry.nanos, Run.unpassed s.queues.commands stack + 1)

/-- There is less time to spend, or the same time and less to walk. -/
def Descends (s : Session) : Engine → Engine → Prop :=
  InvImage (Prod.Lex (· < ·) (· < ·)) (left s)

theorem wellFounded_descends (s : Session) : WellFounded (Descends s) :=
  InvImage.wf _ (WellFounded.prod_lex Nat.lt_wfRel.wf Nat.lt_wfRel.wf)

/-- The rounds after a command is carried out have the time to spend that it left. -/
theorem left_of_carryOut {next : Engine} {report : Report}
    (h : carryOut s cursor run carry = ⟨.again next, report⟩) : (left s next).1 = carry.nanos := by
  cases hop : run.command.operation with
  | move motion =>
    simp only [carryOut, hop] at h
    split at h <;> cases h
    rfl
  | call | unknown =>
    simp only [carryOut, hop] at h
    cases h
    rfl

theorem descends_of_walks {next : Engine} {report : Report}
    (h : round interval s (.walks cursor executed stack carry) = ⟨.again next, report⟩) :
    Descends s next (.walks cursor executed stack carry) := by
  rw [round] at h
  cases hwalk : Run.walkRound s.cancelled s.queues.commands (s.tileUnder cursor) stack with
  | mk walked notes =>
    rw [hwalk] at h
    cases walked with
    | again stack' =>
      cases h
      have hless := Run.unpassed_of_again hwalk
      exact Prod.Lex.right _ (by omega)
    | done pause =>
      cases pause with
      | waiting stack' command =>
        cases h
        show Prod.Lex _ _ (0 + carry.nanos, 0) _
        rw [Nat.zero_add]
        exact Prod.Lex.right _ (Nat.succ_pos _)
      | finished outcome => cases h

theorem descends_of_waits (hpos : 0 < interval.nanos) {next : Engine} {report : Report}
    (h : round interval s (.waits cursor run carry) = ⟨.again next, report⟩) :
    Descends s next (.waits cursor run carry) := by
  rw [round] at h
  split at h
  · cases h
  · next hdue =>
    split at h
    · cases h
    · -- the sum may saturate, but it is never more than what there was to add
      have htime : (left s next).1 < run.elapsed.nanos + carry.nanos := by
        rw [left_of_carryOut h, Duration.nanos_sub, Duration.nanos_add]
        rw [Duration.nanos_add] at hdue
        omega
      exact Prod.Lex.left _ _ htime

/-- For a positive interval the loop ends, wherever it begins. -/
theorem halts (hpos : 0 < interval.nanos) (s : Session) (engine : Engine) :
    ∃ rounds progress, Halts (round interval s) rounds engine progress := by
  refine Halts.of_wellFounded (wellFounded_descends s) (fun {engine next report} h => ?_) engine
  cases engine with
  | waits cursor run carry => exact descends_of_waits hpos h
  | walks cursor executed stack carry => exact descends_of_walks h

/-! ### Where the loop ends -/

/-- What a run at a stage comes to in some time. -/
def spent (s : Session) (time : Duration) (stage : Stage) : Step Progress :=
  (Run.executeDue .replace s.queues.commands s.tileUnder (s.pacing.due time) stage).map fun stage =>
    .ofStage stage (s.pacing.leftover time)

/-- What the loop comes to while the flag is lowered. -/
def outlook (s : Session) : Engine → Step Progress
  | .waits cursor run carry =>
    spent s (run.elapsed + carry) ⟨cursor, run.executed, .waiting run.stack run.command⟩
  | .walks cursor executed stack carry =>
    (Run.sought false s.queues.commands (s.tileUnder cursor) stack).next fun pause =>
      spent s carry ⟨cursor, executed, pause⟩

theorem spent_of_finished (s : Session) (time : Duration) (cursor : Cursor) (executed : UInt32)
    (outcome : Outcome) :
    spent s time ⟨cursor, executed, .finished outcome⟩ =
      .stay (.finished outcome cursor executed) := by
  rw [spent, Run.executeDue_of_finished rfl]
  rfl

/-- Enough time for one command is spent on it, and the rest on those after it. -/
theorem spent_of_due {time : Duration} (hdue : ¬time.nanos < s.pacing.interval.nanos)
    (cursor : Cursor) (executed : UInt32) (stack : List Activation) (command : Command) :
    spent s time ⟨cursor, executed, .waiting stack command⟩ =
      (Run.execute .replace s.queues.commands s.tileUnder cursor stack command).next fun after =>
        spent s (time - s.pacing.interval) ⟨after.1, increment executed, after.2⟩ := by
  obtain ⟨hmore, hleft⟩ := Loop.due_of_le hdue
  rw [spent, hmore, hleft, Run.executeDue_of_waiting rfl]
  rfl

theorem spent_of_lt {time : Duration} (hdue : time.nanos < s.pacing.interval.nanos)
    (stage : Stage) : spent s time stage = .stay (.ofStage stage time) := by
  have hnone := (Pacing.due_eq_zero_iff _ _).mpr hdue
  have hleft : s.pacing.leftover time = time := Duration.ext_nanos (Nat.mod_eq_of_lt hdue)
  rw [spent, hnone, hleft]
  rfl

theorem carryOut_outlook (s : Session) (cursor : Cursor) (run : Run) (carry : Duration) :
    (carryOut s cursor run carry).next (Round.proceed (outlook s)) =
      (Run.execute .replace s.queues.commands s.tileUnder cursor run.stack run.command).next
        fun after => spent s carry ⟨after.1, increment run.executed, after.2⟩ := by
  cases hop : run.command.operation with
  | move motion =>
    simp only [carryOut, Run.execute, hop]
    split
    · simp only [Step.next, Round.proceed, spent_of_finished]
    · rfl
  | call | unknown =>
    simp only [carryOut, Run.execute, hop]
    rfl

theorem walkOn_outlook (s : Session) (cursor : Cursor) (executed : UInt32) (carry : Duration)
    (walked : Round (List Activation) Pause) :
    Round.proceed (outlook s) (walkOn cursor executed carry walked) =
      (walked.proceed (Run.sought false s.queues.commands (s.tileUnder cursor))).next fun pause =>
        spent s carry ⟨cursor, executed, pause⟩ := by
  cases walked with
  | again stack => rfl
  | done pause =>
    rw [Round.proceed, Step.stay_next]
    cases pause with
    | waiting stack command =>
      -- the command that has been found has not waited yet
      rw [walkOn, Round.proceed, outlook, Loop.zero_add]
    | finished outcome =>
      rw [spent_of_finished]
      rfl

/-- The outlook is one round and the outlook from there. -/
theorem outlook_unrolls (hflag : s.cancelled = false) (engine : Engine) :
    outlook s engine = (round s.pacing.interval s engine).next (Round.proceed (outlook s)) := by
  cases engine with
  | waits cursor run carry =>
    rw [round]
    split
    · next hdue =>
      rw [outlook, spent_of_lt hdue]
      rfl
    · next hdue =>
      rw [if_neg (by simp [hflag]), carryOut_outlook, outlook, spent_of_due hdue]
  | walks cursor executed stack carry =>
    rw [round, outlook, Run.sought_unrolls, hflag, Step.next_assoc]
    simp only [← walkOn_outlook]
    rfl

/-- Where the spinner is while no time has to pass between its commands. -/
inductive Spinning : Engine → Prop
  | turns (direction : Direction) (executed : UInt32) (byCall : Bool) (elapsed carry : Duration) :
      Spinning (.waits ⟨0, 0, direction⟩
        ⟨[⟨.f1, 1, byCall⟩], ⟨.move (.turn .left), none⟩, elapsed, executed⟩ carry)
  | calls (direction : Direction) (executed : UInt32) (byCall : Bool) (elapsed carry : Duration) :
      Spinning (.waits ⟨0, 0, direction⟩
        ⟨[⟨.f1, 3, byCall⟩], ⟨.call .f1, none⟩, elapsed, executed⟩ carry)
  | enters (direction : Direction) (executed : UInt32) (byCall : Bool) (carry : Duration) :
      Spinning (.walks ⟨0, 0, direction⟩ executed [⟨.f1, 0, byCall⟩] carry)
  | turned (direction : Direction) (executed : UInt32) (byCall : Bool) (carry : Duration) :
      Spinning (.walks ⟨0, 0, direction⟩ executed [⟨.f1, 1, byCall⟩] carry)
  | skipped (direction : Direction) (executed : UInt32) (byCall : Bool) (carry : Duration) :
      Spinning (.walks ⟨0, 0, direction⟩ executed [⟨.f1, 2, byCall⟩] carry)

theorem Spinning.round {engine : Engine} (h : Spinning engine) :
    ∃ next report, round .zero Session.spinner engine = ⟨.again next, report⟩ ∧ Spinning next := by
  have hdue : ∀ total : Duration, ¬total.nanos < Duration.zero.nanos := fun _ => Nat.not_lt_zero _
  cases h with
  | turns direction executed byCall elapsed carry =>
    rw [Engine.round, if_neg (hdue _)]
    exact ⟨_, _, rfl, .turned _ _ _ _⟩
  | calls direction executed byCall elapsed carry =>
    rw [Engine.round, if_neg (hdue _)]
    exact ⟨_, _, rfl, .enters _ _ _ _⟩
  | enters direction executed byCall carry => exact ⟨_, _, rfl, .turns _ _ _ _ _⟩
  | turned direction executed byCall carry => exact ⟨_, _, rfl, .skipped _ _ _ _⟩
  | skipped direction executed byCall carry => exact ⟨_, _, rfl, .calls _ _ _ _ _⟩

/-- Without an interval a run of the spinner would never yield. -/
theorem spins_without_interval {rounds : Nat} {progress : Step Progress} (carry : Duration) :
    ¬Halts (round .zero Session.spinner) rounds (.walks ⟨0, 0, .up⟩ 0 Run.initialStack carry)
      progress :=
  Halts.not_of_closed Spinning.round (.enters _ _ _ _)

end Engine

end TileWalk
