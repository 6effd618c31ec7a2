import TileWalk.Proofs.Session.InFlight

/-!
The time that a run in flight still waits. A tick of less leaves all but that time as it is, and a
tick of just that length carries out the waiting command: one command, unless the time was over
before (`timeLeft_is_exact`). Who waits for a run again and again thus gets one command for each
wait.
-/

namespace TileWalk

namespace Pacing

variable {p : Pacing} {waited d : Duration}

theorem due_of_lt_left (h : d.nanos < (p.interval - waited).nanos) :
    p.due (waited + d) = 0 ∧ p.leftover (waited + d) = waited + d := by
  have hlt : (waited + d).nanos < p.interval.nanos := by
    rw [Duration.nanos_sub] at h
    rw [Duration.nanos_add]
    omega
  exact ⟨(p.due_eq_zero_iff _).mpr hlt, Duration.ext_nanos (Nat.mod_eq_of_lt hlt)⟩

/-- With the time that is left an interval is full. -/
theorem due_left_pos (p : Pacing) (waited : Duration) :
    0 < p.due (waited + (p.interval - waited)) := by
  have hinterval := p.interval.nanos_le
  have hwaited := waited.nanos_le
  rw [Nat.pos_iff_ne_zero, ne_eq, due_eq_zero_iff, Duration.nanos_add, Duration.nanos_sub]
  omega

theorem due_left_of_pos (h : 0 < (p.interval - waited).nanos) :
    p.due (waited + (p.interval - waited)) = 1 ∧
      p.leftover (waited + (p.interval - waited)) = .zero := by
  have hsum : waited + (p.interval - waited) = p.interval := by
    have hle := p.interval.nanos_le
    apply Duration.ext_nanos
    rw [Duration.nanos_sub] at h
    rw [Duration.nanos_add, Duration.nanos_sub]
    omega
  rw [hsum]
  exact ⟨Nat.div_self p.positive, Duration.ext_nanos (Nat.mod_self _)⟩

end Pacing

namespace Session

variable {s : Session} {run : Run} {policy : TailCall}

theorem timeLeft_eq (hrun : s.run = some run) :
    s.timeLeft = some (s.pacing.interval - run.elapsed) := by
  rw [timeLeft, hrun]
  rfl

theorem timeLeft_eq_some {left : Duration} (h : s.timeLeft = some left) :
    ∃ run, s.run = some run ∧ left = s.pacing.interval - run.elapsed := by
  obtain ⟨run, hrun, hleft⟩ := Option.map_eq_some_iff.mp h
  exact ⟨run, hrun, hleft.symm⟩

/-- The waiting command is carried out. -/
def carryOut (policy : TailCall) (s : Session) (run : Run) : Step (Cursor × Pause) :=
  Run.execute policy s.queues.commands s.tileUnder s.cursor run.stack run.command

@[simp] theorem operations_carryOut :
    (s.carryOut policy run).report.operations = [run.command.operation] :=
  Run.operations_execute _ _ _

/-- A tick that is too short for the waiting command only lets it wait. -/
theorem tick_of_lt_left (hrun : s.run = some run) (hflag : s.cancelled = false) {d : Duration}
    (hd : d.nanos < (s.pacing.interval - run.elapsed).nanos) :
    s.tick policy d = .stay { s with run := some { run with elapsed := run.elapsed + d } } := by
  obtain ⟨hdue, hleft⟩ := Pacing.due_of_lt_left hd
  rw [tick_eq hrun hflag, hdue, hleft]
  rfl

/-- Some commands fall due, and the first of them is the one that waits. -/
theorem tick_of_due (hrun : s.run = some run) (hflag : s.cancelled = false) {d : Duration}
    {later : Nat} (hdue : s.pacing.due (run.elapsed + d) = later + 1) :
    s.tick policy d = (s.carryOut policy run).next fun after =>
      (Run.executeDue policy s.queues.commands s.tileUnder later
        ⟨after.1, increment run.executed, after.2⟩).next fun stage =>
          s.arrive stage (s.pacing.leftover (run.elapsed + d)) := by
  rw [tick_eq hrun hflag, hdue, stage, Run.executeDue_of_waiting rfl, Step.next_assoc]
  rfl

/-- A tick of the time that is left, if there is any, carries out one command. What waits then has
not waited yet. -/
theorem tick_left (hrun : s.run = some run) (hflag : s.cancelled = false)
    (hpos : 0 < (s.pacing.interval - run.elapsed).nanos) :
    s.tick policy (s.pacing.interval - run.elapsed) = (s.carryOut policy run).next fun after =>
      s.arrive ⟨after.1, increment run.executed, after.2⟩ .zero := by
  obtain ⟨hdue, hleft⟩ := Pacing.due_left_of_pos hpos
  rw [tick_of_due hrun hflag hdue, hleft]
  simp only [Run.executeDue, Step.stay_next]

/-- Wherever actions lead, the time left of a run in flight is exact. A shorter tick reports nothing
and changes nothing but the time that is left. A tick of just that time carries out the waiting
command, and goes on from where it leads. If there was time left, it carries out no other, and the
command that waits then, if the run goes on, has the whole interval to wait. -/
theorem timeLeft_is_exact (hs : s.Reachable) {left : Duration} (hleft : s.timeLeft = some left) :
    ∃ run, s.run = some run ∧
      (∀ d : Duration, d.nanos < left.nanos →
        s.apply (.tick d) =
            .stay { s with run := some { run with elapsed := run.elapsed + d } } ∧
          (s.apply (.tick d)).state.timeLeft = some (left - d)) ∧
      (∃ later spare, s.apply (.tick left) = (s.carryOut .replace run).next fun after =>
        (Run.executeDue .replace s.queues.commands s.tileUnder later
          ⟨after.1, increment run.executed, after.2⟩).next fun stage => s.arrive stage spare) ∧
      (0 < left.nanos →
        (s.apply (.tick left)).report.operations = [run.command.operation] ∧
          ∀ after, (s.apply (.tick left)).state.run = some after →
            after.executed = increment run.executed ∧
              (s.apply (.tick left)).state.timeLeft = some s.pacing.interval) := by
  obtain ⟨run, hrun, rfl⟩ := timeLeft_eq_some hleft
  have hflag := (hs.inFlight hrun).lowered
  refine ⟨run, hrun, fun d hd => ?_, ?_, fun hpos => ?_⟩
  · have htick : s.tick .replace d = _ := tick_of_lt_left hrun hflag hd
    refine ⟨htick, ?_⟩
    show (s.tick .replace d).state.timeLeft = _
    rw [htick, Step.state_stay, timeLeft_eq rfl]
    have hle := s.pacing.interval.nanos_le
    refine congrArg some (Duration.ext_nanos ?_)
    rw [Duration.nanos_sub] at hd
    simp only [Duration.nanos_sub, Duration.nanos_add]
    omega
  · obtain ⟨later, hlater⟩ := Nat.exists_eq_add_one_of_ne_zero
      (Nat.pos_iff_ne_zero.mp (s.pacing.due_left_pos run.elapsed))
    exact ⟨later, _, tick_of_due hrun hflag hlater⟩
  · have htick : s.tick .replace _ = _ := tick_left hrun hflag hpos
    show (s.tick .replace _).report.operations = _ ∧ ∀ after,
      (s.tick .replace _).state.run = _ → _ ∧ (s.tick .replace _).state.timeLeft = _
    rw [htick, Step.report_next, Report.operations_append, operations_arrive, operations_carryOut]
    refine ⟨rfl, fun after hafter => ?_⟩
    obtain ⟨helapsed, hexecuted⟩ := run_arrive hafter
    refine ⟨hexecuted, ?_⟩
    rw [timeLeft_eq hafter, Step.state_next, pacing_arrive, helapsed]
    refine congrArg some (Duration.ext_nanos ?_)
    rw [Duration.nanos_sub, Duration.nanos_zero, Nat.sub_zero]

/-- The spinner has waited for 250 ms when the interval grows to 400 ms. The command after the one
that waits is skipped, and the one after that has the whole interval to wait. -/
theorem spinner_timeLeft_is_exact :
    let s := (spinner.applyAll [.start, .tick (.ofMillis 250), .pace (.ofMillis 400)]).state
    s.Reachable ∧ s.timeLeft = some (.ofMillis 150) ∧
      (s.apply (.tick (.ofMillis 149))).report = .empty ∧
      (s.apply (.tick (.ofMillis 149))).state.timeLeft = some (.ofMillis 150 - .ofMillis 149) ∧
      (s.apply (.tick (.ofMillis 150))).report.operations = [.move (.turn .left)] ∧
      (s.apply (.tick (.ofMillis 150))).state.timeLeft = some (.ofMillis 400) := by
  intro s
  have hs : s.Reachable := reachable_spinner.applyAll _
  have hleft : s.timeLeft = some (.ofMillis 150) := by decide
  obtain ⟨run, hrun, hshorter, -, hexact⟩ := timeLeft_is_exact hs hleft
  obtain rfl : ⟨[⟨.f1, 1, false⟩], ⟨.move (.turn .left), none⟩, .ofMillis 250, 0⟩ = run :=
    Option.some.inj hrun
  obtain ⟨hstays, hless⟩ := hshorter (.ofMillis 149) (by decide)
  obtain ⟨hone, hnext⟩ := hexact (by decide)
  have hafter : (s.apply (.tick (.ofMillis 150))).state.run =
      some ⟨[⟨.f1, 3, false⟩], ⟨.call .f1, none⟩, .zero, 1⟩ := by decide
  refine ⟨hs, hleft, ?_, hless, hone, (hnext _ hafter).2⟩
  rw [hstays, Step.report_stay]

end Session

end TileWalk
