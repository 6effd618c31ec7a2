import TileWalk.Proofs.Run.Recursion
import TileWalk.Proofs.Session.Time

/-!
A run shows the recursive meaning of its program: the commands that it executes, the poses that it
reports and its end are those of `Course.ofProgram` (`shows_ofProgram`).
-/

namespace TileWalk

theorem Step.next_congr {σ τ : Type} {step : Step σ} {f g : σ → Step τ}
    (h : f step.state = g step.state) : step.next f = step.next g := by
  rw [next, next, h]

namespace Session

/-- At least `k` commands have executed, or the run is over. -/
def Reaches (k : Nat) (step : Step Session) : Prop :=
  k ≤ step.report.operations.length ∨ step.state.run = none

/-- A run shows the first `k` commands of a course, after the events `before`: it executes the same
operations and reports the same poses. It is over within `k` commands if and only if the course is
stopped; then it ends as the course does and shows nothing else. -/
structure Shows (before : List Event) (k : Nat) (step : Step Session) (course : Course) :
    Prop where
  executed : step.report.operations.take k = course.executed
  poses : before ++ course.poses.map .cursor <+: step.report.events
  over_iff : (∃ outcome, course.halt = .stopped outcome) ↔
    step.state.run = none ∧ step.report.operations.length ≤ k
  ending : ∀ outcome, course.halt = .stopped outcome →
    step.report.operations = course.executed ∧
      step.state.cursor = course.cursor ∧
      step.state.lastOutcome = some outcome ∧
      ∃ executed : UInt32, executed.toNat = course.executed.length ∧
        step.report.events = before ++ course.poses.map .cursor ++ endingEvents outcome executed

theorem Shows.after {σ : Type} {first : Step σ} {f : σ → Step Session} {before : List Event}
    {k : Nat} {course : Course} (hfirst : first.report.operations = [])
    (h : Shows before k (f first.state) course) :
    Shows (first.report.events ++ before) k (first.next f) course := by
  have hops : (first.next f).report.operations = (f first.state).report.operations := by
    rw [Step.report_next, Report.operations_append, hfirst, List.nil_append]
  refine ⟨hops ▸ h.executed, ?_, hops ▸ h.over_iff, fun outcome hhalt => ?_⟩
  · rw [Step.report_next, Report.events_append, List.append_assoc]
    exact (List.prefix_append_right_inj _).mpr h.poses
  · obtain ⟨hexecuted, hcursor, houtcome, count, hcount, hevents⟩ := h.ending outcome hhalt
    refine ⟨hops ▸ hexecuted, hcursor, houtcome, count, hcount, ?_⟩
    rw [Step.report_next, Report.events_append, hevents]
    simp only [List.append_assoc]

/-! ### Arriving at a stage -/

variable {policy : TailCall} {s : Session}

theorem arrive_of_finished {stage : Stage} {outcome : Outcome} (h : stage.pause = .finished outcome)
    (elapsed : Duration) :
    s.arrive stage elapsed =
      { s with cursor := stage.cursor }.endRun outcome stage.executed := by
  simp only [arrive, h]

theorem run_arrive_eq_none {stage : Stage} {elapsed : Duration}
    (h : (s.arrive stage elapsed).state.run = none) :
    ∃ outcome, stage.pause = .finished outcome := by
  cases hpause : stage.pause with
  | finished outcome => exact ⟨outcome, rfl⟩
  | waiting stack command => simp [arrive, hpause] at h

/-- Beyond the `k`-th command or the end, what is due can be carried out in two parts, of which the
first is `k` commands. -/
theorem executeDue_of_reaches {stage : Stage} {n k : Nat} {left : Duration}
    (hreach : Reaches k
      ((Run.executeDue policy s.queues.commands s.tileUnder n stage).next fun stage =>
        s.arrive stage left)) :
    ∃ m, Run.executeDue policy s.queues.commands s.tileUnder n stage =
      (Run.executeDue policy s.queues.commands s.tileUnder k stage).next
        (Run.executeDue policy s.queues.commands s.tileUnder m) := by
  rcases Nat.le_total k n with h | h
  · exact ⟨n - k, by rw [← Run.executeDue_add, Nat.add_sub_cancel' h]⟩
  · -- at most `k` commands fell due: all of them executed, or the run was over and stays over
    refine ⟨0, ?_⟩
    show _ = (Run.executeDue policy s.queues.commands s.tileUnder k stage).next .stay
    rw [Step.next_stay]
    rcases hreach with hlen | hover
    · rw [Step.report_next, Report.operations_append, operations_arrive, List.append_nil] at hlen
      have hle := @Run.length_operations_executeDue_le policy s.queues.commands s.tileUnder n stage
      rw [show n = k by omega]
    · obtain ⟨outcome, hpause⟩ := run_arrive_eq_none hover
      rw [← Nat.add_sub_cancel' h, Run.executeDue_add, Step.next,
        Run.executeDue_of_finished hpause]
      exact (Step.next_stay _).symm

/-- The run is over after the commands of `part`. -/
theorem shows_of_finished {part : Step Stage} {outcome : Outcome} {k : Nat}
    (hpause : part.state.pause = .finished outcome) (hlen : part.report.operations.length ≤ k)
    (hevents : part.report.events = part.report.poses.map .cursor)
    (hcount : part.state.executed.toNat = part.report.operations.length) (left : Duration) :
    Shows [] k (part.next fun stage => s.arrive stage left) (.ofStep part) := by
  have hops : (part.next fun stage => s.arrive stage left).report.operations =
      part.report.operations := by
    rw [Step.report_next, Report.operations_append, operations_arrive, List.append_nil]
  have harrive := arrive_of_finished (s := s) hpause left
  have hhalt : (Course.ofStep part).halt = .stopped outcome := by
    rw [Course.ofStep, hpause]
    rfl
  refine ⟨?_, ?_, ⟨fun _ => ⟨?_, hops ▸ hlen⟩, fun _ => ⟨outcome, hhalt⟩⟩, ?_⟩
  · rw [hops]
    exact List.take_of_length_le hlen
  · rw [Step.report_next, Report.events_append, hevents]
    exact List.prefix_append _ _
  · rw [Step.state_next, harrive]
    rfl
  · intro outcome' hhalt'
    obtain rfl : outcome = outcome' := by
      rw [hhalt] at hhalt'
      exact Halt.stopped.inj hhalt'
    refine ⟨hops, ?_, ?_, part.state.executed, hcount, ?_⟩
    · rw [Step.state_next, harrive]
      rfl
    · rw [Step.state_next, harrive]
      rfl
    · rw [Step.report_next, Report.events_append, harrive, hevents]
      rfl

/-- After the `k` commands of `part` the run goes on. -/
theorem shows_of_waiting {part : Step Stage} {stack : List Activation} {command : Command} {k : Nat}
    (hpause : part.state.pause = .waiting stack command)
    (hlen : part.report.operations.length = k)
    (hevents : part.report.events = part.report.poses.map .cursor) (m : Nat) (left : Duration) :
    Shows [] k
      (part.next fun stage =>
        (Run.executeDue policy s.queues.commands s.tileUnder m stage).next fun stage =>
          s.arrive stage left)
      (.ofStep part) := by
  have hhalt : (Course.ofStep part).halt = .spent command := by
    rw [Course.ofStep, hpause]
    rfl
  refine ⟨?_, ?_, ⟨?_, fun h => ?_⟩, ?_⟩
  · rw [Step.report_next, Report.operations_append]
    exact List.take_left' hlen
  · rw [Step.report_next, Report.events_append, hevents]
    exact List.prefix_append _ _
  · rintro ⟨outcome, hstopped⟩
    rw [hhalt] at hstopped
    contradiction
  · obtain ⟨hidle, hle⟩ := h
    rw [Step.report_next, Report.operations_append, List.length_append] at hle
    cases m with
    | zero => simp [Run.executeDue, Step.next, arrive, hpause] at hidle
    | succ m =>
      rw [Run.executeDue_of_waiting hpause, Step.report_next, Step.report_next,
        Report.operations_append, Report.operations_append, Run.operations_execute,
        List.length_append, List.length_append, List.length_singleton] at hle
      omega
  · intro outcome hstopped
    rw [hhalt] at hstopped
    contradiction

theorem shows_ofStep {stage : Stage} (hstage : stage.executed = 0) {n k : Nat}
    (hk : k < 4294967296) {left : Duration}
    (hreach : Reaches k
      ((Run.executeDue policy s.queues.commands s.tileUnder n stage).next fun stage =>
        s.arrive stage left)) :
    Shows [] k
      ((Run.executeDue policy s.queues.commands s.tileUnder n stage).next fun stage =>
        s.arrive stage left)
      (.ofStep (Run.executeDue policy s.queues.commands s.tileUnder k stage)) := by
  obtain ⟨m, hm⟩ := executeDue_of_reaches hreach
  rw [hm, Step.next_assoc]
  have hevents := Report.events_eq_map_poses fun _ =>
    @Run.eq_cursor_of_mem_executeDue policy s.queues.commands s.tileUnder k stage _
  cases hpause : (Run.executeDue policy s.queues.commands s.tileUnder k stage).state.pause with
  | finished outcome =>
    have hle := @Run.length_operations_executeDue_le policy s.queues.commands s.tileUnder k stage
    have hcount := @Run.toNat_executed_executeDue policy s.queues.commands s.tileUnder k stage
    rw [hstage, show (0 : UInt32).toNat = 0 from rfl, Nat.zero_add, Nat.min_eq_left (by omega)]
      at hcount
    rw [Step.next_congr (g := fun stage => s.arrive stage left)]
    · exact shows_of_finished hpause hle hevents hcount left
    · rw [Run.executeDue_of_finished hpause, Step.stay_next]
  | waiting stack command =>
    exact shows_of_waiting hpause (Run.length_operations_of_waiting hpause) hevents m left

/-! ### From the start on -/

theorem exists_executeDue (hflag : s.cancelled = false) (stage : Stage) (elapsed : Duration)
    (times : List Duration) :
    ∃ n left,
      ((s.arrive stage elapsed).next fun s => s.applyAll (times.map .tick)) =
        ((Run.executeDue .replace s.queues.commands s.tileUnder n stage).next fun stage =>
          s.arrive stage left) ∧
      (elapsed.nanos + (times.map Duration.nanos).sum ≤ maxNanos →
        n * s.pacing.interval.nanos + left.nanos =
          elapsed.nanos + (times.map Duration.nanos).sum) ∧
      (elapsed.nanos < s.pacing.interval.nanos → left.nanos < s.pacing.interval.nanos) := by
  induction times generalizing stage elapsed with
  | nil =>
    refine ⟨0, elapsed, ?_, fun _ => by simp, id⟩
    exact (Step.next_stay _).trans (Step.stay_next _ _).symm
  | cons d times ih =>
    obtain ⟨n, left, hsteps, hsum, hlt⟩ := ih
      (Run.executeDue .replace s.queues.commands s.tileUnder (s.pacing.due (elapsed + d))
        stage).state
      (s.pacing.leftover (elapsed + d))
    -- the later ticks start from the stage that this one leads to, with the time left over
    refine ⟨s.pacing.due (elapsed + d) + n, left, ?_, fun hfit => ?_, fun _ => ?_⟩
    · show ((s.arrive stage elapsed).next fun s => (s.tick .replace d).next fun s =>
        s.applyAll (times.map .tick)) = _
      rw [← Step.next_assoc, arrive_tick hflag, Step.next_assoc, Run.executeDue_add,
        Step.next_assoc]
      exact Step.next_congr hsteps
    · rw [List.map_cons, List.sum_cons] at hfit ⊢
      have htotal : (elapsed + d).nanos = elapsed.nanos + d.nanos :=
        Duration.nanos_add_of_le (by omega)
      have hdue := s.pacing.due_mul_add_leftover (elapsed + d)
      have hrest := hsum (by omega)
      rw [Nat.add_mul]
      omega
    · exact hlt (s.pacing.leftover_lt _)

/-- The stage of a run that begins while the flag is lowered. -/
def openingStage (s : Session) : Stage :=
  ⟨s.cursor, 0, (Run.seek s.queues.commands (s.tileUnder s.cursor) Run.initialStack).1⟩

theorem launch_of_lowered (hflag : s.cancelled = false) :
    s.launch =
      Step.next ⟨s, ⟨[.started], .starting ::
        (Run.seek s.queues.commands (s.tileUnder s.cursor) Run.initialStack).2⟩⟩ fun _ =>
          s.arrive s.openingStage .zero := by
  simp only [launch, firstStage, hflag]
  rfl

theorem operations_starting (s : Session) :
    (Report.mk [.started] (.starting ::
      (Run.seek s.queues.commands (s.tileUnder s.cursor) Run.initialStack).2)).operations = [] := by
  show (Report.mk [] (Run.seek _ _ _).2).operations = []
  exact Report.operations_of_asides fun _ => Run.isAside_of_mem_seek

theorem reaches_of_due {stage : Stage} {n k : Nat} (hkn : k ≤ n) (left : Duration) :
    Reaches k
      ((Run.executeDue policy s.queues.commands s.tileUnder n stage).next fun stage =>
        s.arrive stage left) := by
  cases hpause : (Run.executeDue policy s.queues.commands s.tileUnder n stage).state.pause with
  | finished outcome =>
    refine .inr ?_
    rw [Step.state_next, arrive_of_finished hpause]
    rfl
  | waiting stack command =>
    refine .inl ?_
    rw [Step.report_next, Report.operations_append, operations_arrive, List.append_nil,
      Run.length_operations_of_waiting hpause]
    exact hkn

theorem Reaches.after_iff {σ : Type} {first : Step σ} {f : σ → Step Session} {k : Nat}
    (hfirst : first.report.operations = []) :
    Reaches k (first.next f) ↔ Reaches k (f first.state) := by
  simp only [Reaches, Step.report_next, Report.operations_append, hfirst, List.nil_append,
    Step.state_next]

theorem launch_shows_ofProgram (hflag : s.cancelled = false) {k : Nat} (hk : k < 4294967296)
    (times : List Duration) :
    (k * s.pacing.interval.nanos ≤ (times.map Duration.nanos).sum →
      (times.map Duration.nanos).sum ≤ maxNanos →
      Reaches k (s.launch.next fun s => s.applyAll (times.map .tick))) ∧
    (Reaches k (s.launch.next fun s => s.applyAll (times.map .tick)) →
      Shows [.started] k (s.launch.next fun s => s.applyAll (times.map .tick))
        (.ofProgram s.queues.commands s.tileUnder k s.cursor)) := by
  obtain ⟨n, left, hsteps, hsum, hlt⟩ := exists_executeDue hflag s.openingStage .zero times
  rw [launch_of_lowered hflag, Step.next_assoc, hsteps, Reaches.after_iff s.operations_starting]
  constructor
  · intro henough hfit
    refine reaches_of_due ?_ left
    have htotal := hsum (by simpa using hfit)
    have hleft := hlt s.pacing.positive
    rw [Duration.nanos_zero, Nat.zero_add] at htotal
    have hlt : k * s.pacing.interval.nanos < (n + 1) * s.pacing.interval.nanos := by
      rw [Nat.add_mul]
      omega
    exact Nat.le_of_lt_succ (Nat.lt_of_mul_lt_mul_right hlt)
  · intro hreach
    rw [← Course.ofStep_run .replace]
    exact @Shows.after _ ⟨s, _⟩ (fun _ => _) _ _ _ s.operations_starting
      (shows_ofStep rfl hk hreach)

/-- A run that starts with the flag lowered shows the recursive meaning of its program. For every
`k`, enough time brings it to the `k`-th command or to its end, and then the first `k` commands are
those of the program's course. -/
theorem start_shows_ofProgram {s : Session} {level : Level} (hlevel : s.level = some level)
    (hflag : s.cancelled = false) {k : Nat} (hk : k < 4294967296) (times : List Duration) :
    (k * s.pacing.interval.nanos ≤ (times.map Duration.nanos).sum →
      (times.map Duration.nanos).sum ≤ maxNanos →
      Reaches k (s.applyAll (.start :: times.map .tick))) ∧
    (Reaches k (s.applyAll (.start :: times.map .tick)) →
      Shows (s.cutOff.report.events ++ [.started]) k (s.applyAll (.start :: times.map .tick))
        (.ofProgram s.queues.commands s.tileUnder k s.cursor)) := by
  have hcutOff : s.cutOff.report.operations = [] := by
    unfold cutOff
    split <;> rfl
  have hstart : s.applyAll (.start :: times.map .tick) =
      s.cutOff.next fun s => s.launch.next fun s => s.applyAll (times.map .tick) := by
    rw [applyAll_cons, Session.apply, applyWith, start, if_neg (by simp [hlevel]), Step.next_assoc]
  have htile : s.cutOff.state.tileUnder = s.tileUnder := by
    funext cursor
    rw [state_cutOff]
    rfl
  have hqueues : s.cutOff.state.queues = s.queues := by rw [state_cutOff]
  have hcursor : s.cutOff.state.cursor = s.cursor := by rw [state_cutOff]
  have hpacing : s.cutOff.state.pacing = s.pacing := by rw [state_cutOff]
  obtain ⟨hreach, hshows⟩ := launch_shows_ofProgram (s := s.cutOff.state)
    (by rw [state_cutOff]; exact hflag) hk times
  rw [hpacing] at hreach
  rw [htile, hqueues, hcursor] at hshows
  rw [hstart, Reaches.after_iff hcutOff]
  exact ⟨hreach, fun h => (hshows h).after hcutOff⟩

/-- A session whose program skips a command in a call and comes to the goal there. -/
def visitor : Session :=
  (fresh.applyAll
    [.load ⟨[[.path .grey, .goal]], ⟨0, 0, .right⟩, .const 2, .const true, "a step to the goal"⟩,
      .add ⟨.call .f2, none⟩ (.slot .f1),
      .add ⟨.move .forward, none⟩ (.slot .f1),
      .add ⟨.move .forward, some .red⟩ (.slot .f2),
      .add ⟨.move .forward, some .grey⟩ (.slot .f2)]).state

theorem visitor_shows_ofProgram :
    Shows [.started] 5
        (visitor.applyAll [.start, .tick (.ofMillis 700), .tick (.ofMillis 800)])
        (.ofProgram visitor.queues.commands visitor.tileUnder 5 visitor.cursor) ∧
      Course.ofProgram visitor.queues.commands visitor.tileUnder 5 visitor.cursor =
        ⟨[.call .f2, .move .forward], [⟨1, 0, .right⟩], ⟨1, 0, .right⟩, .stopped .won⟩ := by
  obtain ⟨hreach, hshows⟩ := start_shows_ofProgram (s := visitor) (k := 5) rfl rfl (by decide)
    [.ofMillis 700, .ofMillis 800]
  exact ⟨hshows (hreach (by decide) (by decide)), by cbv⟩

end Session

end TileWalk
