import TileWalk.Proofs.Session.InFlight

/-!
The time of a run in flight is accounted for to the nanosecond: what ticks delivered is what the
executed commands took, each at the pacing of its moment, and what the waiting command has waited
(`delivered_eq_sum_intervals`).
-/

namespace TileWalk

/-- The time in nanoseconds that an action lets pass. -/
def Action.nanos : Action → Nat
  | .tick elapsed => elapsed.nanos
  | _ => 0

/-- The time in nanoseconds that some actions let pass. -/
def delivered (actions : List Action) : Nat :=
  (actions.map Action.nanos).sum

@[simp] theorem delivered_cons (action : Action) (actions : List Action) :
    delivered (action :: actions) = action.nanos + delivered actions := rfl

namespace Session

/-- An action that lets a run wait: a tick whose time fits, a change of the pacing, or any action
that is refused. -/
inductive LetsWait (s : Session) : Action → Prop
  | tick (elapsed : Duration) (hfit : s.Fits elapsed.nanos) : LetsWait s (.tick elapsed)
  | pace (interval : Duration) : LetsWait s (.pace interval)
  | refused {action : Action} {reason : Refusal}
      (h : .refused reason ∈ (s.apply action).report.events) : LetsWait s action

/-- Actions each of which lets a run wait when its turn comes. -/
def LetWait (s : Session) : List Action → Prop
  | [] => True
  | action :: actions => s.LetsWait action ∧ (s.apply action).state.LetWait actions

/-- For each command that some actions execute, the pacing interval in force at its execution. -/
def intervals (s : Session) : List Action → List Duration
  | [] => []
  | action :: actions =>
    let step := s.apply action
    step.report.operations.map (fun _ => s.pacing.interval) ++ step.state.intervals actions

/-- Actions each of which leaves the pacing as it is. -/
def Steady (s : Session) : List Action → Prop
  | [] => True
  | action :: actions =>
    (s.apply action).state.pacing = s.pacing ∧ (s.apply action).state.Steady actions

/-! ### One action -/

theorem nanos_of_refused {s : Session} {action : Action} {reason : Refusal}
    (h : .refused reason ∈ (s.apply action).report.events) : action.nanos = 0 := by
  cases action with
  | tick elapsed => exact absurd h (s.accepted_tick elapsed reason)
  | _ => rfl

theorem apply_of_letsWait {s : Session} {action : Action} {after : Run}
    (hwait : s.LetsWait action) (hafter : (s.apply action).state.run = some after) :
    ∃ run, s.run = some run ∧
      run.elapsed.nanos + action.nanos =
        (s.apply action).report.operations.length * s.pacing.interval.nanos +
          after.elapsed.nanos ∧
      (run.elapsed.nanos < s.pacing.interval.nanos →
        after.elapsed.nanos < s.pacing.interval.nanos) := by
  cases hwait with
  | tick elapsed hfit =>
    obtain ⟨run, hrun, helapsed, hcount⟩ := tick_running hafter
    have hsum := s.pacing.due_mul_add_leftover (run.elapsed + elapsed)
    rw [Duration.nanos_add_of_le (hfit run hrun)] at hsum
    refine ⟨run, hrun, ?_, fun _ => helapsed ▸ s.pacing.leftover_lt _⟩
    show _ + elapsed.nanos = (s.tick .replace elapsed).report.operations.length * _ + _
    rw [hcount, helapsed, hsum]
  | pace interval =>
    have hsame : (s.pace interval).state.run = s.run ∧
        (s.pace interval).report.operations = [] := by
      unfold pace
      split <;> exact ⟨rfl, rfl⟩
    have hrun : s.run = some after := hsame.1 ▸ hafter
    refine ⟨after, hrun, ?_, id⟩
    show _ + 0 = (s.pace interval).report.operations.length * _ + _
    rw [hsame.2, List.length_nil]
    omega
  | refused h =>
    have hnanos := nanos_of_refused h
    rw [apply_eq_refuse h] at hafter ⊢
    refine ⟨after, hafter, ?_, id⟩
    show _ + action.nanos = 0 * _ + _
    omega

theorem pacing_start (s : Session) : (s.apply .start).state.pacing = s.pacing := by
  simp only [Session.apply, applyWith, start]
  split
  · rfl
  · simp only [Step.state_next, pacing_launch, state_cutOff]

/-! ### All actions -/

theorem applyAll_of_letWait {s : Session} {actions : List Action} {after : Run}
    (hwait : s.LetWait actions) (hafter : (s.applyAll actions).state.run = some after) :
    ∃ run, s.run = some run ∧
      run.elapsed.nanos + delivered actions =
        ((s.intervals actions).map Duration.nanos).sum + after.elapsed.nanos := by
  induction actions generalizing s with
  | nil => exact ⟨after, hafter, by simp [delivered, intervals]⟩
  | cons action actions ih =>
    obtain ⟨middle, hmiddle, hrest⟩ := ih hwait.2 hafter
    obtain ⟨run, hrun, hfirst, -⟩ := apply_of_letsWait hwait.1 hmiddle
    refine ⟨run, hrun, ?_⟩
    rw [delivered_cons, intervals, List.map_append, List.sum_append, List.map_const',
      List.map_replicate, List.sum_replicate_nat]
    omega

theorem Steady.pacing_applyAll {s : Session} {actions : List Action} (h : s.Steady actions) :
    (s.applyAll actions).state.pacing = s.pacing := by
  induction actions generalizing s with
  | nil => rfl
  | cons action actions ih => exact (ih h.2).trans h.1

theorem sum_intervals_of_steady {s : Session} {actions : List Action} (h : s.Steady actions) :
    ((s.intervals actions).map Duration.nanos).sum =
      (s.applyAll actions).report.operations.length * s.pacing.interval.nanos := by
  induction actions generalizing s with
  | nil => simp [intervals]
  | cons action actions ih =>
    obtain ⟨hpacing, hrest⟩ := h
    rw [intervals, List.map_append, List.sum_append, List.map_const', List.map_replicate,
      List.sum_replicate_nat, ih hrest, hpacing, applyAll_cons, Step.report_next,
      Report.operations_append, List.length_append, Nat.add_mul]

theorem elapsed_lt_of_steady {s : Session} {actions : List Action} {after : Run}
    (hsteady : s.Steady actions) (hwait : s.LetWait actions)
    (hlt : ∀ run, s.run = some run → run.elapsed.nanos < s.pacing.interval.nanos)
    (hafter : (s.applyAll actions).state.run = some after) :
    after.elapsed.nanos < s.pacing.interval.nanos := by
  induction actions generalizing s with
  | nil => exact hlt after hafter
  | cons action actions ih =>
    obtain ⟨hpacing, hrest⟩ := hsteady
    rw [← hpacing]
    refine ih hrest hwait.2 (fun middle hmiddle => ?_) hafter
    obtain ⟨run, hrun, -, hkept⟩ := apply_of_letsWait hwait.1 hmiddle
    rw [hpacing]
    exact hkept (hlt run hrun)

/-- From the start of a run on, and as long as it is in flight, the time delivered is the time that
the executed commands took and the time that the waiting command has waited. At a steady pacing the
number of executed commands and the time left are the quotient and what the remainder lacks. -/
theorem delivered_eq_sum_intervals {s : Session} (hs : s.Reachable) {actions : List Action}
    {run : Run} (hwait : (s.apply .start).state.LetWait actions)
    (hrun : ((s.apply .start).state.applyAll actions).state.run = some run) :
    delivered actions =
        (((s.apply .start).state.intervals actions).map Duration.nanos).sum +
          run.elapsed.nanos ∧
      ((s.apply .start).state.Steady actions →
        ((s.apply .start).state.applyAll actions).report.operations.length =
            delivered actions / s.pacing.interval.nanos ∧
          ∃ left, ((s.apply .start).state.applyAll actions).state.timeLeft = some left ∧
            left.nanos = s.pacing.interval.nanos -
              delivered actions % s.pacing.interval.nanos) := by
  obtain ⟨first, hfirst, hsum⟩ := applyAll_of_letWait hwait hrun
  have hzero : first.elapsed.nanos = 0 := by
    rw [(run_of_start hs hfirst).1, Duration.nanos_zero]
  rw [hzero, Nat.zero_add] at hsum
  refine ⟨hsum, fun hsteady => ?_⟩
  have hlt : run.elapsed.nanos < s.pacing.interval.nanos := by
    rw [← s.pacing_start]
    refine elapsed_lt_of_steady hsteady hwait (fun run' hrun' => ?_) hrun
    rw [(run_of_start hs hrun').1]
    exact Pacing.positive _
  rw [sum_intervals_of_steady hsteady, s.pacing_start] at hsum
  have hpos := s.pacing.positive
  constructor
  · rw [hsum, Nat.mul_comm, Nat.mul_add_div hpos, Nat.div_eq_of_lt hlt, Nat.add_zero]
  · have hmod : delivered actions % s.pacing.interval.nanos = run.elapsed.nanos := by
      rw [hsum, Nat.mul_comm, Nat.mul_add_mod, Nat.mod_eq_of_lt hlt]
    refine ⟨s.pacing.interval - run.elapsed, ?_, ?_⟩
    · rw [timeLeft, hrun, hsteady.pacing_applyAll, s.pacing_start]
      rfl
    · rw [hmod, Duration.nanos_sub]

theorem delivered_to_spinner :
    delivered [.tick (.ofMillis 250), .takeBack, .pace (.ofMillis 300), .tick (.ofMillis 800)] =
        3 * 300000000 + 150000000 ∧
      ((spinner.apply .start).state.applyAll
          [.tick (.ofMillis 250), .takeBack, .pace (.ofMillis 300), .tick (.ofMillis 800)]
        ).report.operations.length = 1050 / 300 := by
  have hwait : (spinner.apply .start).state.LetWait
      [.tick (.ofMillis 250), .takeBack, .pace (.ofMillis 300), .tick (.ofMillis 800)] :=
    ⟨.tick _ (by decide), .refused (show Event.refused .running ∈ _ by decide), .pace _,
      .tick _ (by decide), trivial⟩
  have hsteady : (spinner.apply .start).state.Steady
      [.tick (.ofMillis 250), .takeBack, .pace (.ofMillis 300), .tick (.ofMillis 800)] :=
    ⟨by decide, by decide, by decide, by decide, trivial⟩
  obtain ⟨hsum, hcount⟩ := delivered_eq_sum_intervals reachable_spinner hwait rfl
  exact ⟨hsum.trans (by decide), (hcount hsteady).1⟩

end Session

end TileWalk
