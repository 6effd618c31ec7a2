import Mathlib.Algebra.Ring.Nat
import TileWalk.Proofs.Run.Execution
import TileWalk.Proofs.Session.Reachable

/-!
How time passes for a run in flight. Time adds up: a tick after a tick is one tick of their sum
(`tick_tick`), so what a list of ticks does depends on the sum alone (`ticks_eq_of_sum_eq`).
-/

namespace TileWalk

@[simp] theorem Step.stay_next {σ τ : Type} (s : σ) (f : σ → Step τ) : (stay s).next f = f s := by
  simp [next, stay]

namespace Duration

theorem add_assoc (a b c : Duration) : a + b + c = a + (b + c) := by
  apply Duration.ext_nanos
  simp only [nanos_add]
  omega

theorem add_zero (a : Duration) : a + zero = a := by
  apply Duration.ext_nanos
  have := a.nanos_le
  simp only [nanos_add, nanos_zero]
  omega

/-- The sum of some spans, or the longest span if the sum is longer. -/
def total (spans : List Duration) : Duration :=
  spans.foldr (· + ·) zero

@[simp] theorem total_nil : total [] = zero := rfl

@[simp] theorem total_cons (d : Duration) (spans : List Duration) :
    total (d :: spans) = d + total spans := rfl

theorem nanos_total (spans : List Duration) :
    (total spans).nanos = min (spans.map nanos).sum maxNanos := by
  induction spans with
  | nil => rfl
  | cons d spans ih =>
    have := d.nanos_le
    rw [total_cons, nanos_add, ih, List.map_cons, List.sum_cons]
    omega

end Duration

namespace Pacing

/-- The commands due after a wait and another one fall due in the first, or in the second and what
the first left over. -/
theorem due_add {p : Pacing} {a b : Duration} (h : a.nanos + b.nanos ≤ maxNanos) :
    p.due (a + b) = p.due a + p.due (p.leftover a + b) ∧
      p.leftover (a + b) = p.leftover (p.leftover a + b) := by
  have hmod : (p.leftover a).nanos = a.nanos % p.interval.nanos := rfl
  have hle := Nat.mod_le a.nanos p.interval.nanos
  have hleft : (p.leftover a + b).nanos = a.nanos % p.interval.nanos + b.nanos := by
    rw [Duration.nanos_add_of_le (by omega), hmod]
  have hsum : a.nanos + b.nanos =
      p.interval.nanos * (a.nanos / p.interval.nanos) + (p.leftover a + b).nanos := by
    have := Nat.div_add_mod a.nanos p.interval.nanos
    omega
  constructor
  · rw [due, due, due, Duration.nanos_add_of_le h, hsum, Nat.mul_add_div p.positive]
  · apply Duration.ext_nanos
    show (a + b).nanos % _ = (p.leftover a + b).nanos % _
    rw [Duration.nanos_add_of_le h, hsum, Nat.mul_add_mod]

end Pacing

namespace Session

variable {policy : TailCall}

/-- The waiting command, if any, can wait this many nanoseconds longer before its waiting time
saturates. -/
def Fits (s : Session) (nanos : Nat) : Prop :=
  ∀ run, s.run = some run → run.elapsed.nanos + nanos ≤ maxNanos

instance (s : Session) (nanos : Nat) : Decidable (s.Fits nanos) :=
  inferInstanceAs (Decidable (∀ run ∈ s.run, run.elapsed.nanos + nanos ≤ maxNanos))

theorem Fits.mono {s : Session} {m n : Nat} (h : s.Fits n) (hmn : m ≤ n) : s.Fits m :=
  fun run hrun => Nat.le_trans (Nat.add_le_add_left hmn _) (h run hrun)

theorem tick_of_idle {s : Session} (hrun : s.run = none) (elapsed : Duration) :
    s.tick policy elapsed = .stay s := by
  simp only [tick, hrun]

theorem tick_of_running {s : Session} {run : Run} (hrun : s.run = some run) (elapsed : Duration) :
    s.tick policy elapsed = s.elapse policy run elapsed := by
  simp only [tick, hrun]

/-- Where a run arrives does not depend on where it was before. -/
theorem arrive_congr (s : Session) (cursor : Cursor) (run : Option Run) (stage : Stage)
    (elapsed : Duration) :
    { s with cursor, run }.arrive stage elapsed = s.arrive stage elapsed := by
  simp only [arrive]
  cases stage.pause <;> rfl

/-- The stage at which a run in flight waits. -/
def stage (s : Session) (run : Run) : Stage :=
  ⟨s.cursor, run.executed, .waiting run.stack run.command⟩

theorem arrive_stage {s : Session} {run : Run} (hrun : s.run = some run) :
    s.arrive (s.stage run) run.elapsed = .stay s := by
  cases s
  simp_all [arrive, stage]

/-- A run that arrives at a stage and then waits executes what falls due and arrives with the
rest of the time. -/
theorem arrive_tick {s : Session} (hflag : s.cancelled = false) (stage : Stage)
    (elapsed d : Duration) :
    ((s.arrive stage elapsed).next fun s => s.tick policy d) =
      (Run.executeDue policy s.queues.commands s.tileUnder (s.pacing.due (elapsed + d)) stage).next
        fun stage => s.arrive stage (s.pacing.leftover (elapsed + d)) := by
  cases hpause : stage.pause with
  | finished outcome =>
    -- nothing executes, and without a run neither tick nor leftover time does anything
    rw [Run.executeDue_of_finished hpause, Step.stay_next]
    have hidle : (s.arrive stage elapsed).state.run = none := by
      simp only [arrive, hpause, endRun]
    have hsame : s.arrive stage elapsed = s.arrive stage (s.pacing.leftover (elapsed + d)) := by
      simp only [arrive, hpause]
    rw [← hsame, Step.next, tick_of_idle hidle]
    exact Step.next_stay _
  | waiting stack command =>
    obtain ⟨cursor, executed, pause⟩ := stage
    dsimp only at hpause
    subst hpause
    have harrive : s.arrive ⟨cursor, executed, .waiting stack command⟩ elapsed =
        .stay { s with cursor, run := some ⟨stack, command, elapsed, executed⟩ } := rfl
    rw [harrive, Step.stay_next, tick_of_running rfl, elapse, if_neg (by simp [hflag])]
    simp only [arrive_congr]
    rfl

/-- Time passes for a run whose flag is clear. -/
theorem tick_eq {s : Session} {run : Run} (hrun : s.run = some run) (hflag : s.cancelled = false)
    (d : Duration) :
    s.tick policy d =
      (Run.executeDue policy s.queues.commands s.tileUnder (s.pacing.due (run.elapsed + d))
        (s.stage run)).next fun stage => s.arrive stage (s.pacing.leftover (run.elapsed + d)) := by
  rw [← arrive_tick hflag, arrive_stage hrun, Step.stay_next]

/-- A run in flight whose flag is raised ends as soon as a command falls due. -/
theorem tick_of_cancelled {s : Session} {run : Run} (hrun : s.run = some run)
    (hflag : s.cancelled = true) (d : Duration) :
    s.tick policy d =
      if 0 < s.pacing.due (run.elapsed + d) then s.endRun .cancelled run.executed
      else .stay { s with run := some { run with elapsed := run.elapsed + d } } := by
  rw [tick_of_running hrun, elapse]
  split
  · next h => rw [if_pos h.2]
  · next h =>
    have hdue : s.pacing.due (run.elapsed + d) = 0 := by
      have : ¬0 < s.pacing.due (run.elapsed + d) := fun hpos => h ⟨hflag, hpos⟩
      omega
    have hleft : s.pacing.leftover (run.elapsed + d) = run.elapsed + d := by
      apply Duration.ext_nanos
      exact Nat.mod_eq_of_lt ((Pacing.due_eq_zero_iff _ _).mp hdue)
    rw [if_neg (by omega), hdue, hleft]
    rfl

/-- A tick and then another one are one tick of the sum. -/
theorem tick_tick {s : Session} {a b : Duration} (hfit : s.Fits (a.nanos + b.nanos)) :
    ((s.tick policy a).next fun s => s.tick policy b) = s.tick policy (a + b) := by
  cases hrun : s.run with
  | none => rw [tick_of_idle hrun, tick_of_idle hrun, Step.stay_next, tick_of_idle hrun]
  | some run =>
    have hle := hfit run hrun
    have hsum : (run.elapsed + a).nanos + b.nanos ≤ maxNanos := by
      rw [Duration.nanos_add_of_le (by omega)]
      omega
    obtain ⟨hdue, hleft⟩ := Pacing.due_add (p := s.pacing) hsum
    rw [Duration.add_assoc] at hdue hleft
    cases hflag : s.cancelled with
    | false =>
      rw [tick_eq hrun hflag, tick_eq hrun hflag, hdue, hleft, Run.executeDue_add,
        Step.next_assoc, Step.next_assoc]
      simp only [arrive_tick hflag]
    | true =>
      -- the run ends in the tick in which a command falls due, the first one or the second
      rw [tick_of_cancelled hrun hflag, tick_of_cancelled hrun hflag]
      by_cases hpos : 0 < s.pacing.due (run.elapsed + a)
      · rw [if_pos hpos, if_pos (by omega), Step.next, tick_of_idle rfl]
        exact Step.next_stay _
      · rw [if_neg hpos, Step.stay_next, tick_of_cancelled
          (s := { s with run := some { run with elapsed := run.elapsed + a } }) rfl hflag]
        simp only [Duration.add_assoc]
        rfl

/-- A run that a tick leaves in flight executed all that fell due and waits with the rest. -/
theorem tick_running {s : Session} {d : Duration} {after : Run}
    (h : (s.tick policy d).state.run = some after) :
    ∃ run, s.run = some run ∧ after.elapsed = s.pacing.leftover (run.elapsed + d) ∧
      (s.tick policy d).report.operations.length = s.pacing.due (run.elapsed + d) := by
  cases hrun : s.run with
  | none =>
    rw [tick_of_idle hrun, Step.state_stay, hrun] at h
    contradiction
  | some run =>
    refine ⟨run, rfl, ?_⟩
    rw [tick_of_running hrun] at h ⊢
    rw [elapse] at h ⊢
    split at h
    · simp [endRun] at h
    · next hflag =>
      rw [if_neg hflag]
      generalize hstages : Run.executeDue policy s.queues.commands s.tileUnder
        (s.pacing.due (run.elapsed + d)) ⟨s.cursor, run.executed, .waiting run.stack run.command⟩
        = stages at h ⊢
      cases hpause : stages.state.pause with
      | finished outcome => simp [arrive, hpause, endRun] at h
      | waiting stack command =>
        have hcount := Run.length_operations_of_waiting (hstages ▸ hpause)
        simp only [Step.state_next, arrive, hpause, Step.state_stay, Option.some.injEq] at h
        subst h
        refine ⟨rfl, ?_⟩
        simp only [Step.report_next, arrive, hpause, Step.report_stay, Report.append_empty]
        exact hstages ▸ hcount

theorem Fits.tick {s : Session} {d : Duration} {n : Nat} (hfit : s.Fits (d.nanos + n)) :
    (s.tick policy d).state.Fits n := by
  intro after h
  obtain ⟨run, hrun, helapsed, -⟩ := tick_running h
  have hle := hfit run hrun
  have hmod := Nat.mod_le (run.elapsed + d).nanos s.pacing.interval.nanos
  have hleft : after.elapsed.nanos = (run.elapsed + d).nanos % s.pacing.interval.nanos := by
    rw [helapsed]
    rfl
  rw [Duration.nanos_add] at hmod hleft
  omega

/-- Some ticks are one tick of their sum. -/
theorem applyAll_ticks {s : Session} {spans : List Duration} (hne : spans ≠ [])
    (hfit : s.Fits (spans.map Duration.nanos).sum) :
    s.applyAll (spans.map .tick) = s.tick .replace (Duration.total spans) := by
  induction spans generalizing s with
  | nil => contradiction
  | cons d rest ih =>
    rw [List.map_cons, List.sum_cons] at hfit
    rw [Duration.total_cons]
    show ((s.tick .replace d).next fun s => s.applyAll (rest.map .tick)) = _
    by_cases hrest : rest = []
    · subst hrest
      rw [Duration.total_nil, Duration.add_zero]
      exact Step.next_stay _
    · have htotal : (Duration.total rest).nanos ≤ (rest.map Duration.nanos).sum := by
        rw [Duration.nanos_total]
        omega
      rw [← tick_tick (hfit.mono (Nat.add_le_add_left htotal _)), Step.next, ih hrest hfit.tick]
      rfl

/-- How time is sliced into ticks does not matter: two lists of ticks of the same sum lead to equal
sessions by equal reports. Two ticks are one tick of their sum. -/
theorem ticks_eq_of_sum_eq {s : Session} {xs ys : List Duration} (hx : xs ≠ []) (hy : ys ≠ [])
    (hsum : (xs.map Duration.nanos).sum = (ys.map Duration.nanos).sum)
    (hfit : s.Fits (xs.map Duration.nanos).sum) :
    s.applyAll (xs.map .tick) = s.applyAll (ys.map .tick) ∧
      ∀ a b, xs = [a, b] → s.applyAll (xs.map .tick) = s.apply (.tick (a + b)) := by
  constructor
  · have htotal : Duration.total xs = Duration.total ys := by
      apply Duration.ext_nanos
      rw [Duration.nanos_total, Duration.nanos_total, hsum]
    rw [applyAll_ticks hx hfit, applyAll_ticks hy (hsum ▸ hfit), htotal]
  · rintro a b rfl
    rw [applyAll_ticks hx hfit, Duration.total_cons, Duration.total_cons, Duration.total_nil,
      Duration.add_zero]
    rfl

/-- The spinner with a backlog: its command has waited for 250 ms when the interval shrinks. -/
def behind : Session :=
  (spinner.applyAll
    [.start, .tick (.ofMillis 250), .pace (.ofMillis 100)]).state

theorem ticks_behind :
    behind.applyAll [.tick .zero, .tick (.ofMillis 70)] =
        behind.applyAll [.tick (.ofMillis 30), .tick (.ofMillis 40)] ∧
      behind.applyAll [.tick .zero, .tick (.ofMillis 70)] = behind.apply (.tick (.ofMillis 70)) ∧
      (behind.apply (.tick (.ofMillis 70))).report.operations.length = 3 := by
  have hticks := @ticks_eq_of_sum_eq behind [.zero, .ofMillis 70] [.ofMillis 30, .ofMillis 40]
    (by decide) (by decide) (by decide) (by decide)
  have hzero : Duration.zero + .ofMillis 70 = .ofMillis 70 := by decide
  have hslices := hticks.2 _ _ rfl
  rw [hzero] at hslices
  exact ⟨hticks.1, hslices, by decide⟩

end Session

end TileWalk
