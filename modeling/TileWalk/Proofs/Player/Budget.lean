import TileWalk.Proofs.Campaign.History
import TileWalk.Proofs.Player.Moves
import TileWalk.Proofs.Run.Rounds
import TileWalk.Proofs.Session.TimeLeft

/-!
What a budget does to the wait for a run. A player who is on time has waited once for each command
that was carried out (`OnTime`), so that a budget of waits is one of commands: a run that needs no
more goes on as without it, and any other is cut off after just as many commands
(`budget_cuts_exactly`). With a budget there is an end to all that a player does.
-/

namespace TileWalk

namespace Session

variable {s : Session} {run : Run}

theorem abort_of_running (hrun : s.run = some run) :
    (s.apply .abort).report = ⟨[.ended .cancelled run.executed], [.ended .cancelled run.executed]⟩ ∧
      (s.apply .abort).state.run = none ∧
      (s.apply .abort).state.lastOutcome = some .cancelled := by
  simp [Session.apply, applyWith, abort, cutOff, hrun, endRun, endingEvents]

end Session

namespace Player

/-- One round of the wait for a run: while one is in flight, the player makes the next move. -/
def round (p : Player) : Step (Round Player Player) :=
  if p.campaign.session.running then (p.perform p.next).map .again else .stay (.done p)

/-- The player with another budget, or with none. -/
def within (p : Player) (budget : Option UInt32) : Player :=
  { p with plan := { p.plan with budget } }

/-- The player has waited once for each command of the run in flight that was carried out, and the
command that waits has not waited yet. -/
structure OnTime (p : Player) : Prop where
  unfinished : p.finished = false
  reachable : p.campaign.session.Reachable
  fresh : ∀ run, p.campaign.session.run = some run →
    run.elapsed = .zero ∧ run.executed = p.waited

variable {p : Player} {run : Run} {budget : UInt32}

theorem onTime_launch (plan : PlayPlan) {c : Campaign} (hc : c.session.Reachable) :
    (launch ⟨plan, c, 0, false⟩).state.OnTime := by
  refine ⟨rfl, Campaign.reachable_applyAll hc _, fun run hrun => ?_⟩
  simp only [launch, applyAll_opening, Step.state_map, Step.state_next] at hrun
  exact Session.run_of_start (Campaign.reachable_applyAll hc _) hrun

/-! ### The rounds of a wait -/

theorem round_of_idle (hrun : p.campaign.session.run = none) : p.round = .stay (.done p) := by
  rw [round, Session.running, hrun]
  rfl

/-- The player waits for the command of the run in flight. -/
def await (p : Player) (run : Run) : Step Player :=
  p.perform (.wait (p.campaign.session.pacing.interval - run.elapsed))

theorem round_of_running (hp : p.OnTime) (hrun : p.campaign.session.run = some run) :
    p.round = if p.isSpent then (p.perform .abort).map .again else (p.await run).map .again := by
  have hround : p.round = (p.perform p.next).map .again := by
    rw [round, Session.running, hrun]
    rfl
  rw [hround, next, hp.unfinished, Session.timeLeft_eq hrun, if_neg Bool.false_ne_true]
  cases p.isSpent <;> rfl

theorem within_await (p : Player) (run : Run) (budget : Option UInt32) :
    (p.within budget).await run = (p.await run).map fun p => p.within budget := rfl

/-- A wait carries out one command, and the player is on time for the next. -/
theorem onTime_await (hp : p.OnTime) (hrun : p.campaign.session.run = some run) :
    (p.await run).report.operations.length = 1 ∧ (p.await run).state.OnTime := by
  obtain ⟨helapsed, hexecuted⟩ := hp.fresh run hrun
  have hflag := (hp.reachable.inFlight hrun).lowered
  have hpos : 0 < (p.campaign.session.pacing.interval - run.elapsed).nanos := by
    rw [helapsed, Duration.nanos_sub, Duration.nanos_zero, Nat.sub_zero]
    exact p.campaign.session.pacing.positive
  have htick : p.campaign.session.tick .replace _ = _ := Session.tick_left hrun hflag hpos
  constructor
  · show ((p.campaign.session.tick .replace _).report.operations).length = 1
    rw [htick, Step.report_next, Report.operations_append, Session.operations_arrive,
      Session.operations_carryOut]
    rfl
  · refine ⟨hp.unfinished, hp.reachable.apply _, fun after hafter => ?_⟩
    have hafter : (p.campaign.session.tick .replace _).state.run = some after := hafter
    rw [htick] at hafter
    obtain ⟨hzero, hcount⟩ := Session.run_arrive hafter
    exact ⟨hzero, hcount.trans (congrArg increment hexecuted)⟩

theorem OnTime.within (hp : p.OnTime) (budget : Option UInt32) : (p.within budget).OnTime :=
  ⟨hp.unfinished, hp.reachable, hp.fresh⟩

theorem isSpent_within_iff : (p.within (some budget)).isSpent = true ↔ budget ≤ p.waited :=
  decide_eq_true_iff

theorem not_isSpent (hfree : p.plan.budget = none) : ¬p.isSpent = true := by
  simp [isSpent, hfree]

theorem halts_of_idle (hrun : p.campaign.session.run = none) : Halts round 1 p (.stay p) :=
  .done (round_of_idle hrun)

/-- Once the budget is used up the run is cut off, after as many commands as there were waits. -/
theorem halts_of_spent (hp : p.OnTime) (hrun : p.campaign.session.run = some run)
    (hspent : p.isSpent = true) :
    ∃ last, last.outcome = some .cancelled ∧
      Halts round 2 p ⟨last, ⟨[.ended .cancelled p.waited], [.ended .cancelled p.waited]⟩⟩ := by
  obtain ⟨hreport, hidle, houtcome⟩ := Session.abort_of_running hrun
  have hreport : (p.perform .abort).report = _ := hreport
  rw [(hp.fresh run hrun).2] at hreport
  have hround := round_of_running hp hrun
  rw [if_pos hspent] at hround
  refine ⟨(p.perform .abort).state, houtcome, ?_⟩
  have hhalts := Halts.again hround (halts_of_idle hidle)
  simp only [Step.next, hreport, Step.state_stay, Step.report_stay, Report.append_empty] at hhalts
  exact hhalts

/-- What a budget has come to for a player on time who may yet wait this often: the run ends before
the waits are used up, or it is cut off when they are. -/
theorem ends_or_cut (hp : p.OnTime) (hfree : p.plan.budget = none) {left : Nat}
    (hleft : p.waited.toNat + left = budget.toNat) :
    (∃ rounds done, Halts round rounds p done ∧ done.report.operations.length ≤ left ∧
      Halts round rounds (p.within (some budget)) (done.map fun p => p.within (some budget))) ∨
    ∃ cut, Goes round left p cut ∧ cut.report.operations.length = left ∧ cut.state.OnTime ∧
      (∃ run, cut.state.campaign.session.run = some run) ∧ cut.state.plan.budget = none ∧
      ∃ last, last.outcome = some .cancelled ∧
        Halts round (left + 2) (p.within (some budget))
          ⟨last, cut.report ++ ⟨[.ended .cancelled budget], [.ended .cancelled budget]⟩⟩ := by
  -- with and without the budget the rounds are the same until no wait is left, which is just when
  -- the waits are as many as the budget
  induction left generalizing p with
  | zero =>
    cases hrun : p.campaign.session.run with
    | none => exact .inl ⟨1, .stay p, halts_of_idle hrun, Nat.le_refl 0, halts_of_idle hrun⟩
    | some run =>
      have hspent : p.waited = budget := UInt32.toNat_inj.mp hleft
      obtain ⟨last, houtcome, hlast⟩ := halts_of_spent (hp.within (some budget)) hrun
        (isSpent_within_iff.mpr (hspent ▸ UInt32.le_refl _))
      rw [show (p.within (some budget)).waited = budget from hspent] at hlast
      exact .inr ⟨.stay p, .here p, rfl, hp, ⟨run, hrun⟩, hfree, last, houtcome, hlast⟩
  | succ left ih =>
    cases hrun : p.campaign.session.run with
    | none => exact .inl ⟨1, .stay p, halts_of_idle hrun, Nat.zero_le _, halts_of_idle hrun⟩
    | some run =>
      have hspare : ¬(p.within (some budget)).isSpent = true := by
        rw [isSpent_within_iff, UInt32.le_iff_toNat_le]
        omega
      have hround := round_of_running hp hrun
      have hbound := round_of_running (hp.within (some budget)) hrun
      rw [if_neg (not_isSpent hfree)] at hround
      rw [if_neg hspare, within_await] at hbound
      obtain ⟨hone, hafter⟩ := onTime_await hp hrun
      have hwaited : (p.await run).state.waited.toNat + left = budget.toNat := by
        show (increment p.waited).toNat + left = _
        have hlt := budget.toNat_lt
        rw [toNat_increment]
        omega
      rcases ih hafter hfree hwaited with
        ⟨rounds, done, hdone, hcount, hbounded⟩ |
        ⟨cut, hgoes, hcount, hcut, hruns, hunbound, last, houtcome, hlast⟩
      · refine .inl ⟨rounds + 1, _, .again hround hdone, ?_, .again hbound hbounded⟩
        simp only [Step.report_next, Report.operations_append, List.length_append, hone]
        omega
      · refine .inr ⟨_, .again hround hgoes, ?_, hcut, hruns, hunbound, last, houtcome, ?_⟩
        · simp only [Step.report_next, Report.operations_append, List.length_append, hone, hcount]
          omega
        · rw [Step.report_next, Report.append_assoc]
          exact .again hbound hlast

/-- To the end of a run in flight there is a command to carry out. -/
theorem pos_operations_of_running (hp : p.OnTime) (hrun : p.campaign.session.run = some run)
    (hfree : p.plan.budget = none) {rounds : Nat} {done : Step Player}
    (hdone : Halts round rounds p done) : 0 < done.report.operations.length := by
  have hround := round_of_running hp hrun
  rw [if_neg (not_isSpent hfree)] at hround
  have hgoes : Goes round 1 p _ := .again hround (.here _)
  obtain ⟨_, rest, -, rfl⟩ := hgoes.halts hdone
  have hone := (onTime_await hp hrun).1
  simp only [Step.report_next, Report.operations_append, List.length_append, hone]
  omega

/-! ### The end of all moves -/

/-- The levels that the player may still go on to, and one for the end. -/
def ahead (p : Player) : Nat :=
  if p.finished then 0 else p.campaign.size - p.campaign.nextIndex + 1

/-- The waits and the end that a run in flight may still have. -/
def waitsLeft (p : Player) (budget : UInt32) : Nat :=
  budget.toNat - p.waited.toNat + if p.campaign.session.running then 1 else 0

theorem ahead_eq {after : Player} (hfinished : after.finished = p.finished)
    (hstays : p.campaign.StaysAt after.campaign) : after.ahead = p.ahead := by
  rw [ahead, ahead, hfinished, hstays.size, hstays.nextIndex]

theorem ahead_launch (p : Player) : p.launch.state.ahead = p.ahead :=
  ahead_eq rfl (staysAt_launch p)

theorem ahead_of_advances {step : Step Player} (hopen : p.finished = false)
    (h : p.Advances step) : step.state.plan = p.plan ∧ step.state.ahead < p.ahead := by
  have hahead : p.ahead = p.campaign.size - p.campaign.nextIndex + 1 := by
    rw [ahead, hopen, if_neg Bool.false_ne_true]
  cases h with
  | entered hlevel =>
    have hlt : p.campaign.nextIndex < p.campaign.size := LevelSource.lt_of_levelAt?_eq_some hlevel
    refine ⟨rfl, ?_⟩
    rw [state_enter hlevel, ahead_launch, hahead]
    show p.campaign.size - (p.campaign.nextIndex + 1) + 1 < _
    omega
  | completed hlast => exact ⟨rfl, hahead ▸ Nat.succ_pos _⟩
  | declined => exact ⟨rfl, hahead ▸ Nat.succ_pos _⟩

theorem waitsLeft_of_idle (hrun : p.campaign.session.run = none) :
    p.waitsLeft budget = budget.toNat - p.waited.toNat := by
  rw [waitsLeft, Session.running, hrun]
  rfl

theorem waitsLeft_of_running (hrun : p.campaign.session.run = some run) :
    p.waitsLeft budget = budget.toNat - p.waited.toNat + 1 := by
  rw [waitsLeft, Session.running, hrun]
  rfl

/-- With a budget each move leaves less to do. -/
theorem perform_descends (hbudget : p.plan.budget = some budget) (hmoves : p.next ≠ .stop) :
    (p.perform p.next).state.plan = p.plan ∧
      Prod.Lex (· < ·) (· < ·)
        ((p.perform p.next).state.ahead, (p.perform p.next).state.waitsLeft budget)
        (p.ahead, p.waitsLeft budget) := by
  have hmakes := p.next_cases
  generalize p.next = move at hmakes hmoves ⊢
  cases hmakes with
  | finished => contradiction
  | rest => contradiction
  | wait hopen hrun hspent =>
    refine ⟨rfl, Prod.lex_def.mpr (.inr ⟨ahead_eq rfl (Campaign.staysAt_apply _ _), ?_⟩)⟩
    have hspare : p.waited.toNat < budget.toNat := by
      rw [← UInt32.lt_iff_toNat_lt, ← UInt32.not_le, ← decide_eq_false_iff_not]
      simpa only [isSpent, hbudget] using hspent
    have hlt := budget.toNat_lt
    rw [waitsLeft_of_running hrun, waitsLeft]
    show budget.toNat - (increment p.waited).toNat + _ < _
    rw [toNat_increment]
    split <;> omega
  | abort hopen hrun hspent =>
    refine ⟨rfl, Prod.lex_def.mpr (.inr ⟨ahead_eq rfl (Campaign.staysAt_apply _ _), ?_⟩)⟩
    rw [waitsLeft_of_running hrun, waitsLeft_of_idle (Session.abort_of_running hrun).2.1]
    exact Nat.lt_succ_self _
  | goOn hopen =>
    obtain ⟨hplan, hless⟩ := ahead_of_advances hopen (advance_cases hopen)
    exact ⟨hplan, Prod.lex_def.mpr (.inl hless)⟩

theorem exists_moves_to_stop (p : Player) (hbudget : p.plan.budget = some budget) :
    ∃ moves, (p.play moves).state.next = .stop := by
  by_cases hstop : p.next = .stop
  · exact ⟨0, hstop⟩
  · obtain ⟨hplan, hless⟩ := perform_descends hbudget hstop
    obtain ⟨moves, hmoves⟩ := exists_moves_to_stop (p.perform p.next).state (hplan ▸ hbudget)
    exact ⟨moves + 1, hmoves⟩
termination_by (p.ahead, p.waitsLeft budget)
decreasing_by exact hless

open CommandLine in
/-- A budget of waits cuts off a run after as many commands, if it needs more, and else changes
nothing. A run that ends of itself after no more commands ends in the same way; any other goes on
as without the budget up to the last command that the budget allows, and then ends as cut off. So
whoever has a budget comes to an end with any catalog, script and options. -/
theorem budget_cuts_exactly (m : UInt32) :
    (∀ (plan : PlayPlan) (c : Campaign), c.session.Reachable →
      let free := launch ⟨{ plan with budget := none }, c, 0, false⟩
      let bound := launch ⟨{ plan with budget := some m }, c, 0, false⟩
      bound.report = free.report ∧
      (∀ rounds done, Halts round rounds free.state done →
        done.report.operations.length ≤ m.toNat →
          ∃ last, last.campaign = done.state.campaign ∧
            Halts round rounds bound.state ⟨last, done.report⟩) ∧
      ((∀ rounds done, Halts round rounds free.state done →
          m.toNat < done.report.operations.length) →
        ∃ cut, Goes round m.toNat free.state cut ∧ cut.report.operations.length = m.toNat ∧
          ∃ rounds last, last.outcome = some .cancelled ∧
            Halts round rounds bound.state
              ⟨last, cut.report ++ ⟨[.ended .cancelled m], [.ended .cancelled m]⟩⟩)) ∧
    ∀ (catalog : Catalog) (script : List ScriptLine) (options : Options) (step : Step Player),
      options.budget = some m → enterPlay catalog script options = .ok step →
        ∃ moves, (step.state.play moves).state.next = .stop := by
  refine ⟨fun plan c hc => ?_, fun catalog script options step hbudget hstep => ?_⟩
  · intro free bound
    have hfree : free.state.OnTime := onTime_launch _ hc
    have hbound : bound.state = free.state.within (some m) := rfl
    have hwaited : free.state.waited.toNat + m.toNat = m.toNat := Nat.zero_add _
    rw [hbound]
    refine ⟨rfl, ?_⟩
    rcases ends_or_cut hfree rfl hwaited with
      ⟨rounds, done, hdone, hcount, hbounded⟩ |
      ⟨cut, hgoes, hcount, hcut, ⟨run, hrun⟩, hunbound, last, houtcome, hlast⟩
    · refine ⟨fun rounds' done' hdone' _ => ?_, fun hlong => ?_⟩
      · obtain ⟨rfl, rfl⟩ := hdone.unique hdone'
        exact ⟨done.state.within (some m), rfl, hbounded⟩
      · exact absurd (hlong rounds done hdone) (Nat.not_lt.mpr hcount)
    · refine ⟨fun rounds done hdone hshort => ?_,
        fun _ => ⟨cut, hgoes, hcount, _, last, houtcome, hlast⟩⟩
      obtain ⟨_, rest, hrest, rfl⟩ := hgoes.halts hdone
      have hpos := pos_operations_of_running hcut hrun hunbound hrest
      rw [Step.report_next, Report.operations_append, List.length_append] at hshort
      omega
  · rcases enterPlay_cases catalog script options with ⟨level, -, henter⟩ | ⟨-, herror⟩
    · obtain rfl := Except.ok.inj (henter.symm.trans hstep)
      exact exists_moves_to_stop _ hbudget
    · rw [herror] at hstep
      contradiction

/-- The campaign on a level where a step ahead wins. -/
def onDoorstep : Campaign :=
  ((Campaign.ofSource Campaign.doorstep (.ofPacing .standard)).loadIndex 0).state.2

def oneStep : PlayPlan := ⟨[⟨.f1, .move .forward, none⟩], false, none⟩

open CommandLine in
/-- A budget of one lets the player win, and without any the run is cut off at once. Nor does a
subroutine that calls itself for ever keep a player with a budget from the end. -/
theorem doorstep_won_or_cut_off :
    (∃ rounds last, last.state.outcome = some .won ∧
      Halts round rounds (launch ⟨{ oneStep with budget := some 1 }, onDoorstep, 0, false⟩).state
        last) ∧
    (∃ rounds last, last.state.outcome = some .cancelled ∧
      last.report.events = [.ended .cancelled 0] ∧
      Halts round rounds (launch ⟨{ oneStep with budget := some 0 }, onDoorstep, 0, false⟩).state
        last) ∧
    ∃ step,
      enterPlay .builtin [⟨.f1, .call .f1, none⟩] { (default : Options) with budget := some 3 } =
        .ok step ∧
      ∃ moves, (step.state.play moves).state.next = .stop := by
  have hc : onDoorstep.session.Reachable := Campaign.reachable_loadIndex (.ofPacing .standard) 0
  have hdone : ∃ done,
      Halts round 2 (launch ⟨{ oneStep with budget := none }, onDoorstep, 0, false⟩).state done ∧
        done.report.operations.length = 1 ∧ done.state.outcome = some .won :=
    ⟨_, .again (if_pos (by decide)) (halts_of_idle (by decide)), by decide, by decide⟩
  obtain ⟨done, hdone, hcount, hwon⟩ := hdone
  obtain ⟨-, hends, -⟩ := (budget_cuts_exactly 1).1 oneStep onDoorstep hc
  obtain ⟨-, -, hcuts⟩ := (budget_cuts_exactly 0).1 oneStep onDoorstep hc
  refine ⟨?_, ?_, ?_⟩
  · obtain ⟨last, hlast, hhalts⟩ := hends 2 done hdone (hcount ▸ Nat.le_refl 1)
    exact ⟨2, _, (congrArg (fun c => c.session.lastOutcome) hlast).trans hwon, hhalts⟩
  · obtain ⟨cut, hgoes, -, rounds, last, houtcome, hhalts⟩ := hcuts fun rounds other hother => by
      rw [← (hdone.unique hother).2, hcount]
      exact Nat.zero_lt_one
    cases hgoes
    exact ⟨rounds, _, houtcome, rfl, hhalts⟩
  · rcases enterPlay_cases .builtin [⟨.f1, .call .f1, none⟩]
      { (default : Options) with budget := some 3 } with ⟨level, -, henter⟩ | ⟨hnone, -⟩
    · exact ⟨_, henter, (budget_cuts_exactly 3).2 _ _ _ _ rfl henter⟩
    · exact absurd hnone (by decide +kernel)

end Player

end TileWalk
