import TileWalk.Proofs.Catalog.Acceptance
import TileWalk.Proofs.Player.Moves
import TileWalk.Proofs.Session.Episode

/-!
Where a player comes in a catalog. On each level there is one run: it is in flight or has ended
(`Campaign.Standing`), and every move keeps it so. A player who stops has played the levels from the
first one on in their order, and has won each but the last (`journey_through_catalog`).
-/

namespace TileWalk

namespace Campaign

variable {c after : Campaign} {source : LevelSource} {index : Nat} {action : Action}
  {outcomes : List Outcome}

/-! ### The run on a level -/

/-- The campaign is on the level at an index of the source. -/
structure At (c : Campaign) (source : LevelSource) (index : Nat) : Prop where
  source : c.source = source
  loaded : c.loaded = some index
  incomplete : c.complete = false

theorem At.stays (h : c.At source index) (hstays : c.StaysAt after) : after.At source index :=
  ⟨hstays.source.trans h.source, hstays.loaded.trans h.loaded,
    hstays.complete.trans h.incomplete⟩

/-- The run on the loaded level is in flight, or it has ended as listed; a win has unlocked the next
level. -/
inductive Standing (c : Campaign) : List Outcome → Prop
  | running (hrun : c.session.run.isSome = true) (hlocked : c.unlocked = false) : Standing c []
  | ended {outcome : Outcome} (hidle : c.session.run = none)
      (hlast : c.session.lastOutcome = some outcome)
      (hunlocked : c.unlocked = true ↔ outcome = .won) : Standing c [outcome]

theorem standing_follow (hopen : c.complete = false) (hlocked : c.unlocked = false)
    {step : Step Session} (h : Session.RunsOn step) :
    (c.follow step).state.Standing (outcomesOf step.report.events) := by
  cases h with
  | waits hrun houtcomes hvictory =>
    rw [houtcomes]
    exact .running hrun (by simp [follow, hvictory, hlocked])
  | ends outcome hidle hlast houtcomes hvictory =>
    rw [houtcomes]
    refine .ended hidle hlast ?_
    rw [← hvictory]
    simp [follow, hopen, hlocked]

/-- On a level nothing tells of a level or of the end of the campaign. -/
theorem tell_apply (c : Campaign) (action : Action) :
    Tell (c.apply action).report.events (outcomesOf (c.apply action).report.events) := by
  cases action with
  | load level => exact .nil
  | _ =>
    rw [apply_eq id, report_follow]
    refine ⟨fun level hmem => ?_, Session.complete_not_mem_apply _ _, rfl⟩
    cases Session.eq_load_of_mem hmem

/-- A run can be launched: none is in flight, and nothing has been won. -/
structure Ready (c : Campaign) : Prop where
  idle : c.session.run = none
  level : c.session.level.isSome = true
  incomplete : c.complete = false
  locked : c.unlocked = false

theorem Ready.follow (hc : c.Ready) {step : Step Session} (hidle : step.state.run = none)
    (hlevel : step.state.level = c.session.level) (hvictory : .victory ∉ step.report.events) :
    (c.follow step).state.Ready where
  idle := hidle
  level := (congrArg Option.isSome hlevel).trans hc.level
  incomplete := hc.incomplete
  locked := (if_neg hvictory).trans hc.locked

theorem ready_submit (hc : c.Ready) (line : ScriptLine) :
    (c.apply line.action).state.Ready ∧ Tell (c.apply line.action).report.events [] := by
  obtain ⟨hidle, houtcomes, hvictory⟩ := Session.submit_of_idle hc.idle
    line.command.operation.label (line.command.condition.map Color.label) (.slot line.subroutine)
  have htell := c.tell_apply line.action
  rw [ScriptLine.action, apply_eq id, report_follow] at htell ⊢
  rw [houtcomes] at htell
  exact ⟨hc.follow hidle (Session.level_apply _ _) hvictory, htell⟩

theorem ready_script (hc : c.Ready) (script : List ScriptLine) :
    (c.applyAll (script.map ScriptLine.action)).state.Ready ∧
      Tell (c.applyAll (script.map ScriptLine.action)).report.events [] := by
  induction script generalizing c with
  | nil => exact ⟨hc, .nil⟩
  | cons line script ih =>
    obtain ⟨hnext, hline⟩ := ready_submit hc line
    obtain ⟨hready, hrest⟩ := ih hnext
    rw [List.map_cons, applyAll_cons, Step.state_next, Step.report_next, Report.events_append]
    exact ⟨hready, hline.append hrest⟩

theorem standing_start (hc : c.Ready) :
    (c.apply .start).state.Standing (outcomesOf (c.apply .start).report.events) := by
  rw [apply_eq id, Session.start_of_idle hc.level hc.idle]
  exact standing_follow hc.incomplete hc.locked (Session.runsOn_launch _)

end Campaign

namespace Player

open Campaign

variable {p : Player} {plan : PlayPlan} {c : Campaign} {source : LevelSource} {index : Nat}
  {level : Level} {levels : List Level} {outcomes : List Outcome}

theorem standing_launch (hc : c.Ready) (plan : PlayPlan) :
    ∃ outcomes, (launch ⟨plan, c, 0, false⟩).state.campaign.Standing outcomes ∧
      Tell (launch ⟨plan, c, 0, false⟩).report.events outcomes := by
  obtain ⟨hready, hscript⟩ := ready_script hc plan.script
  have hstart := standing_start hready
  simp only [launch, applyAll_opening, Step.state_map, Step.report_map]
  exact ⟨_, hstart, hscript.append (tell_apply _ .start)⟩

/-- A player who enters a level tells of the level first. -/
theorem enter_tells (hlevel : c.source.levelAt? index = some level)
    (hidle : c.session.run = none) (plan : PlayPlan) :
    (enter plan c index).state.campaign.At c.source index ∧
      ∃ outcomes rest, (enter plan c index).report.events = .level level :: rest ∧
        (enter plan c index).state.campaign.Standing outcomes ∧ Tell rest outcomes := by
  obtain ⟨hstate, hevents⟩ := Session.load_of_idle hidle level
  have hready : (c.onIndex (c.session.onLevel level) index).Ready := ⟨hidle, rfl, rfl, rfl⟩
  obtain ⟨outcomes, hstands, htell⟩ := standing_launch hready plan
  have henter : (enter plan c index).report.events =
      (c.loadIndex index).report.events ++
        (launch ⟨plan, c.onIndex (c.session.onLevel level) index, 0, false⟩).report.events := by
    rw [enter, Step.report_next, Report.events_append, state_loadIndex hlevel, hstate]
  rw [henter, state_enter hlevel, events_loadIndex hlevel, hstate, hevents]
  have hat : (c.onIndex (c.session.onLevel level) index).At c.source index := ⟨rfl, rfl, rfl⟩
  exact ⟨hat.stays (staysAt_launch ⟨plan, _, 0, false⟩), outcomes, _, rfl, hstands,
    (Session.tell_queueEvents _ _).append htell⟩

/-! ### The levels that are played -/

/-- The levels from one index to another, each but the last won. -/
inductive Journey (levels : List Level) (continues : Bool) :
    Nat → List Episode → Nat → Outcome → Prop
  | ends {index : Nat} {level : Level} {outcome : Outcome} (hlevel : levels[index]? = some level)
      (hlast : continues = true → outcome = .won → index + 1 = levels.length) :
      Journey levels continues index [⟨level, [outcome]⟩] index outcome
  | goesOn {first last : Nat} {level : Level} {outcome : Outcome} {episodes : List Episode}
      (hlevel : levels[first]? = some level) (hcontinues : continues = true)
      (hrest : Journey levels continues (first + 1) episodes last outcome) :
      Journey levels continues first (⟨level, [.won]⟩ :: episodes) last outcome

theorem Journey.spec {continues : Bool} {first last : Nat} {episodes : List Episode}
    {outcome : Outcome} (h : Journey levels continues first episodes last outcome) :
    first ≤ last ∧ (continues = false → last = first) ∧
      (continues = true → outcome = .won → last + 1 = levels.length) ∧
      ∃ level, levels[last]? = some level ∧
        episodes = ((levels.drop first).take (last - first)).map (fun level => ⟨level, [.won]⟩) ++
          [⟨level, [outcome]⟩] := by
  induction h with
  | @ends index level outcome hlevel hlast =>
    exact ⟨Nat.le_refl _, fun _ => rfl, hlast, level, hlevel, by simp⟩
  | @goesOn first last level outcome episodes hlevel hcontinues _ ih =>
    obtain ⟨hle, -, hlast, final, hfinal, hepisodes⟩ := ih
    have hgoesOn : ¬continues = false := by simp [hcontinues]
    refine ⟨Nat.le_of_succ_le hle, fun h => absurd h hgoesOn, hlast, final, hfinal, ?_⟩
    obtain ⟨hlt, rfl⟩ := List.getElem?_eq_some_iff.mp hlevel
    rw [List.drop_eq_getElem_cons hlt, show last - first = last - (first + 1) + 1 by omega,
      List.take_succ_cons, List.map_cons, hepisodes, List.cons_append]

theorem Journey.getLast?_outcomes {continues : Bool} {first last : Nat} {outcome : Outcome}
    {events : List Event} (hfirst : (chapters events).1 = [])
    (h : Journey levels continues first (episodes events) last outcome) :
    (outcomesOf events).getLast? = some outcome := by
  obtain ⟨-, -, -, final, -, hepisodes⟩ := h.spec
  rw [outcomesOf_eq_chapters, hfirst]
  show ((episodes events).flatMap Episode.outcomes).getLast? = _
  rw [hepisodes]
  simp

/-- The player is on a level, where the run has come to this. -/
structure Plays (p : Player) (source : LevelSource) (index : Nat) (outcomes : List Outcome) :
    Prop where
  unfinished : p.finished = false
  place : p.campaign.At source index
  standing : p.campaign.Standing outcomes

/-- A player has come from the level at `first` to the one at `last` and has stopped there. The
level at `first` is the one whose episode is told first. -/
structure Stops (levels : List Level) (continues : Bool) (first : Nat) (episodes : List Episode)
    (after : Step Player) (last : Nat) (outcome : Outcome) : Prop where
  journey : Journey levels continues first episodes last outcome
  loaded : after.state.campaign.loaded = some last
  remembered : after.state.outcome = some outcome
  complete : after.report.events.count .complete =
    if continues = true ∧ outcome = .won then 1 else 0

/-- The episode of a level that was loaded before the events are told, and those of the events. -/
def episodesFrom (level : Level) (outcomes : List Outcome) (events : List Event) : List Episode :=
  ⟨level, outcomes ++ (chapters events).1⟩ :: (chapters events).2

theorem episodesFrom_append {told : List Event} (htell : Tell told outcomes) (events : List Event) :
    episodesFrom level [] (told ++ events) = episodesFrom level outcomes events := by
  rw [episodesFrom, htell.chapters_append]
  rfl

/-- On a level a run in flight goes on, whatever the player does to it. -/
theorem Plays.act (h : p.Plays source index outcomes) (waited : UInt32) {action : Action}
    (haction : ¬action.IsLoad) (hrun : p.campaign.session.run.isSome = true)
    (hruns : Session.RunsOn (p.campaign.session.apply action)) :
    outcomes = [] ∧ ∃ outcomes', ({ p with waited }.act action).state.Plays source index outcomes' ∧
      Tell ({ p with waited }.act action).report.events outcomes' := by
  obtain ⟨hunfinished, hplace, hstanding⟩ := h
  cases hstanding with
  | ended hidle => simp [hidle] at hrun
  | running _ hlocked =>
    have htell := p.campaign.tell_apply action
    have hstands := standing_follow hplace.incomplete hlocked hruns
    have hat := hplace.stays (p.campaign.staysAt_apply action)
    refine ⟨rfl, _, ⟨hunfinished, hat, ?_⟩, htell⟩
    show (p.campaign.apply action).state.Standing _
    rw [apply_eq haction]
    exact hstands

theorem Plays.rest (h : p.Plays source index outcomes) (hlevel : levels[index]? = some level)
    (hstop : p.next = .stop) :
    ∃ outcome, Stops levels p.plan.continues index (episodesFrom level outcomes []) (.stay p) index
      outcome := by
  have hmakes := p.next_cases
  rw [hstop] at hmakes
  cases hmakes with
  | finished hfinished => simp [h.unfinished] at hfinished
  | rest _ hidle hends =>
    cases h.standing with
    | running hrun => simp [hidle] at hrun
    | @ended outcome _ hlast hunlocked =>
      rw [hunlocked] at hends
      refine ⟨outcome, .ends hlevel fun hcontinues hwon => absurd ⟨hcontinues, hwon⟩ hends,
        h.place.loaded, hlast, ?_⟩
      rw [if_neg hends]
      rfl

variable {step rest : Step Player} {told : List Event} {last : Nat} {outcome : Outcome}

theorem Stops.after_tell {continues : Bool} (htell : Tell step.report.events outcomes)
    (h : Stops levels continues index (episodesFrom level outcomes rest.report.events) rest last
      outcome) :
    Stops levels continues index
      (episodesFrom level [] (step.next fun _ => rest).report.events) (step.next fun _ => rest) last
      outcome where
  journey := by
    rw [Step.report_next, Report.events_append, episodesFrom_append htell]
    exact h.journey
  loaded := h.loaded
  remembered := h.remembered
  complete := by
    rw [Step.report_next, Report.events_append, htell.count_complete_append]
    exact h.complete

theorem Plays.won_of_unlocked (h : p.Plays source index outcomes)
    (hidle : p.campaign.session.run = none) (hunlocked : p.campaign.unlocked = true) :
    outcomes = [.won] ∧ p.campaign.session.lastOutcome = some .won := by
  cases h.standing with
  | running hrun => simp [hidle] at hrun
  | ended _ hlast hwon =>
    obtain rfl := hwon.mp hunlocked
    exact ⟨rfl, hlast⟩

theorem Stops.after_load {continues : Bool} (hevents : step.report.events = .level level :: told)
    (htell : Tell told outcomes)
    (h : Stops levels continues index (episodesFrom level outcomes rest.report.events) rest last
      outcome) :
    (chapters (step.next fun _ => rest).report.events).1 = [] ∧
      Stops levels continues index (episodes (step.next fun _ => rest).report.events)
        (step.next fun _ => rest) last outcome := by
  have htold : (step.next fun _ => rest).report.events =
      .level level :: (told ++ rest.report.events) := by
    rw [Step.report_next, Report.events_append, hevents, List.cons_append]
  refine ⟨by rw [htold]; rfl, ?_, h.loaded, h.remembered, ?_⟩
  · rw [htold]
    show Journey levels continues index (episodesFrom level [] (told ++ rest.report.events)) last
      outcome
    rw [episodesFrom_append htell]
    exact h.journey
  · rw [htold, List.count_cons_of_ne (by simp), htell.count_complete_append]
    exact h.complete

theorem Stops.after_win (hlevel : levels[index]? = some level)
    (h : (chapters rest.report.events).1 = [] ∧
      Stops levels true (index + 1) (episodes rest.report.events) rest last outcome) :
    Stops levels true index (episodesFrom level [.won] rest.report.events) rest last outcome := by
  obtain ⟨hfirst, hstops⟩ := h
  refine ⟨?_, hstops.loaded, hstops.remembered, hstops.complete⟩
  rw [episodesFrom, hfirst]
  exact .goesOn hlevel rfl hstops.journey

theorem next_play_of_finished (h : step.state.finished = true) (moves : Nat) :
    (step.next fun p => p.play moves) = step := by
  have hstop : step.state.next = .stop := by rw [next, if_pos h]
  rw [Step.next, play_of_next_eq_stop hstop, Step.report_stay, Report.append_empty]
  rfl

/-- Wherever a player stops who is on a level, the levels up to there were played in order. -/
theorem stops_of_play (hsource : ∀ index, source.levelAt? index = levels[index]?)
    (hsize : source.keys.length = levels.length) (hlevel : levels[index]? = some level)
    (h : p.Plays source index outcomes) {moves : Nat} (hstop : (p.play moves).state.next = .stop) :
    ∃ last outcome, Stops levels p.plan.continues index
      (episodesFrom level outcomes (p.play moves).report.events) (p.play moves) last outcome := by
  -- from the first move on, so that what is told later comes after what has been told on this level
  induction moves generalizing p index level outcomes with
  | zero => exact ⟨index, h.rest hlevel hstop⟩
  | succ moves ih =>
    by_cases hrests : p.next = .stop
    · rw [play_of_next_eq_stop hrests]
      exact ⟨index, h.rest hlevel hrests⟩
    rw [play_succ] at hstop ⊢
    have hmakes := p.next_cases
    generalize p.next = move at hmakes hstop hrests ⊢
    cases hmakes with
    | finished => contradiction
    | rest => contradiction
    | wait _ hrun =>
      obtain ⟨rfl, outcomes, hplays, htell⟩ :=
        h.act (increment p.waited) id (by simp [hrun]) (Session.runsOn_tick hrun _)
      obtain ⟨last, outcome, hstops⟩ := ih hlevel hplays hstop
      exact ⟨last, outcome, hstops.after_tell htell⟩
    | abort _ hrun =>
      obtain ⟨rfl, outcomes, hplays, htell⟩ :=
        h.act p.waited id (by simp [hrun]) (Session.runsOn_abort hrun)
      obtain ⟨last, outcome, hstops⟩ := ih hlevel hplays hstop
      exact ⟨last, outcome, hstops.after_tell htell⟩
    | goOn hopen hidle hcontinues hunlocked =>
      obtain ⟨rfl, hlast⟩ := h.won_of_unlocked hidle hunlocked
      have hadvances := advance_cases hopen
      have hnext : p.campaign.nextIndex = index + 1 := by
        rw [Campaign.nextIndex, h.place.loaded]
      have hcount : p.campaign.size = levels.length := by
        rw [Campaign.size, h.place.source, hsize]
      rw [perform] at hstop ⊢
      generalize p.advance = step at hadvances hstop ⊢
      cases hadvances with
      | @entered next hfound =>
        rw [hnext] at hfound hstop ⊢
        obtain ⟨hat, outcomes, told, hevents, hstands, htell⟩ := enter_tells hfound hidle p.plan
        rw [h.place.source] at hfound hat
        obtain ⟨last, outcome, hstops⟩ :=
          ih ((hsource _).symm.trans hfound) ⟨rfl, hat, hstands⟩ hstop
        have hstops : Stops levels p.plan.continues _ _ _ _ _ := hstops
        rw [hcontinues] at hstops ⊢
        exact ⟨last, outcome, .after_win hlevel (hstops.after_load hevents htell)⟩
      | completed _ hover =>
        rw [next_play_of_finished rfl]
        refine ⟨index, .won, .ends hlevel fun _ _ => ?_, h.place.loaded, hlast, ?_⟩
        · have hlt := (List.getElem?_eq_some_iff.mp hlevel).1
          omega
        · rw [if_pos ⟨hcontinues, rfl⟩]
          rfl
      | declined notes hdeclined =>
        rcases hdeclined with hcomplete | ⟨hlt, hnone⟩
        · rw [h.place.incomplete] at hcomplete
          contradiction
        · rw [h.place.source, hsource, List.getElem?_eq_none_iff] at hnone
          omega

end Player

theorem Catalog.levelAt?_source {catalog : Catalog} (hkeys : catalog.keys.Nodup) (index : Nat) :
    catalog.source.levelAt? index = (catalog.levels.map Prod.snd)[index]? := by
  show (catalog.levels.map Prod.fst)[index]?.bind catalog.level? = _
  rw [List.getElem?_map, List.getElem?_map]
  cases hentered : catalog.levels[index]? with
  | none => rfl
  | some entered => exact level?_of_mem hkeys (List.mem_of_getElem? hentered)

namespace CommandLine

open Player

/-- Who plays a catalog on the command line fails if and only if there is no level at the first
index. Who stops has played levels in their order, from the first index to a last one, with one run
on each, and has won each but the last; without going on there is one level only, and who goes on
and wins the last level has come to the end of the catalog. This is told once, and in no other case.
How the last run ended is what the player remembers and what decides the exit code. -/
theorem journey_through_catalog {document : Catalog.Document} {catalog : Catalog}
    (hcatalog : Catalog.ofDocument document = .ok catalog) (script : List ScriptLine)
    (options : Options) :
    ((∃ failure, enterPlay catalog script options = .error failure) ↔
      ¬options.level < catalog.size) ∧
    ∀ (step : Step Player) (moves : Nat), enterPlay catalog script options = .ok step →
      (step.state.play moves).state.next = .stop →
        let levels := catalog.levels.map Prod.snd
        let done := step.next fun p => p.play moves
        ∃ last level outcome, options.level ≤ last ∧ levels[last]? = some level ∧
          episodes done.report.events =
            ((levels.drop options.level).take (last - options.level)).map
              (fun level => ⟨level, [.won]⟩) ++ [⟨level, [outcome]⟩] ∧
          done.state.campaign.loaded = some last ∧
          (options.continues = false → last = options.level) ∧
          (options.continues = true → outcome = .won → last + 1 = catalog.size) ∧
          (done.report.events.count .complete =
            if options.continues = true ∧ outcome = .won then 1 else 0) ∧
          (outcomesOf done.report.events).getLast? = some outcome ∧
          done.state.outcome = some outcome ∧
          (exitCode done.state.outcome = 0 ↔ outcome = .won) := by
  have hsource := Catalog.levelAt?_source (Catalog.keys_nodup_of_ofDocument hcatalog)
  have hsize : catalog.source.keys.length = (catalog.levels.map Prod.snd).length := by
    show (catalog.levels.map Prod.fst).length = _
    rw [List.length_map, List.length_map]
  have hlength : (catalog.levels.map Prod.snd).length = catalog.size := List.length_map _
  rcases enterPlay_cases catalog script options with ⟨level, hlevel, henter⟩ | ⟨hnone, hfails⟩
  · have hfound := (hsource _).symm.trans hlevel
    have hlt := (List.getElem?_eq_some_iff.mp hfound).1
    refine ⟨⟨fun ⟨failure, hfailure⟩ => ?_, fun h => absurd (hlength ▸ hlt) h⟩, ?_⟩
    · rw [henter] at hfailure
      contradiction
    intro step moves hstep hstop levels done
    obtain rfl := Except.ok.inj (henter.symm.trans hstep)
    obtain ⟨hat, outcomes, told, hevents, hstands, htell⟩ :=
      enter_tells (c := .ofSource catalog.source (.ofPacing options.pacing)) hlevel rfl
        ⟨script, options.continues, options.budget⟩
    obtain ⟨last, outcome, hplay⟩ :=
      stops_of_play hsource hsize hfound ⟨rfl, hat, hstands⟩ hstop
    obtain ⟨hfirst, hstops⟩ := hplay.after_load hevents htell
    obtain ⟨hle, hsingle, hthrough, final, hfinal, hepisodes⟩ := hstops.journey.spec
    have hremembered : done.state.outcome = some outcome := hstops.remembered
    exact ⟨last, final, outcome, hle, hfinal, hepisodes, hstops.loaded, hsingle,
      fun hcontinues hwon => (hthrough hcontinues hwon).trans hlength, hstops.complete,
      hstops.journey.getLast?_outcomes hfirst, hremembered, by simp [exitCode, hremembered]⟩
  · have hnone := (hsource _).symm.trans hnone
    rw [List.getElem?_eq_none_iff, hlength] at hnone
    refine ⟨⟨fun _ => Nat.not_lt.mpr hnone, fun _ => ⟨_, hfails⟩⟩, fun step moves hstep => ?_⟩
    rw [hfails] at hstep
    contradiction

/-- A step ahead again and again. -/
def strideScript : List ScriptLine :=
  [⟨.f1, .move .forward, none⟩, ⟨.f1, .call .f1, none⟩]

/-- Going straight ahead wins the first of the levels that come with the game, and leaves the path
on the second. -/
theorem builtin_won_and_lost :
    ∃ step, enterPlay .builtin strideScript { (default : Options) with continues := true } =
        .ok step ∧
      let done := step.next fun p => p.play 11
      (∃ second, episodes done.report.events =
        ((Catalog.builtin.levels.map Prod.snd).take 1).map (fun level => ⟨level, [.won]⟩) ++
          [⟨second, [.offPath]⟩]) ∧
      done.report.events.count .complete = 0 ∧ exitCode done.state.outcome ≠ 0 := by
  rcases enterPlay_cases .builtin strideScript { (default : Options) with continues := true } with
    ⟨level, -, henter⟩ | ⟨hnone, -⟩
  · refine ⟨_, henter, ?_⟩
    obtain ⟨-, hjourney⟩ :=
      journey_through_catalog Catalog.ofDocument_builtinDocument strideScript _
    obtain ⟨last, level, outcome, -, -, hepisodes, hloaded, -, -, hcount, -, hlast, hexit⟩ :=
      hjourney _ 11 henter (by decide +kernel)
    obtain rfl : 1 = last := Option.some.inj (Eq.trans (by decide +kernel) hloaded)
    obtain rfl : .offPath = outcome := Option.some.inj (Eq.trans (by decide +kernel) hlast)
    exact ⟨⟨level, hepisodes⟩, hcount, fun h => nomatch hexit.mp h⟩
  · exact absurd hnone (by decide +kernel)

end CommandLine

end TileWalk
