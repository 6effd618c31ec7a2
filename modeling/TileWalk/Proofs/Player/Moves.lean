import TileWalk.CommandLine.Invocation
import TileWalk.Proofs.Campaign.Loaded

/-!
The moves of a player. `next_cases` says when a player makes which move, and `advance_cases` what
comes of going on to the next level: the player enters it as the first level was entered, or has
finished. On a level a player leaves the place in the source as it is (`Campaign.StaysAt`).
-/

namespace TileWalk

namespace Campaign

/-- After it, the campaign is at the same place of the same source. -/
structure StaysAt (c after : Campaign) : Prop where
  source : after.source = c.source
  loaded : after.loaded = c.loaded
  complete : after.complete = c.complete

theorem StaysAt.refl (c : Campaign) : c.StaysAt c := ⟨rfl, rfl, rfl⟩

theorem StaysAt.trans {c middle after : Campaign} (h1 : c.StaysAt middle)
    (h2 : middle.StaysAt after) : c.StaysAt after :=
  ⟨h2.source.trans h1.source, h2.loaded.trans h1.loaded, h2.complete.trans h1.complete⟩

variable {c after : Campaign}

theorem StaysAt.size (h : c.StaysAt after) : after.size = c.size := by
  rw [Campaign.size, Campaign.size, h.source]

theorem StaysAt.nextIndex (h : c.StaysAt after) : after.nextIndex = c.nextIndex := by
  rw [Campaign.nextIndex, Campaign.nextIndex, h.loaded]

@[simp] theorem report_follow (c : Campaign) (step : Step Session) :
    (c.follow step).report = step.report := rfl

theorem apply_eq {action : Action} (haction : ¬action.IsLoad) :
    c.apply action = c.follow (c.session.apply action) := by
  cases action with
  | load level => exact absurd trivial haction
  | _ => rfl

theorem staysAt_follow (c : Campaign) (step : Step Session) : c.StaysAt (c.follow step).state :=
  ⟨rfl, rfl, rfl⟩

theorem staysAt_apply (c : Campaign) (action : Action) : c.StaysAt (c.apply action).state := by
  cases action with
  | load level => exact .refl c
  | _ =>
    rw [apply_eq id]
    exact c.staysAt_follow _

theorem staysAt_applyAll (c : Campaign) (actions : List Action) :
    c.StaysAt (c.applyAll actions).state := by
  induction actions generalizing c with
  | nil => exact .refl c
  | cons action actions ih => exact (c.staysAt_apply action).trans (ih _)

theorem applyAll_cons (c : Campaign) (action : Action) (actions : List Action) :
    c.applyAll (action :: actions) = (c.apply action).next fun c => c.applyAll actions := rfl

theorem applyAll_append (c : Campaign) (a b : List Action) :
    c.applyAll (a ++ b) = (c.applyAll a).next fun c => c.applyAll b := by
  induction a generalizing c with
  | nil => simp [applyAll, Step.next]
  | cons action actions ih => simp [applyAll, ih, Step.next_assoc]

theorem reachable_apply (hc : c.session.Reachable) (action : Action) :
    (c.apply action).state.session.Reachable := by
  cases action with
  | load level => exact hc
  | _ =>
    rw [apply_eq id]
    exact hc.apply _

theorem reachable_loadIndex (hc : c.session.Reachable) (index : Nat) :
    (c.loadIndex index).state.2.session.Reachable := by
  rcases c.loadIndex_cases index with ⟨level, -, hstate⟩ | ⟨-, hstate, -⟩
  · rw [hstate]
    exact hc.apply _
  · rw [hstate]
    exact hc

theorem reachable_applyAll (hc : c.session.Reachable) (actions : List Action) :
    (c.applyAll actions).state.session.Reachable := by
  induction actions generalizing c with
  | nil => exact hc
  | cons action actions ih => exact ih (reachable_apply hc action)

end Campaign

namespace Player

/-! ### Which move comes next -/

/-- When a player makes which move. -/
inductive Makes (p : Player) : Move → Prop
  | finished (hfinished : p.finished = true) : Makes p .stop
  | wait {run : Run} (hopen : p.finished = false) (hrun : p.campaign.session.run = some run)
      (hspent : p.isSpent = false) :
      Makes p (.wait (p.campaign.session.pacing.interval - run.elapsed))
  | abort {run : Run} (hopen : p.finished = false) (hrun : p.campaign.session.run = some run)
      (hspent : p.isSpent = true) : Makes p .abort
  | goOn (hopen : p.finished = false) (hidle : p.campaign.session.run = none)
      (hcontinues : p.plan.continues = true) (hunlocked : p.campaign.unlocked = true) :
      Makes p .goOn
  | rest (hopen : p.finished = false) (hidle : p.campaign.session.run = none)
      (hends : ¬(p.plan.continues = true ∧ p.campaign.unlocked = true)) : Makes p .stop

theorem next_cases (p : Player) : p.Makes p.next := by
  unfold next
  split
  · next hfinished => exact .finished hfinished
  · next hopen =>
    have hopen : p.finished = false := by simpa using hopen
    cases hrun : p.campaign.session.run with
    | some run =>
      simp only [Session.timeLeft, hrun, Option.map_some]
      split
      · next hspent => exact .abort hopen hrun hspent
      · next hspent => exact .wait hopen hrun (by simpa using hspent)
    | none =>
      simp only [Session.timeLeft, hrun, Option.map_none, Bool.and_eq_true]
      split
      · next h => exact .goOn hopen hrun h.1 h.2
      · next h => exact .rest hopen hrun h

/-! ### Entering a level -/

/-- A player with this plan enters the level at an index and begins to play it. -/
def enter (plan : PlayPlan) (c : Campaign) (index : Nat) : Step Player :=
  (c.loadIndex index).next fun moved => launch ⟨plan, moved.2, 0, false⟩

variable {p : Player} {plan : PlayPlan} {c : Campaign} {index : Nat} {level : Level}

theorem applyAll_opening (c : Campaign) (plan : PlayPlan) :
    c.applyAll (opening plan) =
      (c.applyAll (plan.script.map ScriptLine.action)).next fun c => c.apply .start := by
  simp [opening, Campaign.applyAll_append, Campaign.applyAll, Step.next]

theorem staysAt_launch (p : Player) : p.campaign.StaysAt p.launch.state.campaign :=
  Campaign.staysAt_applyAll _ _

theorem state_enter (h : c.source.levelAt? index = some level) :
    (enter plan c index).state =
      (launch ⟨plan, c.onIndex (c.session.apply (.load level)).state index, 0, false⟩).state := by
  rw [enter, Step.state_next, Campaign.state_loadIndex h]

theorem start?_of_levelAt? (h : c.source.levelAt? index = some level) :
    start? plan c index = some (enter plan c index) := by
  simp only [start?, Campaign.state_loadIndex h, if_true]
  rfl

theorem start?_of_levelAt?_eq_none (h : c.source.levelAt? index = none) :
    start? plan c index = none := by
  simp only [start?, (Campaign.loadIndex_of_levelAt?_eq_none h).1]
  rfl

/-- What comes of going on to the next level. -/
inductive Advances (p : Player) : Step Player → Prop
  | entered {level : Level}
      (hlevel : p.campaign.source.levelAt? p.campaign.nextIndex = some level) :
      Advances p (enter p.plan p.campaign p.campaign.nextIndex)
  | completed (hopen : p.campaign.complete = false)
      (hlast : p.campaign.size ≤ p.campaign.nextIndex) :
      Advances p ⟨{ p with campaign := p.campaign.completed, finished := true },
        ⟨[.complete], [.complete p.campaign.size]⟩⟩
  /-- There is nothing to move on from, or no level where there should be one. -/
  | declined (notes : List Note)
      (h : p.campaign.complete = true ∨ p.campaign.nextIndex < p.campaign.size ∧
        p.campaign.source.levelAt? p.campaign.nextIndex = none) :
      Advances p ⟨{ p with finished := true }, ⟨[], notes⟩⟩

theorem advance_cases (hopen : p.finished = false) : p.Advances p.advance := by
  obtain ⟨plan, c, waited, finished⟩ := p
  dsimp only at hopen
  subst hopen
  unfold advance Campaign.moveOn
  dsimp only
  split
  · next hcomplete => exact .declined [] (.inl hcomplete)
  · next hcomplete =>
    split
    · next hlt =>
      rcases c.loadIndex_cases c.nextIndex with ⟨level, hlevel, hstate⟩ | ⟨hlevel, hstate, hevents⟩
      · have hadvances := @Advances.entered ⟨plan, c, waited, false⟩ level hlevel
        simp only [enter, Step.next, hstate, if_true] at hadvances ⊢
        exact hadvances
      · have hreport : (c.loadIndex c.nextIndex).report =
            ⟨[], (c.loadIndex c.nextIndex).report.notes⟩ := by rw [← hevents]
        simp only [Step.next, hstate, Bool.false_eq_true, if_false, Step.report_stay,
          Report.append_empty, Step.state_stay]
        rw [hreport]
        exact .declined _ (.inr ⟨hlt, hlevel⟩)
    · next hlast => exact .completed (by simpa using hcomplete) (Nat.le_of_not_lt hlast)

end Player

/-- Play begins on the level at the index asked for, if there is one. -/
theorem CommandLine.enterPlay_cases (catalog : Catalog) (script : List ScriptLine)
    (options : Options) :
    (∃ level, catalog.source.levelAt? options.level = some level ∧
      enterPlay catalog script options =
        .ok (Player.enter ⟨script, options.continues, options.budget⟩
          (Campaign.ofSource catalog.source (.ofPacing options.pacing)) options.level)) ∨
    (catalog.source.levelAt? options.level = none ∧
      enterPlay catalog script options = .error (.levelIndex options.level catalog.size)) := by
  let plan : PlayPlan := ⟨script, options.continues, options.budget⟩
  let c := Campaign.ofSource catalog.source (.ofPacing options.pacing)
  cases hlevel : catalog.source.levelAt? options.level with
  | some level =>
    have hstart : Player.start? plan c options.level = _ := Player.start?_of_levelAt? hlevel
    exact .inl ⟨level, rfl, by simp only [enterPlay, plan, c, hstart]⟩
  | none =>
    have hstart : Player.start? plan c options.level = none :=
      Player.start?_of_levelAt?_eq_none hlevel
    exact .inr ⟨rfl, by simp only [enterPlay, plan, c, hstart]⟩

end TileWalk
