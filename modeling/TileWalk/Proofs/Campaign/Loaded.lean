import TileWalk.Proofs.Campaign.Request

/-!
Where a campaign is. Its index and the level of its session always tell of the same level of the
source, whatever was asked of it: only a navigation that succeeds changes the one or the other, and
it changes both (`index_and_level_agree`).
-/

namespace TileWalk

namespace LevelSource

variable {source : LevelSource}

/-- The level of the key at an index. Several indices may have the same key, and a key no level. -/
def levelAt? (source : LevelSource) (index : Nat) : Option Level :=
  source.keys[index]?.bind source.level?

theorem lt_of_levelAt?_eq_some {index : Nat} {level : Level}
    (h : source.levelAt? index = some level) : index < source.keys.length := by
  obtain ⟨key, hkey, -⟩ := Option.bind_eq_some_iff.mp h
  exact (List.getElem?_eq_some_iff.mp hkey).1

/-- An index and a level that tell of the same level of a source, or both of none. -/
inductive Agree (source : LevelSource) : Option Nat → Option Level → Prop
  | nowhere : Agree source none none
  | atIndex {index : Nat} {level : Level} (hlevel : source.levelAt? index = some level) :
      Agree source (some index) (some level)

theorem Agree.none_iff {loaded : Option Nat} {level : Option Level}
    (h : source.Agree loaded level) : loaded = none ↔ level = none := by
  cases h <;> simp

theorem Agree.levelAt?_eq {index : Nat} {level : Option Level}
    (h : source.Agree (some index) level) :
    index < source.keys.length ∧ level = source.levelAt? index := by
  cases h with
  | atIndex hlevel => exact ⟨lt_of_levelAt?_eq_some hlevel, hlevel.symm⟩

end LevelSource

namespace Campaign

variable {c : Campaign}

/-- The index of the campaign and the level of its session tell of the same level. -/
def Agrees (c : Campaign) : Prop := c.source.Agree c.loaded c.session.level

theorem Served.agrees {request : Request} {step : Step (Bool × Campaign)}
    (h : c.Served request step) (hc : c.Agrees) : step.state.2.Agrees := by
  cases h with
  | declined request notes => exact hc
  | entered request hkey hlevel =>
    exact .atIndex (Option.bind_eq_some_iff.mpr ⟨_, hkey, hlevel⟩)
  | completed hopen hlast => exact hc
  | @acted action haction =>
    -- no other action than a load touches the level
    have hsame : (c.session.apply action).state.level = c.session.level := by
      rw [Session.level_apply]
      cases action with
      | load level => exact absurd trivial haction
      | _ => rfl
    show c.source.Agree c.loaded (c.session.apply action).state.level
    rw [hsame]
    exact hc

theorem Agrees.serveAll (hc : c.Agrees) (requests : List Request) :
    (c.serveAll requests).state.Agrees := by
  induction requests generalizing c with
  | nil => exact hc
  | cons request requests ih => exact ih ((c.serve_served request).agrees hc)

/-! ### What a navigation says and does -/

/-- Where the source has a level, the session loads it and the campaign is on the index. -/
theorem loadIndex_of_levelAt? {index : Nat} {level : Level}
    (h : c.source.levelAt? index = some level) :
    ∃ key, c.loadIndex index = Step.next ⟨c, ⟨[], [.entering index key]⟩⟩ fun c =>
      (c.session.apply (.load level)).map fun session => (true, c.onIndex session index) := by
  obtain ⟨key, hkey, hlevel⟩ := Option.bind_eq_some_iff.mp h
  refine ⟨key, ?_⟩
  simp only [loadIndex, hkey, hlevel]
  rfl

theorem state_loadIndex {index : Nat} {level : Level}
    (h : c.source.levelAt? index = some level) :
    (c.loadIndex index).state = (true, c.onIndex (c.session.apply (.load level)).state index) := by
  obtain ⟨key, hload⟩ := loadIndex_of_levelAt? h
  rw [hload]
  rfl

theorem events_loadIndex {index : Nat} {level : Level}
    (h : c.source.levelAt? index = some level) :
    (c.loadIndex index).report.events = (c.session.apply (.load level)).report.events := by
  obtain ⟨key, hload⟩ := loadIndex_of_levelAt? h
  rw [hload]
  rfl

theorem loadIndex_of_levelAt?_eq_none {index : Nat} (h : c.source.levelAt? index = none) :
    (c.loadIndex index).state = (false, c) ∧ (c.loadIndex index).report.events = [] := by
  cases hkey : c.source.keys[index]? with
  | none => simp [loadIndex, hkey]
  | some key =>
    have hlevel : c.source.level? key = none := by simpa [LevelSource.levelAt?, hkey] using h
    simp [loadIndex, hkey, hlevel]

theorem loadIndex_cases (c : Campaign) (index : Nat) :
    (∃ level, c.source.levelAt? index = some level ∧ (c.loadIndex index).state =
        (true, c.onIndex (c.session.apply (.load level)).state index)) ∨
      (c.source.levelAt? index = none ∧ (c.loadIndex index).state = (false, c) ∧
        (c.loadIndex index).report.events = []) := by
  cases hlevel : c.source.levelAt? index with
  | some level => exact .inl ⟨level, rfl, state_loadIndex hlevel⟩
  | none => exact .inr ⟨rfl, loadIndex_of_levelAt?_eq_none hlevel⟩

/-- Moving on that loads nothing leaves all but the completion of the campaign as it is. -/
theorem moveOn_of_not_moved (h : c.moveOn.state.1 = false) :
    (c.moveOn.state.2 = c ∧ c.moveOn.report.events = []) ∨
      (c.moveOn.state.2 = c.completed ∧ c.moveOn.report.events = [.complete]) := by
  have hserved : c.Served .moveOn c.moveOn := c.serve_served .moveOn
  generalize c.moveOn = step at hserved h ⊢
  cases hserved with
  | declined request notes => exact .inl ⟨rfl, rfl⟩
  | entered request hkey hlevel => contradiction
  | completed hopen hlast => exact .inr ⟨rfl, rfl⟩

/-- Whatever was asked of a campaign, it has an index exactly if its session has a level, and then
the level is the one that the source has at the index. A level is loaded by its index exactly if
the source has one there. A navigation that loads none says so, leaves the session and the index as
they are and reports nothing, but for the completion that moving on may report. An action that would
load a level past the campaign has no effect, in the middle of a run either. -/
theorem index_and_level_agree (source : LevelSource) (pacing : Pacing) (requests : List Request) :
    let c := ((ofSource source (.ofPacing pacing)).serveAll requests).state
    c.size = source.keys.length ∧
      (c.loaded = none ↔ c.session.level = none) ∧
      (∀ index, c.loaded = some index →
        index < c.size ∧ c.session.level = source.levelAt? index) ∧
      (∀ index,
        ((c.loadIndex index).state.1 = true ↔
          index < c.size ∧ (source.levelAt? index).isSome = true) ∧
        ((c.loadIndex index).state.1 = true → (c.loadIndex index).state.2.loaded = some index) ∧
        ((c.loadIndex index).state.1 = false →
          (c.loadIndex index).state.2 = c ∧ (c.loadIndex index).report.events = [])) ∧
      (c.moveOn.state.1 = false →
        c.moveOn.state.2.session = c.session ∧ c.moveOn.state.2.loaded = c.loaded ∧
          (c.moveOn.report.events = [] ∨ c.moveOn.report.events = [.complete])) ∧
      ∀ level, (c.apply (.load level)).state = c ∧ (c.apply (.load level)).report.events = [] := by
  have hbegun : (ofSource source (.ofPacing pacing)).Agrees := .nowhere
  have hsource := source_serveAll (ofSource source (.ofPacing pacing)) requests
  have hagrees := hbegun.serveAll requests
  dsimp only
  generalize ((ofSource source (.ofPacing pacing)).serveAll requests).state = c
    at hsource hagrees ⊢
  obtain rfl : c.source = source := hsource
  refine ⟨rfl, hagrees.none_iff, fun index hindex => ?_, fun index => ?_, fun hmoved => ?_,
    fun level => ⟨rfl, rfl⟩⟩
  · rw [Agrees, hindex] at hagrees
    exact hagrees.levelAt?_eq
  · rcases c.loadIndex_cases index with ⟨level, hlevel, hstate⟩ | ⟨hlevel, hstate, hevents⟩
    · simp [hstate, hlevel, onIndex, size, LevelSource.lt_of_levelAt?_eq_some hlevel]
    · simp [hstate, hlevel, hevents]
  · rcases moveOn_of_not_moved hmoved with ⟨hstate, hevents⟩ | ⟨hstate, hevents⟩
    · rw [hstate]
      exact ⟨rfl, rfl, .inl hevents⟩
    · rw [hstate]
      exact ⟨rfl, rfl, .inr hevents⟩

/-- A source that has the same level first and last, and none in between. -/
def roundTrip : LevelSource where
  keys := ["home", "away", "home"]
  level? key := if key = "home" then
    some ⟨[[.path .grey, .path .grey, .goal]], ⟨0, 0, .right⟩, .const 2, .const true, "home"⟩
  else none

/-- In the middle of a run on the first level: the second cannot be loaded and the last can. -/
theorem roundTrip_agrees :
    let c := ((ofSource roundTrip (.ofPacing .standard)).serveAll
      [.moveOn, .act (.add ⟨.move .forward, none⟩ .firstOpen), .act .start, .moveOn]).state
    c.loaded = some 0 ∧ c.session.run.isSome = true ∧
      c.session.level = roundTrip.levelAt? 0 ∧
      (c.loadIndex 1).state.2.session = c.session ∧
      (c.loadIndex 2).state.2.loaded = some 2 ∧
      (c.apply (.load ⟨[], .origin, .const 0, .const true, ""⟩)).state.session = c.session := by
  dsimp only
  obtain ⟨-, -, hlevel, hload, -, hignored⟩ := index_and_level_agree roundTrip .standard
    [.moveOn, .act (.add ⟨.move .forward, none⟩ .firstOpen), .act .start, .moveOn]
  refine ⟨by decide, by decide, (hlevel 0 (by decide)).2, ?_, (hload 2).2.1 (by decide), ?_⟩
  · rw [((hload 1).2.2 (by decide)).1]
  · rw [(hignored _).1]

end Campaign

end TileWalk
