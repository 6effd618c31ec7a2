import TileWalk.Proofs.Session.Action

/-!
The states of a session: those that some actions lead to from a session without a level.
-/

namespace TileWalk.Session

/-- A session that some actions lead to from a session without a level, whatever its pacing. -/
inductive Reachable : Session → Prop
  | ofPacing (pacing : Pacing) : Reachable (ofPacing pacing)
  | apply {s : Session} (action : Action) (h : Reachable s) : Reachable (s.apply action).state

theorem Reachable.applyAll {s : Session} (h : s.Reachable) (actions : List Action) :
    (s.applyAll actions).state.Reachable := by
  induction actions generalizing s with
  | nil => exact h
  | cons action actions ih => exact ih (h.apply action)

/-- Without a level no run is in flight. -/
theorem Reachable.idle_of_level_eq_none {s : Session} (h : s.Reachable)
    (hlevel : s.level = none) : s.run = none := by
  induction h with
  | ofPacing => rfl
  | @apply s action h ih =>
    rw [level_apply] at hlevel
    cases action with
    | load level => contradiction
    | add command placement => simp [Session.apply, applyWith, add, refusal?, hlevel, refuse, ih]
    | submit operation condition placement =>
      simp only [Session.apply, applyWith, submit]
      split
      · simp [add, refusal?, hlevel, refuse, ih]
      · exact ih hlevel
    | takeBack =>
      simp only [Session.apply, applyWith, takeBack, ih hlevel]
      cases s.queues.lastUsed? with
      | none => exact ih hlevel
      | some sub => rfl
    | reset => simp only [Session.apply, applyWith, reset, Step.state_next, cleared, state_cutOff]
    | start => simp [Session.apply, applyWith, start, hlevel, refuse, ih]
    | abort => simp only [Session.apply, applyWith, abort, state_cutOff]
    | pace interval =>
      simp only [Session.apply, applyWith, pace]
      split <;> exact ih hlevel
    | tick elapsed => simp [Session.apply, applyWith, tick, ih hlevel]

/-! ### A session to look at -/

/-- A session on a single tile whose program turns left for ever. The step in between waits for a
color that is not there. -/
def spinner : Session :=
  (fresh.applyAll
    [.load ⟨[[.path .grey]], ⟨0, 0, .up⟩, .const 3, .const true, "a single tile"⟩,
      .add ⟨.move (.turn .left), none⟩ (.slot .f1),
      .add ⟨.move .forward, some .red⟩ (.slot .f1),
      .add ⟨.call .f1, none⟩ (.slot .f1)]).state

theorem reachable_spinner : spinner.Reachable := (Reachable.ofPacing _).applyAll _

end TileWalk.Session
