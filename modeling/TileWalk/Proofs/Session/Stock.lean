import TileWalk.Proofs.Run.Confined
import TileWalk.Proofs.Session.Origin

/-!
What is in the queues, and what a run may enter. Wherever actions lead, the queues keep within the
capacities of the level and call only subroutines that the level enables, so that no run enters any
other than the first and those (`queues_fit_and_frames_enabled`).
-/

namespace TileWalk

/-- The queues are such as a session on `level` may hold. -/
structure Queues.Suit (level : Option Level) (queues : Queues) : Prop where
  capacities : queues.capacities = (level.map Level.capacities).getD (.const 0)
  fits : ∀ sub, (queues.commands.get sub).length ≤ queues.capacities.get sub
  enabled : ∀ sub, ∀ command ∈ queues.commands.get sub, ∀ callee,
    command.operation = .call callee → ∃ l, level = some l ∧ l.enabled.get callee = true

namespace Queues.Suit

variable {level : Option Level} {queues : Queues}

theorem ofCapacities {capacities : Slots Nat}
    (h : capacities = (level.map Level.capacities).getD (.const 0)) :
    (Queues.ofCapacities capacities).Suit level where
  capacities := h
  fits sub := by simp [Queues.ofCapacities]
  enabled sub command hmem := by simp [Queues.ofCapacities] at hmem

theorem set (h : queues.Suit level) {sub : Subroutine} {commands : List Command}
    (hfits : commands.length ≤ queues.capacities.get sub)
    (henabled : ∀ command ∈ commands, ∀ callee, command.operation = .call callee →
      ∃ l, level = some l ∧ l.enabled.get callee = true) :
    ({ queues with commands := queues.commands.set sub commands } : Queues).Suit level where
  capacities := h.capacities
  fits other := by
    by_cases hother : other = sub
    · rw [hother, Slots.get_set_self]
      exact hfits
    · rw [Slots.get_set_of_ne _ _ hother]
      exact h.fits other
  enabled other := by
    by_cases hother : other = sub
    · rw [hother, Slots.get_set_self]
      exact henabled
    · rw [Slots.get_set_of_ne _ _ hother]
      exact h.enabled other

theorem push (h : queues.Suit level) {sub : Subroutine} (hopen : queues.isOpen sub = true)
    {command : Command} (henabled : ∀ callee, command.operation = .call callee →
      ∃ l, level = some l ∧ l.enabled.get callee = true) :
    (queues.push sub command).Suit level := by
  have hroom : (queues.commands.get sub).length < queues.capacities.get sub := by
    simpa [isOpen] using hopen
  refine h.set ?_ fun queued hqueued => ?_
  · rw [List.length_append, List.length_singleton]
    exact hroom
  · rcases List.mem_append.mp hqueued with hqueued | hqueued
    · exact h.enabled sub queued hqueued
    · obtain rfl := List.mem_singleton.mp hqueued
      exact henabled

theorem pop (h : queues.Suit level) (sub : Subroutine) : (queues.pop sub).Suit level := by
  refine h.set ?_ fun queued hqueued => ?_
  · have hle := h.fits sub
    rw [List.length_dropLast]
    omega
  · exact h.enabled sub queued ((List.dropLast_sublist _).subset hqueued)

theorem emptied (h : queues.Suit level) : queues.emptied.Suit level :=
  .ofCapacities h.capacities

/-- Without a level there is room for nothing. -/
theorem eq_nil (h : queues.Suit none) (sub : Subroutine) : queues.commands.get sub = [] := by
  have hle := h.fits sub
  rw [h.capacities, Option.map_none, Option.getD_none, Slots.get_const] at hle
  exact List.length_eq_zero_iff.mp (Nat.le_zero.mp hle)

end Queues.Suit

namespace Session

variable {s : Session}

/-- The level that the session is on, if any, lets commands call `sub`. -/
def Enables (s : Session) (sub : Subroutine) : Prop :=
  ∃ level, s.level = some level ∧ level.enabled.get sub = true

instance (s : Session) (sub : Subroutine) : Decidable (s.Enables sub) :=
  inferInstanceAs (Decidable (∃ level ∈ s.level, level.enabled.get sub = true))

/-- A command that is not refused calls only what the level enables. -/
theorem enables_of_refusal?_eq_none {command : Command} (h : s.refusal? command = none)
    {callee : Subroutine} (hcall : command.operation = .call callee) : s.Enables callee := by
  cases hlevel : s.level with
  | none => simp [refusal?, hlevel] at h
  | some level =>
    have hrun := run_of_refusal?_eq_none h
    refine ⟨level, hlevel, ?_⟩
    simpa [refusal?, hlevel, hrun, hcall] using h

theorem Transition.suit {action : Action} {step : Step Session} (h : s.Transition action step)
    (hs : s.queues.Suit s.level) : step.state.queues.Suit step.state.level := by
  cases h with
  | loaded level => exact .ofCapacities rfl
  | pushed haddition hrefusal hplace =>
    exact hs.push (Queues.isOpen_of_place hplace) fun callee =>
      enables_of_refusal?_eq_none hrefusal
  | popped => exact hs.pop _
  | reset =>
    simp only [Session.reset, Step.state_next, cleared, state_cutOff]
    exact hs.emptied
  | started hlevel =>
    simp only [Step.state_next, level_launch, queues_launch, state_cutOff]
    exact hs
  | aborted =>
    simp only [Step.state_next, Step.state_stay, state_cutOff]
    exact hs
  | ticked elapsed =>
    rw [level_tick, queues_tick]
    exact hs
  | refused | unchanged | paced => exact hs

theorem Reachable.suit (hs : s.Reachable) : s.queues.Suit s.level := by
  induction hs with
  | ofPacing pacing => exact .ofCapacities rfl
  | @apply s action hs ih => exact (s.apply_transition action).suit ih

/-! ### What runs enter -/

/-- A run may enter the first subroutine, and others if the level lets commands call them. -/
def MayEnter (s : Session) (sub : Subroutine) : Prop :=
  sub = .f1 ∨ s.Enables sub

theorem Reachable.closedUnderCalls (hs : s.Reachable) :
    Run.ClosedUnderCalls s.MayEnter s.queues.commands :=
  fun sub _ command hmem callee hcall => .inr (hs.suit.enabled sub command hmem callee hcall)

theorem Reachable.confined (hs : s.Reachable) {run : Run} (hrun : s.run = some run) :
    Run.Confined s.MayEnter (s.stage run).pause := by
  obtain ⟨origin, due, hstage⟩ := hs.leads hrun
  have hfirst : Run.Confined s.MayEnter (⟨origin, 0, s.firstPause origin⟩ : Stage).pause :=
    Run.confined_seek hs.closedUnderCalls _ fun a ha => by
      obtain rfl := List.mem_singleton.mp ha
      exact .inl rfl
  rw [hstage]
  exact (hfirst.executeDue hs.closedUnderCalls due).1

theorem Reachable.mayEnter_of_mem_stack (hs : s.Reachable) {run : Run} (hrun : s.run = some run)
    {frame : Activation} (hframe : frame ∈ run.stack) : s.MayEnter frame.subroutine := by
  cases hs.confined hrun with
  | waiting hstack hcall => exact hstack frame hframe

theorem Reachable.mayEnter_of_executed (hs : s.Reachable) {action : Action} {callee : Subroutine}
    (h : .call callee ∈ (s.apply action).report.operations) : s.MayEnter callee := by
  rcases s.operations_apply action with hnone | ⟨run, due, hrun, hsome⟩
  · rw [hnone] at h
    contradiction
  · rw [hsome] at h
    exact ((hs.confined hrun).executeDue hs.closedUnderCalls due).2 callee h

/-- In every session that actions lead to, the queues have the capacities of the level, or none
without a level, they keep within them, and they call only subroutines that the level enables.
So all that is on the stack of a run, and all that its calls enter, is the first subroutine or one
that the level enables. -/
theorem queues_fit_and_frames_enabled (hs : s.Reachable) :
    s.queues.capacities = (s.level.map Level.capacities).getD (.const 0) ∧
      (∀ sub, (s.queue sub).length ≤ s.queues.capacities.get sub) ∧
      (s.level = none → ∀ sub, s.queue sub = []) ∧
      (∀ sub, ∀ command ∈ s.queue sub, ∀ callee,
        command.operation = .call callee → s.Enables callee) ∧
      (∀ run, s.run = some run → ∀ frame ∈ run.stack,
        frame.subroutine = .f1 ∨ s.Enables frame.subroutine) ∧
      ∀ action callee, .call callee ∈ (s.apply action).report.operations →
        callee = .f1 ∨ s.Enables callee := by
  have hsuit := hs.suit
  refine ⟨hsuit.capacities, hsuit.fits, fun hlevel sub => ?_, hsuit.enabled,
    fun run hrun frame hframe => hs.mayEnter_of_mem_stack hrun hframe,
    fun action callee hcall => hs.mayEnter_of_executed hcall⟩
  rw [hlevel] at hsuit
  exact hsuit.eq_nil sub

/-- A session in the middle of a call, on a level that has no room in the third queue and lets only
the second be called. -/
def caller : Session :=
  (fresh.applyAll
    [.load ⟨[[.path .grey, .path .grey, .path .red]], ⟨0, 0, .right⟩, ⟨2, 2, 0⟩,
        ⟨false, true, false⟩, "a short street"⟩,
      .add ⟨.call .f2, none⟩ (.slot .f1),
      .add ⟨.move .forward, none⟩ .firstOpen,
      .add ⟨.move (.turn .left), none⟩ .firstOpen,
      .start,
      .tick (.ofMillis 300)]).state

theorem caller_fits :
    caller.queues.capacities = ⟨2, 2, 0⟩ ∧
      (caller.run.map fun run => run.stack.map Activation.subroutine) = some [.f2, .f1] ∧
      ∀ run, caller.run = some run → ∀ frame ∈ run.stack,
        frame.subroutine = .f1 ∨ caller.Enables frame.subroutine := by
  have hreachable : caller.Reachable := (Reachable.ofPacing _).applyAll _
  have hcaller := queues_fit_and_frames_enabled hreachable
  exact ⟨by decide, by decide, hcaller.2.2.2.2.1⟩

end Session

end TileWalk
