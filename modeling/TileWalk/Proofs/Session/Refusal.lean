import TileWalk.Proofs.Session.Stock

/-!
What refuses input. An action that is refused reports that alone and changes nothing, and a command
that is to be queued is refused for the first of the grounds against it; without any it goes to the
end of one queue (`refused_or_added`).
-/

namespace TileWalk

namespace Command

theorem malformed_of_readCondition {operation : String} {condition : Option String}
    {reason : Refusal} (h : readCondition operation condition = .error reason) :
    ∃ input, reason = .malformed input := by
  cases condition with
  | none => nomatch h
  | some label =>
    simp only [readCondition] at h
    split at h
    · nomatch h
    · split at h
      · nomatch h
      · exact ⟨_, (Except.error.inj h).symm⟩

/-- Labels are refused as malformed, and for no other reason. -/
theorem malformed_of_ofLabels {operation : String} {condition : Option String}
    {reason : Refusal} (h : ofLabels operation condition = .error reason) :
    ∃ input, reason = .malformed input := by
  unfold ofLabels at h
  split at h
  · exact ⟨operation, (Except.error.inj h).symm⟩
  · cases hcondition : readCondition operation condition with
    | ok color => simp [hcondition, Except.map] at h
    | error refusal =>
      obtain rfl : refusal = reason := by simpa [hcondition, Except.map] using h
      exact malformed_of_readCondition hcondition

end Command

/-- Slot order is the order of the indices. -/
theorem Subroutine.mem_of_index_lt {s t : Subroutine} {before after : List Subroutine}
    (hall : all = before ++ s :: after) (h : t.index < s.index) : t ∈ before := by
  have hindex : ∀ (n : Nat) (u : Subroutine), all[n]? = some u → u.index = n
    | 0, _, rfl => rfl
    | 1, _, rfl => rfl
    | 2, _, rfl => rfl
  have hs : s.index = before.length := hindex _ _ (by simp [hall])
  have ht : all[t.index]? = some t := by cases t <;> rfl
  rw [hall, List.getElem?_append_left (hs ▸ h)] at ht
  exact List.mem_of_getElem? ht

namespace Session

/-- The queue of `sub` is at its capacity. -/
def Full (s : Session) (sub : Subroutine) : Prop :=
  s.queues.capacities.get sub ≤ (s.queue sub).length

instance (s : Session) (sub : Subroutine) : Decidable (s.Full sub) :=
  inferInstanceAs (Decidable (_ ≤ _))

/-- The lack of room, if there is no room for another command. -/
def roomGrounds (s : Session) : Placement → List Refusal
  | .slot sub => if s.Full sub then [.slotFull sub] else []
  | .firstOpen => if ∀ sub ∈ Subroutine.all, s.Full sub then [.allFull] else []

/-- What speaks against adding a command that was read like this, in the order in which it
counts. -/
def grounds (s : Session) (reading : Except Refusal Command) (placement : Placement) :
    List Refusal :=
  (match reading with
    | .error (.malformed input) => [.malformed input]
    | _ => []) ++
  (if s.level = none then [.noLevel] else []) ++
  (if s.run = none then [] else [.running]) ++
  (match reading with
    | .ok ⟨.call sub, _⟩ => if s.Enables sub then [] else [.disabled sub]
    | _ => []) ++
  s.roomGrounds placement

/-- The queue that an added command goes to. -/
inductive Takes (s : Session) : Placement → Subroutine → Prop
  | named {sub : Subroutine} (hroom : ¬s.Full sub) : Takes s (.slot sub) sub
  | first {sub : Subroutine} (hroom : ¬s.Full sub)
      (hearlier : ∀ earlier : Subroutine, earlier.index < sub.index → s.Full earlier) :
      Takes s .firstOpen sub

/-- The step puts `command` at the end of one queue and says so, and that is all. -/
structure Adds (s : Session) (command : Command) (sub : Subroutine) (step : Step Session) :
    Prop where
  appended : step.state.queue sub = s.queue sub ++ [command]
  others : ∀ other, other ≠ sub → step.state.queue other = s.queue other
  rest : step.state =
    { s with queues := { s.queues with commands := step.state.queues.commands } }
  events : step.report.events = [.queue sub (s.queue sub ++ [command])]

variable {s : Session}

theorem isOpen_iff {sub : Subroutine} : s.queues.isOpen sub = true ↔ ¬s.Full sub := by
  simp [Queues.isOpen, Full, queue]

/-! ### Where a command goes -/

theorem takes_of_place {placement : Placement} {sub : Subroutine}
    (h : s.queues.place placement = .ok sub) : s.Takes placement sub := by
  have hroom : ¬s.Full sub := isOpen_iff.mp (Queues.isOpen_of_place h)
  cases placement with
  | slot named =>
    obtain rfl : named = sub := by
      simp only [Queues.place] at h
      split at h
      · exact Except.ok.inj h
      · contradiction
    exact .named hroom
  | firstOpen =>
    have hfind : Subroutine.all.find? s.queues.isOpen = some sub := by
      simp only [Queues.place] at h
      split at h
      · next found hfound =>
        rw [hfound, Except.ok.inj h]
      · contradiction
    obtain ⟨-, before, after, hall, hbefore⟩ := List.find?_eq_some_iff_append.mp hfind
    -- the search goes by slot order, so what lies before is what it passed over
    refine .first hroom fun earlier hearlier => ?_
    have hclosed := hbefore earlier (Subroutine.mem_of_index_lt hall hearlier)
    by_contra hfull
    rw [isOpen_iff.mpr hfull] at hclosed
    contradiction

/-- There is no room for a command if no queue is found for it. -/
theorem roomGrounds_eq (s : Session) (placement : Placement) :
    s.roomGrounds placement = match s.queues.place placement with
      | .error reason => [reason]
      | .ok _ => [] := by
  cases placement with
  | slot sub =>
    by_cases hfull : s.Full sub
    · have hclosed : s.queues.isOpen sub = false := by
        rw [← Bool.not_eq_true, isOpen_iff]
        exact not_not_intro hfull
      simp [roomGrounds, Queues.place, hfull, hclosed]
    · simp [roomGrounds, Queues.place, hfull, isOpen_iff.mpr hfull]
  | firstOpen =>
    cases hfind : Subroutine.all.find? s.queues.isOpen with
    | none =>
      have hfull : ∀ sub ∈ Subroutine.all, s.Full sub := fun sub hsub => by
        have hclosed := List.find?_eq_none.mp hfind sub hsub
        rwa [isOpen_iff, not_not] at hclosed
      simp only [roomGrounds, Queues.place, hfind, if_pos hfull]
    | some sub =>
      have hroom : ¬∀ sub ∈ Subroutine.all, s.Full sub := fun hfull =>
        isOpen_iff.mp (List.find?_some hfind) (hfull sub (Subroutine.mem_all sub))
      simp only [roomGrounds, Queues.place, hfind, if_neg hroom]

/-! ### What refuses an addition -/

theorem enables_iff {level : Level} (hlevel : s.level = some level) {sub : Subroutine} :
    s.Enables sub ↔ level.enabled.get sub = true := by
  simp [Enables, hlevel]

/-- The checks that come one after the other find the first ground. -/
theorem head?_grounds (s : Session) (command : Command) (placement : Placement) :
    (s.grounds (.ok command) placement).head? =
      match s.refusal? command with
      | some reason => some reason
      | none => (s.roomGrounds placement).head? := by
  obtain ⟨operation, condition⟩ := command
  cases hlevel : s.level with
  | none => simp [grounds, refusal?, hlevel]
  | some level =>
    cases hrun : s.run with
    | some run => simp [grounds, refusal?, hlevel, hrun]
    | none =>
      -- what is left to refuse is a call of a subroutine that is not enabled, and lack of room
      cases operation with
      | move motion => simp [grounds, refusal?, hlevel, hrun]
      | unknown => simp [grounds, refusal?, hlevel, hrun]
      | call sub =>
        by_cases henabled : level.enabled.get sub = true
        · simp [grounds, refusal?, hlevel, hrun, enables_iff hlevel, henabled]
        · simp [grounds, refusal?, hlevel, hrun, enables_iff hlevel, henabled]

/-- Adding a command refuses it for the first ground, or puts it at the end of a queue. -/
theorem add_outcome (s : Session) (command : Command) (placement : Placement) :
    match (s.grounds (.ok command) placement).head? with
    | some reason => s.add command placement = s.refuse reason
    | none => ∃ sub, s.Takes placement sub ∧ s.Adds command sub (s.add command placement) := by
  rw [head?_grounds, roomGrounds_eq, add]
  cases hrefusal : s.refusal? command with
  | some reason => rfl
  | none =>
    cases hplace : s.queues.place placement with
    | error reason => rfl
    | ok sub =>
      refine ⟨sub, takes_of_place hplace, ?_⟩
      exact {
        appended := Queues.commands_push_self _ _ _
        others := fun other hother => Queues.commands_push_of_ne _ _ hother
        rest := rfl
        events := by simp [queueEvent, queue] }

theorem apply_of_addition? {action : Action} {reading : Except Refusal Command}
    {placement : Placement} (h : action.addition? = some (reading, placement)) :
    (∃ command, reading = .ok command ∧ s.apply action = s.add command placement) ∨
      ∃ input, reading = .error (.malformed input) ∧
        s.apply action = s.refuse (.malformed input) := by
  cases action with
  | add command place =>
    obtain ⟨rfl, rfl⟩ : .ok command = reading ∧ place = placement := by
      simpa [Action.addition?] using h
    exact .inl ⟨command, rfl, rfl⟩
  | submit operation condition place =>
    obtain ⟨rfl, rfl⟩ : Command.ofLabels operation condition = reading ∧ place = placement := by
      simpa [Action.addition?] using h
    cases hreading : Command.ofLabels operation condition with
    | ok command => exact .inl ⟨command, rfl, by simp [Session.apply, applyWith, submit, hreading]⟩
    | error reason =>
      obtain ⟨input, rfl⟩ := Command.malformed_of_ofLabels hreading
      exact .inr ⟨input, rfl, by simp [Session.apply, applyWith, submit, hreading]⟩
  | _ => contradiction

/-- An action that is refused reports that alone and changes nothing. A command that is to be queued,
as such or by its labels, is refused for the first of the grounds against it. Without any it goes to
the end of one queue: the one that is named, or else the first that is below its capacity. -/
theorem refused_or_added (s : Session) (action : Action) :
    ((∀ reason, .refused reason ∉ (s.apply action).report.events) ∨
      ∃ reason, (s.apply action).report.events = [.refused reason] ∧ (s.apply action).state = s) ∧
    ∀ reading placement, action.addition? = some (reading, placement) →
      match (s.grounds reading placement).head? with
      | some reason =>
        (s.apply action).report.events = [.refused reason] ∧ (s.apply action).state = s
      | none => ∃ command sub,
        reading = .ok command ∧ s.Takes placement sub ∧ s.Adds command sub (s.apply action) := by
  constructor
  · by_cases hrefused : ∃ reason, .refused reason ∈ (s.apply action).report.events
    · obtain ⟨reason, hreason⟩ := hrefused
      rw [apply_eq_refuse hreason]
      exact .inr ⟨reason, rfl, rfl⟩
    · exact .inl fun reason hreason => hrefused ⟨reason, hreason⟩
  · intro reading placement haddition
    rcases apply_of_addition? haddition with ⟨command, rfl, happly⟩ | ⟨input, rfl, happly⟩
    · have houtcome := s.add_outcome command placement
      rw [happly]
      cases hfirst : (s.grounds (.ok command) placement).head? with
      | some reason =>
        rw [hfirst] at houtcome
        rw [show s.add command placement = s.refuse reason from houtcome]
        exact ⟨rfl, rfl⟩
      | none =>
        rw [hfirst] at houtcome
        obtain ⟨sub, htakes, hadds⟩ := houtcome
        exact ⟨command, sub, rfl, htakes, hadds⟩
    · rw [happly]
      exact ⟨rfl, rfl⟩

/-- A session with a full first queue and a second one without room. -/
def crowded : Session :=
  (fresh.applyAll
    [.load ⟨[[.path .grey, .goal]], ⟨0, 0, .right⟩, ⟨1, 0, 2⟩, ⟨false, false, true⟩, "a step"⟩,
      .add ⟨.call .f3, none⟩ .firstOpen]).state

/-- The first of two grounds counts, and what is accepted goes to the third queue. -/
theorem crowded_refuses_and_adds :
    (crowded.apply (.add ⟨.call .f2, none⟩ (.slot .f1))).report.events =
        [.refused (.disabled .f2)] ∧
      ∃ sub, crowded.Takes .firstOpen sub ∧
        crowded.Adds ⟨.move .forward, none⟩ sub
          (crowded.apply (.add ⟨.move .forward, none⟩ .firstOpen)) := by
  have hcall := (refused_or_added crowded (.add ⟨.call .f2, none⟩ (.slot .f1))).2 _ _ rfl
  have hmove := (refused_or_added crowded (.add ⟨.move .forward, none⟩ .firstOpen)).2 _ _ rfl
  have hgrounds : (crowded.grounds (.ok ⟨.call .f2, none⟩) (.slot .f1)).head? =
      some (.disabled .f2) := by decide
  have hnone : (crowded.grounds (.ok ⟨.move .forward, none⟩) .firstOpen).head? = none := by decide
  rw [hgrounds] at hcall
  rw [hnone] at hmove
  obtain ⟨command, sub, hcommand, htakes, hadds⟩ := hmove
  obtain rfl := Except.ok.inj hcommand
  exact ⟨hcall.1, sub, htakes, hadds⟩

end Session

end TileWalk
