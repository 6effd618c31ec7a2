import TileWalk.Proofs.Script.Installation

/-!
The queues as one stack. Where commands are put in the first queue with room and taken back from the
last that holds any, right after a load, the two searches meet at the same place: all queues before
it are full and all after it are empty (`Session.Stacked`). So the three queues together are a stack
with room for as many commands as there is in all of them (`queues_are_one_stack`).
-/

namespace TileWalk

/-- An action on the queues that names none of them. -/
inductive Edit
  | add (command : Command)
  /-- Adds the command that two labels describe. -/
  | submit (operation : String) (condition : Option String)
  | takeBack
deriving DecidableEq

namespace Edit

def action : Edit → Action
  | add command => .add command .firstOpen
  | submit operation condition => .submit operation condition .firstOpen
  | takeBack => .takeBack

/-- The command that an edit is to add, unless its labels cannot be read. -/
def reading? : Edit → Option (Except Refusal Command)
  | add command => some (.ok command)
  | submit operation condition => some (Command.ofLabels operation condition)
  | takeBack => none

theorem eq_takeBack_of_reading? {edit : Edit} (h : edit.reading? = none) : edit = takeBack := by
  cases edit with
  | takeBack => rfl
  | _ => contradiction

end Edit

namespace Level

/-- The number of commands that all queues together have room for. -/
def room (level : Level) : Nat := (Subroutine.all.map level.capacities.get).sum

theorem room_eq (level : Level) : level.room =
    level.capacities.get .f1 + level.capacities.get .f2 + level.capacities.get .f3 := by
  simp [room, Subroutine.all, Nat.add_assoc]

/-- What an edit makes of a stack of commands that has the room of the level. -/
def stacked (level : Level) (stack : List Command) (edit : Edit) : List Command :=
  match edit.reading? with
  | some (.ok command) =>
    if level.permits command = true ∧ stack.length < level.room then stack ++ [command] else stack
  | some (.error _) => stack
  | none => stack.dropLast

end Level

theorem Subroutine.forall_iff {p : Subroutine → Prop} : (∀ s, p s) ↔ p .f1 ∧ p .f2 ∧ p .f3 :=
  ⟨fun h => ⟨h _, h _, h _⟩, fun ⟨h1, h2, h3⟩ s => by cases s <;> assumption⟩

/-- A search from the last subroutine on finds the last one with a property. -/
theorem Subroutine.find?_reverse_all_eq_some_iff {p : Subroutine → Bool} {s : Subroutine} :
    all.reverse.find? p = some s ↔ p s = true ∧ ∀ t, s.index < t.index → p t = false := by
  cases h1 : p .f1 <;> cases h2 : p .f2 <;> cases h3 : p .f3 <;> cases s <;>
    simp [all, forall_iff, index, h1, h2, h3]

namespace Queues

variable {q : Queues} {sub : Subroutine}

/-- All that is queued, in slot order. -/
def contents (q : Queues) : List Command := Subroutine.all.flatMap q.commands.get

/-- No queue after that of `sub` holds anything. -/
def EndsBy (q : Queues) (sub : Subroutine) : Prop :=
  ∀ later : Subroutine, sub.index < later.index → q.commands.get later = []

/-- A queue comes into use when those before it are full. -/
def Packed (q : Queues) : Prop :=
  ∀ sub, q.commands.get sub ≠ [] → ∀ earlier : Subroutine, earlier.index < sub.index →
    q.capacities.get earlier ≤ (q.commands.get earlier).length

theorem length_contents (q : Queues) :
    q.contents.length = (q.commands.get .f1).length + (q.commands.get .f2).length +
      (q.commands.get .f3).length := by
  simp [contents, Subroutine.all, Nat.add_assoc]

theorem lastUsed?_eq_some_iff :
    q.lastUsed? = some sub ↔ q.commands.get sub ≠ [] ∧ q.EndsBy sub := by
  rw [lastUsed?, Subroutine.find?_reverse_all_eq_some_iff]
  simp [EndsBy]

theorem lastUsed?_eq_none_iff : q.lastUsed? = none ↔ q.contents = [] := by
  simp [lastUsed?, contents]

/-! ### The end of all that is queued -/

/-- What is in the last queue in use, whatever it is, is the end of all that is queued. -/
theorem EndsBy.exists_contents_set (h : q.EndsBy sub) :
    ∃ before, ∀ commands,
      contents { q with commands := q.commands.set sub commands } = before ++ commands := by
  cases sub with
  | f1 =>
    have h2 : q.commands.f2 = [] := h .f2 (by decide)
    have h3 : q.commands.f3 = [] := h .f3 (by decide)
    exact ⟨[], fun commands => by simp [contents, Subroutine.all, Slots.set, Slots.get, h2, h3]⟩
  | f2 =>
    have h3 : q.commands.f3 = [] := h .f3 (by decide)
    exact ⟨q.commands.f1, fun commands => by
      simp [contents, Subroutine.all, Slots.set, Slots.get, h3]⟩
  | f3 =>
    exact ⟨q.commands.f1 ++ q.commands.f2, fun commands => by
      simp [contents, Subroutine.all, Slots.set, Slots.get]⟩

theorem EndsBy.contents_push (h : q.EndsBy sub) (command : Command) :
    (q.push sub command).contents = q.contents ++ [command] := by
  obtain ⟨before, hbefore⟩ := h.exists_contents_set
  have hq := hbefore (q.commands.get sub)
  rw [Slots.set_get] at hq
  rw [push, hbefore, hq, List.append_assoc]

theorem EndsBy.contents_pop (h : q.EndsBy sub) (hne : q.commands.get sub ≠ []) :
    (q.pop sub).contents = q.contents.dropLast := by
  obtain ⟨before, hbefore⟩ := h.exists_contents_set
  have hq := hbefore (q.commands.get sub)
  rw [Slots.set_get] at hq
  rw [pop, hbefore, hq, List.dropLast_append_of_ne_nil hne]

theorem EndsBy.set (h : q.EndsBy sub) (commands : List Command) :
    EndsBy { q with commands := q.commands.set sub commands } sub := by
  intro later hlater
  have hne : later ≠ sub := by
    rintro rfl
    exact Nat.lt_irrefl _ hlater
  rw [Slots.get_set_of_ne _ _ hne]
  exact h later hlater

/-- The queue that a command is put at the end of is the last one in use then. -/
theorem EndsBy.lastUsed?_push (h : q.EndsBy sub) (command : Command) :
    (q.push sub command).lastUsed? = some sub :=
  lastUsed?_eq_some_iff.mpr ⟨by simp, h.set _⟩

theorem pop_push (q : Queues) (sub : Subroutine) (command : Command) :
    (q.push sub command).pop sub = q := by
  simp [pop, push]

/-! ### Packed queues -/

theorem packed_ofCapacities (capacities : Slots Nat) : (ofCapacities capacities).Packed :=
  fun sub h => absurd (Slots.get_const [] sub) h

theorem Packed.endsBy (h : q.Packed)
    (hroom : (q.commands.get sub).length < q.capacities.get sub) : q.EndsBy sub := by
  intro later hlater
  by_contra hne
  exact Nat.not_lt.mpr (h later hne sub hlater) hroom

/-- The last queue in use may hold anything, as long as those before it are full. -/
theorem EndsBy.packed_set (h : q.EndsBy sub)
    (hearlier : ∀ earlier : Subroutine, earlier.index < sub.index →
      q.capacities.get earlier ≤ (q.commands.get earlier).length) (commands : List Command) :
    Packed { q with commands := q.commands.set sub commands } := by
  intro used hused earlier hlt
  have hle : used.index ≤ sub.index := by
    by_contra hlater
    exact hused (h.set commands used (by omega))
  have hne : earlier ≠ sub := by
    rintro rfl
    omega
  rw [Slots.get_set_of_ne _ _ hne]
  exact hearlier earlier (by omega)

end Queues

namespace Session

variable {s t : Session} {level : Level} {edit : Edit} {edits : List Edit} {command : Command}
  {step : Step Session}

/-- The session is idle on the level, with packed queues. -/
structure Stacked (level : Level) (t : Session) : Prop where
  loaded : t.level = some level
  idle : t.run = none
  suit : t.queues.Suit (some level)
  packed : t.queues.Packed

/-- What an edit does to the stack: it leaves it alone, or it adds or removes a command at the end of
the last queue in use. -/
inductive Restacks (level : Level) (t : Session) (edit : Edit) : Step Session → Prop
  | refused {reading : Except Refusal Command} {reason : Refusal}
      (hreading : edit.reading? = some reading)
      (hreason : ∀ command, reading = .ok command → level.permits command = true →
        reason = .allFull ∧ t.queues.contents.length = level.room) :
      Restacks level t edit (t.refuse reason)
  | pushed {command : Command} {sub : Subroutine} (hreading : edit.reading? = some (.ok command))
      (hpermits : level.permits command = true) (hroom : t.queues.contents.length < level.room)
      (hends : t.queues.EndsBy sub) (hpacked : (t.queues.push sub command).Packed) :
      Restacks level t edit
        ⟨{ t with queues := t.queues.push sub command },
          ⟨[.queue sub (t.queue sub ++ [command])], [.queued command.operation sub]⟩⟩
  | popped {sub : Subroutine} (hreading : edit.reading? = none) (hused : t.queue sub ≠ [])
      (hends : t.queues.EndsBy sub) :
      Restacks level t edit
        ⟨{ t with queues := t.queues.pop sub },
          ⟨[.queue sub (t.queue sub).dropLast], [.tookBack sub]⟩⟩
  /-- There is nothing to take back. -/
  | unchanged (hreading : edit.reading? = none) (hempty : t.queues.contents = []) :
      Restacks level t edit (.stay t)

/-- The session after some edits. -/
def edited (s : Session) (edits : List Edit) : Session :=
  (s.applyAll (edits.map Edit.action)).state

/-- Of all insertions among the edits that were not undone, the one after `before` came last. What it
added has been there ever since, and is now at the end of all that is queued. -/
structure Latest (s : Session) (edits before : List Edit) (insertion : Edit) (command : Command) :
    Prop where
  reading : insertion.reading? = some (.ok command)
  made : before ++ [insertion] <+: edits
  survives : ∀ part, before ++ [insertion] <+: part → part <+: edits →
    (s.edited before).queues.contents ++ [command] <+: (s.edited part).queues.contents
  last : (s.edited edits).queues.contents = (s.edited before).queues.contents ++ [command]

/-! ### One edit -/

theorem Stacked.capacities (h : Stacked level t) : t.queues.capacities = level.capacities :=
  h.suit.capacities

theorem Stacked.length_le_room (h : Stacked level t) :
    t.queues.contents.length ≤ level.room := by
  have hfits := h.suit.fits
  rw [h.capacities, Subroutine.forall_iff] at hfits
  rw [Queues.length_contents, Level.room_eq]
  omega

theorem Stacked.length_eq_room_iff (h : Stacked level t) :
    t.queues.contents.length = level.room ↔ ∀ sub, t.Full sub := by
  have hfits := h.suit.fits
  rw [h.capacities, Subroutine.forall_iff] at hfits
  rw [Queues.length_contents, Level.room_eq]
  simp only [Full, queue, h.capacities, Subroutine.forall_iff]
  omega

theorem takeBack_of_idle (hrun : t.run = none) :
    t.apply .takeBack = match t.queues.lastUsed? with
      | some sub =>
        ⟨{ t with queues := t.queues.pop sub },
          ⟨[.queue sub (t.queue sub).dropLast], [.tookBack sub]⟩⟩
      | none => .stay t := by
  show t.takeBack = _
  rw [takeBack, if_neg (by simp [hrun])]
  cases t.queues.lastUsed? with
  | none => rfl
  | some sub => simp [queueEvent, queue]

theorem Stacked.add (h : Stacked level t) (hreading : edit.reading? = some (.ok command)) :
    Restacks level t edit (t.add command .firstOpen) := by
  cases hpermits : level.permits command with
  | false =>
    obtain ⟨callee, hcall, hdisabled⟩ := Level.permits_eq_false_iff.mp hpermits
    simp only [Session.add, refusal?_of_disabled h.loaded h.idle hcall hdisabled]
    refine .refused hreading fun other hother hpermitted => ?_
    obtain rfl := Except.ok.inj hother
    rw [hpermits] at hpermitted
    contradiction
  | true =>
    have hgrounds := t.roomGrounds_eq .firstOpen
    simp only [Session.add, refusal?_of_permits h.loaded h.idle hpermits]
    cases hplace : t.queues.place .firstOpen with
    | error reason =>
      rw [hplace, roomGrounds] at hgrounds
      split at hgrounds
      · next hfull =>
        obtain rfl := List.singleton_inj.mp hgrounds
        exact .refused hreading fun _ _ _ =>
          ⟨rfl, h.length_eq_room_iff.mpr fun sub => hfull sub sub.mem_all⟩
      · contradiction
    | ok sub =>
      cases takes_of_place hplace with
      | first hroom hearlier =>
        have hends := h.packed.endsBy (Nat.lt_of_not_le hroom)
        have hlt : t.queues.contents.length < level.room :=
          Nat.lt_of_le_of_ne h.length_le_room fun heq => hroom (h.length_eq_room_iff.mp heq sub)
        have hpushed := @Restacks.pushed level t edit command sub hreading hpermits hlt hends
          (hends.packed_set hearlier _)
        simpa [queueEvent, queue] using hpushed

/-- Every edit does to the packed queues what it does to a stack. -/
theorem Stacked.restacks (h : Stacked level t) (edit : Edit) :
    Restacks level t edit (t.apply edit.action) := by
  cases edit with
  | add command => exact h.add rfl
  | submit operation condition =>
    simp only [Edit.action, Session.apply, applyWith, submit]
    cases hreading : Command.ofLabels operation condition with
    | ok command => exact h.add (congrArg some hreading)
    | error reason =>
      refine .refused (congrArg some hreading) fun command hok => ?_
      contradiction
  | takeBack =>
    rw [Edit.action, takeBack_of_idle h.idle]
    split
    · next sub hused =>
      obtain ⟨hne, hends⟩ := Queues.lastUsed?_eq_some_iff.mp hused
      exact .popped rfl hne hends
    · next hused => exact .unchanged rfl (Queues.lastUsed?_eq_none_iff.mp hused)

theorem Stacked.after (h : Stacked level t) (edit : Edit) :
    Stacked level (t.apply edit.action).state := by
  have hstep := h.restacks edit
  have hsuit := (t.apply_transition edit.action).suit (h.loaded ▸ h.suit)
  generalize t.apply edit.action = step at hstep hsuit ⊢
  cases hstep with
  | refused | unchanged => exact h
  | pushed _ _ _ _ hpacked => exact ⟨h.loaded, h.idle, h.loaded ▸ hsuit, hpacked⟩
  | popped _ hused hends =>
    exact ⟨h.loaded, h.idle, h.loaded ▸ hsuit, hends.packed_set (h.packed _ hused) _⟩

theorem Restacks.contents_eq (hstep : Restacks level t edit step) :
    step.state.queues.contents = level.stacked t.queues.contents edit := by
  cases hstep with
  | @refused reading reason hreading hreason =>
    simp only [Level.stacked, hreading]
    cases reading with
    | error => rfl
    | ok command =>
      dsimp only
      rw [if_neg]
      · rfl
      · rintro ⟨hpermits, hroom⟩
        exact Nat.ne_of_lt hroom (hreason command rfl hpermits).2
  | pushed hreading hpermits hroom hends =>
    simp only [Level.stacked, hreading]
    rw [if_pos ⟨hpermits, hroom⟩]
    exact hends.contents_push _
  | popped hreading hused hends =>
    simp only [Level.stacked, hreading]
    exact hends.contents_pop hused
  | unchanged hreading hempty => simp [Level.stacked, hreading, hempty]

theorem Restacks.refused_or_pushed (hstep : Restacks level t edit step)
    {reading : Except Refusal Command} (hreading : edit.reading? = some reading) :
    (∃ reason, step.report.events = [.refused reason] ∧ step.state = t) ∨
      ∃ command, reading = .ok command ∧ (∀ reason, .refused reason ∉ step.report.events) ∧
        step.state.queues.contents = t.queues.contents ++ [command] := by
  cases hstep with
  | refused => exact .inl ⟨_, rfl, rfl⟩
  | @pushed command sub hread _ _ hends =>
    obtain rfl := Option.some.inj (hreading.symm.trans hread)
    exact .inr ⟨command, rfl, by simp, hends.contents_push command⟩
  | popped hnone | unchanged hnone =>
    rw [hreading] at hnone
    contradiction

theorem Restacks.refused_iff_full (hstep : Restacks level t edit step)
    (hreading : edit.reading? = some (.ok command)) (hpermits : level.permits command = true) :
    ((∃ reason, .refused reason ∈ step.report.events) ↔
        t.queues.contents.length = level.room) ∧
      ∀ reason, .refused reason ∈ step.report.events → reason = .allFull := by
  cases hstep with
  | refused hread hreason =>
    obtain rfl := Option.some.inj (hreading.symm.trans hread)
    obtain ⟨rfl, hfull⟩ := hreason command rfl hpermits
    simp [refuse, hfull]
  | pushed _ _ hroom => simp [Nat.ne_of_lt hroom]
  | popped hnone | unchanged hnone =>
    rw [hreading] at hnone
    contradiction

theorem Stacked.takeBack (h : Stacked level t) (hne : t.queues.contents ≠ []) :
    (t.apply .takeBack).state.queues.contents = t.queues.contents.dropLast ∧
      ∃ sub commands, (t.apply .takeBack).report.events = [.queue sub commands] := by
  have hstep := h.restacks .takeBack
  refine ⟨hstep.contents_eq, ?_⟩
  rw [Edit.action] at hstep
  generalize t.apply .takeBack = step at hstep ⊢
  cases hstep with
  | refused hread | pushed hread => contradiction
  | popped => exact ⟨_, _, rfl⟩
  | unchanged _ hnil => exact absurd hnil hne

/-- To take back what was just put on the stack leads back to where it was put there. -/
theorem Stacked.takeBack_push (h : Stacked level t) {sub : Subroutine}
    (hends : t.queues.EndsBy sub) (command : Command) :
    ({ t with queues := t.queues.push sub command }.apply .takeBack).state = t := by
  have hidle : { t with queues := t.queues.push sub command }.run = none := h.idle
  rw [takeBack_of_idle hidle, hends.lastUsed?_push]
  dsimp only
  rw [Queues.pop_push]

/-! ### All edits -/

theorem edited_append (s : Session) (a b : List Edit) :
    s.edited (a ++ b) = (s.edited a).edited b := by
  simp [edited, applyAll_append]

theorem edited_singleton (s : Session) (edit : Edit) :
    s.edited [edit] = (s.apply edit.action).state := by
  simp [edited]

theorem stacked_load (s : Session) (level : Level) :
    Stacked level (s.apply (.load level)).state := by
  rw [state_load]
  exact ⟨rfl, rfl, .ofCapacities rfl, Queues.packed_ofCapacities _⟩

theorem Stacked.edited (h : Stacked level s) (edits : List Edit) :
    Stacked level (s.edited edits) ∧
      (s.edited edits).queues.contents = edits.foldl level.stacked s.queues.contents := by
  induction edits generalizing s with
  | nil => exact ⟨h, rfl⟩
  | cons edit edits ih =>
    have hstep := h.restacks edit
    have hrest := ih (h.after edit)
    rw [← List.singleton_append, edited_append, edited_singleton, List.foldl_append]
    rw [hstep.contents_eq] at hrest
    exact hrest

/-! ### The latest insertion -/

variable {before before' : List Edit} {insertion insertion' : Edit} {command' : Command}

/-- An insertion that is made is the latest. -/
theorem latest_concat (hreading : edit.reading? = some (.ok command))
    (hlast : (s.edited (edits ++ [edit])).queues.contents =
      (s.edited edits).queues.contents ++ [command]) :
    s.Latest (edits ++ [edit]) edits edit command where
  reading := hreading
  made := List.prefix_rfl
  survives part hmade hpart := by
    rw [hpart.eq_of_length_le hmade.length_le]
    exact hlast ▸ List.prefix_rfl
  last := hlast

/-- The latest insertion stays the latest over an edit that does nothing. -/
theorem Latest.extend (h : s.Latest edits before insertion command)
    (hsame : s.edited (edits ++ [edit]) = s.edited edits) :
    s.Latest (edits ++ [edit]) before insertion command where
  reading := h.reading
  made := h.made.trans (List.prefix_append _ _)
  survives part hmade hpart := by
    rcases List.prefix_concat_iff.mp hpart with rfl | hpart
    · exact ⟨[], by rw [List.append_nil, hsame, h.last]⟩
    · exact h.survives part hmade hpart
  last := hsame ▸ h.last

/-- When the latest insertion is undone, the latest before it is the latest again. -/
theorem Latest.resume (h : s.Latest edits before insertion command)
    (hundone : s.edited (edits ++ [edit]) = s.edited before)
    (hearlier : s.Latest before before' insertion' command') :
    s.Latest (edits ++ [edit]) before' insertion' command' where
  reading := hearlier.reading
  made := hearlier.made.trans <| (List.prefix_append before _).trans <| h.made.trans <|
    List.prefix_append edits _
  survives part hmade hpart := by
    rcases List.prefix_concat_iff.mp hpart with rfl | hpart
    · exact ⟨[], by rw [List.append_nil, hundone, hearlier.last]⟩
    · rcases Nat.lt_or_ge before.length part.length with hlonger | hshorter
      · -- what was put in earlier lies below what the undone insertion put in
        have hinserted : before ++ [insertion] <+: part :=
          List.prefix_of_prefix_length_le h.made hpart (by simp; omega)
        have hbelow := h.survives part hinserted hpart
        rw [hearlier.last] at hbelow
        exact (List.prefix_append _ _).trans hbelow
      · have hbefore : before <+: edits := (List.prefix_append _ _).trans h.made
        exact hearlier.survives part hmade (List.prefix_of_prefix_length_le hpart hbefore hshorter)
  last := hundone ▸ hearlier.last

theorem Stacked.exists_latest (h : Stacked level s) (hempty : s.queues.contents = [])
    (hne : (s.edited edits).queues.contents ≠ []) :
    ∃ before insertion command, s.Latest edits before insertion command ∧
      ((s.edited edits).apply .takeBack).state = s.edited before := by
  -- An insertion that is undone gives way to an earlier one, so the induction is on the length.
  induction hn : edits.length using Nat.strongRecOn generalizing edits with
  | _ n ih =>
    rcases edits.eq_nil_or_concat with rfl | ⟨earlier, edit, rfl⟩
    · exact absurd hempty hne
    · rw [List.concat_eq_append] at hne hn ⊢
      have hearlier := (h.edited earlier).1
      have hstep := hearlier.restacks edit
      have hnext : s.edited (earlier ++ [edit]) = ((s.edited earlier).apply edit.action).state := by
        rw [edited_append, edited_singleton]
      have hshort : earlier.length < n := by simp [← hn]
      generalize hmade : (s.edited earlier).apply edit.action = step at hstep hnext
      cases hstep with
      | refused | unchanged =>
        have hsame : s.edited (earlier ++ [edit]) = s.edited earlier := hnext
        rw [hsame] at hne ⊢
        obtain ⟨before, insertion, command, hlatest, hundo⟩ := ih _ hshort hne rfl
        exact ⟨before, insertion, command, hlatest.extend hsame, hundo⟩
      | @pushed command sub hreading _ _ hends =>
        refine ⟨earlier, edit, command, latest_concat hreading ?_, ?_⟩
        · rw [hnext]
          exact hends.contents_push command
        · rw [hnext]
          exact hearlier.takeBack_push hends command
      | @popped sub hreading hused hends =>
        obtain rfl := Edit.eq_takeBack_of_reading? hreading
        have hsome : (s.edited earlier).queues.contents ≠ [] := fun hnil => by
          have hnone := Queues.lastUsed?_eq_none_iff.mpr hnil
          rw [Queues.lastUsed?_eq_some_iff.mpr ⟨hused, hends⟩] at hnone
          contradiction
        obtain ⟨before, insertion, command, hlatest, hundo⟩ := ih _ hshort hsome rfl
        have hundone : s.edited (earlier ++ [.takeBack]) = s.edited before := by
          rw [hnext, ← hmade]
          exact hundo
        have hshorter := hlatest.made.length_le
        rw [List.length_append, List.length_singleton] at hshorter
        rw [hundone] at hne ⊢
        obtain ⟨before', insertion', command', hlatest', hundo'⟩ := ih _ (by omega) hne rfl
        exact ⟨before', insertion', command', hlatest.resume hundone hlatest', hundo'⟩

/-- Right after a level is loaded, and after any edits, what is queued is what the edits make of one
stack with the room of all queues. An edit that adds a command is refused and changes nothing, or
puts the command at the end. A command that can be read and is no call of a disabled subroutine is
refused if and only if there are as many commands as there is room, and because of that. To take
back does nothing if nothing is queued. Otherwise it removes the last command and so undoes the
latest insertion that was not undone before: the session is what it was before that. -/
theorem queues_are_one_stack (s : Session) (level : Level) (edits : List Edit) :
    let loaded := (s.apply (.load level)).state
    let t := loaded.edited edits
    t.queues.contents = edits.foldl level.stacked [] ∧
    (∀ (edit : Edit) reading, edit.reading? = some reading →
      let step := t.apply edit.action
      (∃ reason, step.report.events = [.refused reason] ∧ step.state = t) ∨
        ∃ command, reading = .ok command ∧ (∀ reason, .refused reason ∉ step.report.events) ∧
          step.state.queues.contents = t.queues.contents ++ [command]) ∧
    (∀ (edit : Edit) command, edit.reading? = some (.ok command) → level.permits command = true →
      let events := (t.apply edit.action).report.events
      ((∃ reason, .refused reason ∈ events) ↔ t.queues.contents.length = level.room) ∧
        ∀ reason, .refused reason ∈ events → reason = .allFull) ∧
    (t.queues.contents = [] → t.apply .takeBack = .stay t) ∧
    (t.queues.contents ≠ [] →
      let step := t.apply .takeBack
      step.state.queues.contents = t.queues.contents.dropLast ∧
        (∃ sub commands, step.report.events = [.queue sub commands]) ∧
        ∃ before insertion command, loaded.Latest edits before insertion command ∧
          step.state = loaded.edited before) := by
  intro loaded t
  have hloaded : Stacked level loaded := stacked_load s level
  have hempty : loaded.queues.contents = [] := by
    rw [show loaded = begun s.pacing level from state_load s level]
    rfl
  obtain ⟨ht, hcontents⟩ := hloaded.edited edits
  rw [hempty] at hcontents
  refine ⟨hcontents, fun edit reading hreading => (ht.restacks edit).refused_or_pushed hreading,
    fun edit command hreading hpermits => (ht.restacks edit).refused_iff_full hreading hpermits,
    fun hnil => ?_, fun hne => ?_⟩
  · rw [takeBack_of_idle ht.idle, Queues.lastUsed?_eq_none_iff.mpr hnil]
  · obtain ⟨hlast, hevents⟩ := ht.takeBack hne
    exact ⟨hlast, hevents, hloaded.exists_latest hempty hne⟩

/-- A level with room for one command in the first queue, for none in the second and for one in the
third. -/
def gapped : Level :=
  ⟨[[.path .grey, .goal]], ⟨0, 0, .right⟩, ⟨1, 0, 1⟩, ⟨true, false, true⟩, "a gap"⟩

/-- The first command and the last stay. The call of the second subroutine is refused, and the turn
is taken back. -/
def gappedEdits : List Edit :=
  [.submit "Move Forward" none, .add ⟨.call .f2, none⟩, .submit "turn left" (some "Red"), .takeBack,
    .add ⟨.call .f3, none⟩]

/-- The stack is full over the gap, and what is taken back is what was put in last. -/
theorem gapped_is_one_stack :
    let loaded := (spinner.apply (.load gapped)).state
    let t := loaded.edited gappedEdits
    t.queues.contents = [⟨.move .forward, none⟩, ⟨.call .f3, none⟩] ∧
      (∃ reason, .refused reason ∈
        (t.apply (Edit.add ⟨.move .forward, none⟩).action).report.events) ∧
      ∃ before insertion command, loaded.Latest gappedEdits before insertion command ∧
        (t.apply .takeBack).state = loaded.edited before := by
  obtain ⟨hcontents, -, hfull, -, htake⟩ := queues_are_one_stack spinner gapped gappedEdits
  have hstack : gappedEdits.foldl gapped.stacked [] =
      [⟨.move .forward, none⟩, ⟨.call .f3, none⟩] := by decide +kernel
  rw [hstack] at hcontents
  refine ⟨hcontents, ?_, ?_⟩
  · refine (hfull _ ⟨.move .forward, none⟩ rfl rfl).1.mpr ?_
    rw [hcontents]
    rfl
  · refine (htake ?_).2.2
    rw [hcontents]
    exact List.cons_ne_nil _ _

end Session

end TileWalk
