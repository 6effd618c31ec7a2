import TileWalk.Proofs.Run.Execution

/-!
Runs side by side. Two engines may differ in what becomes of callers and in the program that they
run. A relation between pauses that they keep from command to command (`Bisimulation`) they keep for
as many commands as fall due, and report the same events (`Bisimulation.executeDue`).

For two programs it is enough to relate stacks, so that the walk to the next command keeps the
relation, whatever the tile (`Simulates`).
-/

namespace TileWalk

/-- Stages at the same cursor after the same number of commands, with pauses in relation. -/
inductive Stage.Alike (R : Pause → Pause → Prop) : Stage → Stage → Prop
  | intro (cursor : Cursor) (executed : UInt32) {x y : Pause} (h : R x y) :
      Stage.Alike R ⟨cursor, executed, x⟩ ⟨cursor, executed, y⟩

namespace Run

variable {left right : TailCall} {p q : Slots (List Command)} {tileUnder : Cursor → Tile}

/-! ### Two engines -/

/-- Where two engines come to after the same command: at the same cursor, with pauses in
relation. -/
inductive Arrivals (R : Pause → Pause → Prop) : Cursor × Pause → Cursor × Pause → Prop
  | intro (cursor : Cursor) {x y : Pause} (h : R x y) : Arrivals R (cursor, x) (cursor, y)

/-- Pauses from which two engines go on alike, one with the program `p` and the other with `q`. Both
runs are over with the same outcome, or both wait for commands that do the same, and on whatever
tile they are done, the walk leads to pauses in relation. -/
inductive Lockstep (left right : TailCall) (p q : Slots (List Command))
    (R : Pause → Pause → Prop) : Pause → Pause → Prop
  | finished (outcome : Outcome) : Lockstep left right p q R (.finished outcome) (.finished outcome)
  | waiting {a b : List Activation} {c d : Command} (hop : c.operation = d.operation)
      (hseek : ∀ tile, R (seek p tile a).1 (seek q tile b).1)
      (hcall : ∀ s, c.operation = .call s → ∀ tile,
        R (seek p tile (call left p s a)).1 (seek q tile (call right q s b)).1) :
      Lockstep left right p q R (.waiting a c) (.waiting b d)

/-- A relation between pauses that two engines keep from command to command. -/
structure Bisimulation (left right : TailCall) (p q : Slots (List Command))
    (R : Pause → Pause → Prop) : Prop where
  won : R (.finished .won) (.finished .won)
  lockstep : ∀ {x y : Pause}, R x y → Lockstep left right p q R x y

namespace Bisimulation

variable {R : Pause → Pause → Prop} (hR : Bisimulation left right p q R)

include hR

theorem execute {a b : List Activation} {c d : Command} (h : R (.waiting a c) (.waiting b d))
    (cursor : Cursor) :
    Step.Alike (Arrivals R) (Run.execute left p tileUnder cursor a c)
      (Run.execute right q tileUnder cursor b d) := by
  have haside : ∀ {queues : Slots (List Command)} {tile : Tile} {stack : List Activation},
      ∀ note ∈ (seek queues tile stack).2, note.IsAside := fun _ => isAside_of_mem_seek
  cases hR.lockstep h with
  | waiting hop hseek hcall =>
    cases hc : c.operation with
    | move motion =>
      simp only [Run.execute, ← hop, hc]
      by_cases hgoal : tileUnder (cursor.step motion) = .goal
      · rw [if_pos hgoal, if_pos hgoal]
        exact ⟨.intro _ hR.won, .refl _⟩
      · rw [if_neg hgoal, if_neg hgoal]
        exact ⟨.intro _ (hseek _), .executing haside haside⟩
    | call s =>
      simp only [Run.execute, ← hop, hc]
      exact ⟨.intro _ (hcall s hc _), .executing haside haside⟩
    | unknown =>
      simp only [Run.execute, ← hop, hc]
      exact ⟨.intro _ (hseek _), .executing haside haside⟩

theorem executeDue (due : Nat) {a b : Stage} (h : Stage.Alike R a b) :
    Step.Alike (Stage.Alike R) (Run.executeDue left p tileUnder due a)
      (Run.executeDue right q tileUnder due b) := by
  induction due generalizing a b with
  | zero => exact .stay h
  | succ due ih =>
    obtain ⟨cursor, executed, hpause⟩ := h
    cases hR.lockstep hpause with
    | finished outcome =>
      rw [executeDue_of_finished rfl, executeDue_of_finished rfl]
      exact .stay (.intro cursor executed hpause)
    | waiting hop hseek hcall =>
      rw [executeDue_of_waiting rfl, executeDue_of_waiting rfl]
      refine (hR.execute hpause cursor).next ?_
      rintro _ _ ⟨moved, hafter⟩
      exact ih (.intro moved _ hafter)

end Bisimulation

/-! ### Two programs -/

/-- A relation between the stacks of runs of two programs. -/
abbrev StackRelation := List Activation → List Activation → Prop

variable {R : StackRelation}

/-- The same outcome, or waiting commands that do the same to stacks in relation. -/
inductive Parallel (p q : Slots (List Command)) (R : StackRelation) : Pause → Pause → Prop
  | waiting {a b : List Activation} {c d : Command} (hop : c.operation = d.operation)
      (hstack : R a b)
      (hcall : ∀ s, c.operation = .call s → R (call .replace p s a) (call .replace q s b)) :
      Parallel p q R (.waiting a c) (.waiting b d)
  | finished (outcome : Outcome) : Parallel p q R (.finished outcome) (.finished outcome)

/-- From stacks in relation the walk to the next command leads to parallel pauses. -/
def Simulates (p q : Slots (List Command)) (R : StackRelation) : Prop :=
  ∀ tile a b, R a b → Parallel p q R (seek p tile a).1 (seek q tile b).1

theorem Simulates.bisimulation (hR : Simulates p q R) :
    Bisimulation .replace .replace p q (Parallel p q R) where
  won := .finished .won
  lockstep h := by
    cases h with
    | finished outcome => exact .finished outcome
    | waiting hop hstack hcall =>
      exact .waiting hop (fun tile => hR tile _ _ hstack) fun s hs tile =>
        hR tile _ _ (hcall s hs)

end Run

end TileWalk
