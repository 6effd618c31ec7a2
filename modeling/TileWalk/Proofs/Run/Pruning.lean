import Mathlib.Data.List.Forall2
import TileWalk.Proofs.Run.Simulation
import TileWalk.Proofs.Run.TailCall

/-!
Programs without their dead commands. A command without a known operation never runs, and grey as a
condition never holds a command back. Taking the ones out and dropping the other moves every command
to another place and makes tail calls of calls that were none, but it simulates: `simulates_pruned`.

The comparison goes through engines that keep every caller. There the stacks of the two programs
correspond activation by activation, and trimming either of them is a matter of tail calls alone.
-/

namespace TileWalk

namespace Command

/-- The command without a condition that holds on every tile. -/
def plain (c : Command) : Command :=
  { c with condition := if c.condition = some .grey then none else c.condition }

/-- The commands that have a known operation, without conditions that hold on every tile. -/
def prune (commands : List Command) : List Command :=
  (commands.filter fun c => c.operation != .unknown).map plain

@[simp] theorem operation_plain (c : Command) : c.plain.operation = c.operation := rfl

@[simp] theorem isSkipped_plain (c : Command) (tile : Tile) :
    c.plain.isSkipped tile = c.isSkipped tile := by
  have hadmits : tile.admits c.plain.condition = tile.admits c.condition := by
    unfold plain
    dsimp only
    split
    · next hgrey => rw [hgrey, Tile.admits_none, Tile.admits_grey]
    · rfl
  rw [isSkipped, isSkipped, operation_plain, hadmits]

theorem mem_prune {d : Command} {commands : List Command} (h : d ∈ prune commands) :
    ∃ c ∈ commands, d = c.plain := by
  obtain ⟨c, hc, rfl⟩ := List.mem_map.mp h
  exact ⟨c, List.mem_of_mem_filter hc, rfl⟩

theorem prune_append (a b : List Command) : prune (a ++ b) = prune a ++ prune b := by
  rw [prune, List.filter_append, List.map_append]
  rfl

theorem prune_cons {c : Command} (h : c.operation ≠ .unknown) (commands : List Command) :
    prune (c :: commands) = c.plain :: prune commands := by
  rw [prune, List.filter_cons, if_pos (by simpa using h), List.map_cons]
  rfl

end Command

namespace Run

variable {p q : Slots (List Command)}

/-! ### The next command of a pruned subroutine -/

/-- What comes first of the commands that are not skipped is found. -/
theorem fetch?_append_cons {tile : Tile} {index : Nat} {passed rest : List Command} {c : Command}
    (hpassed : ∀ d ∈ passed, d.isSkipped tile = true) (hc : c.isSkipped tile = false) :
    fetch? tile index (passed ++ c :: rest) = some (index + passed.length + 1, c) := by
  induction passed generalizing index with
  | nil => simp [fetch?, hc]
  | cons d passed ih =>
    rw [List.cons_append, fetch?, if_pos (hpassed d List.mem_cons_self),
      ih fun e he => hpassed e (List.mem_cons_of_mem _ he), List.length_cons]
    simp only [Option.some.injEq, Prod.mk.injEq, and_true]
    omega

theorem fetch?_eq_none {tile : Tile} {index : Nat} {commands : List Command}
    (h : ∀ c ∈ commands, c.isSkipped tile = true) : fetch? tile index commands = none := by
  induction commands generalizing index with
  | nil => rfl
  | cons c commands ih =>
    rw [fetch?, if_pos (h c List.mem_cons_self)]
    exact ih fun d hd => h d (List.mem_cons_of_mem _ hd)

theorem rest_add (a : Activation) (n : Nat) :
    Activation.rest p { a with next := a.next + n } = (Activation.rest p a).drop n := by
  rw [Activation.rest, Activation.rest, List.drop_drop]

/-- The activation `b` of a pruned program has left what the activation `a` has, pruned. -/
structure Pruned (p : Slots (List Command)) (a b : Activation) : Prop where
  byCall : a.byCall = b.byCall
  rest : Activation.rest (p.map Command.prune) b = Command.prune (Activation.rest p a)

namespace Pruned

variable {a b : Activation} {tile : Tile}

theorem fetch?_eq_none (h : Pruned p a b) (hnone : fetch? tile a.next (Activation.rest p a) = none) :
    fetch? tile b.next (Activation.rest (p.map Command.prune) b) = none := by
  rw [h.rest]
  refine Run.fetch?_eq_none fun d hd => ?_
  obtain ⟨c, hc, rfl⟩ := Command.mem_prune hd
  rw [Command.isSkipped_plain]
  exact isSkipped_of_fetch?_eq_none hnone c hc

/-- Both activations find the same command and leave corresponding commands after it. -/
theorem fetch?_eq_some {next : Nat} {c : Command} (h : Pruned p a b)
    (hfetch : fetch? tile a.next (Activation.rest p a) = some (next, c)) :
    ∃ next', fetch? tile b.next (Activation.rest (p.map Command.prune) b) = some (next', c.plain) ∧
      Pruned p { a with next } { b with next := next' } := by
  obtain ⟨passed, hrest, hpassed, hc⟩ := rest_of_fetch? hfetch
  have hknown : c.operation ≠ .unknown := by
    intro hop
    simp [Command.isSkipped, hop] at hc
  have hpruned := h.rest
  rw [hrest, Command.prune_append, Command.prune_cons hknown] at hpruned
  have hskipped : ∀ d ∈ Command.prune passed, d.isSkipped tile = true := by
    intro d hd
    obtain ⟨e, he, rfl⟩ := Command.mem_prune hd
    rw [Command.isSkipped_plain]
    exact hpassed e he
  refine ⟨b.next + (Command.prune passed).length + 1, ?_, h.byCall, ?_⟩
  · rw [hpruned]
    exact fetch?_append_cons hskipped ((Command.isSkipped_plain c tile).trans hc)
  · rw [Nat.add_assoc, rest_add, hpruned, List.drop_append]
    simp

end Pruned

/-! ### Stacks of a program and of the pruned program -/

/-- The same outcome, or the same waiting command, as it is and pruned, above corresponding
stacks. -/
inductive PrunedPause (p : Slots (List Command)) : Pause → Pause → Prop
  | waiting {stack pruned : List Activation} (c : Command)
      (h : List.Forall₂ (Pruned p) stack pruned) :
      PrunedPause p (.waiting stack c) (.waiting pruned c.plain)
  | finished (outcome : Outcome) : PrunedPause p (.finished outcome) (.finished outcome)

theorem prunedPause_seek (tile : Tile) {stack pruned : List Activation}
    (h : List.Forall₂ (Pruned p) stack pruned) :
    PrunedPause p (seek p tile stack).1 (seek (p.map Command.prune) tile pruned).1 := by
  induction h with
  | nil => exact .finished .exhausted
  | @cons a b stack pruned hab h ih =>
    cases hfetch : fetch? tile a.next (Activation.rest p a) with
    | some found =>
      obtain ⟨next', hfetch', hnext⟩ := hab.fetch?_eq_some hfetch
      rw [seek_of_fetch?_eq_some stack hfetch, seek_of_fetch?_eq_some pruned hfetch']
      split
      · exact .finished .offPath
      · exact .waiting _ (.cons hnext h)
    | none =>
      rw [seek_of_fetch?_eq_none stack hfetch,
        seek_of_fetch?_eq_none pruned (hab.fetch?_eq_none hfetch), hab.byCall]
      split
      · exact .finished .won
      · exact ih

theorem call_nest (s : Subroutine) (stack : List Activation) :
    call .nest p s stack = ⟨s, 0, true⟩ :: stack := by
  cases stack with
  | nil => rfl
  | cons caller callers => simp [call]

theorem pruned_call (s : Subroutine) {stack pruned : List Activation}
    (h : List.Forall₂ (Pruned p) stack pruned) :
    List.Forall₂ (Pruned p) (call .nest p s stack) (call .nest (p.map Command.prune) s pruned) := by
  rw [call_nest, call_nest]
  refine .cons ⟨rfl, ?_⟩ h
  rw [Activation.rest, Activation.rest, Slots.get_map]
  rfl

/-- Stacks of a program and of the pruned program that correspond once the callers are back that
tail calls have replaced. -/
def PrunedStacks (p : Slots (List Command)) : StackRelation := fun a b =>
  ∃ full pruned, Trimmed p a full ∧ List.Forall₂ (Pruned p) full pruned ∧
    Trimmed (p.map Command.prune) b pruned

theorem prunedStacks_initial : PrunedStacks p initialStack initialStack := by
  refine ⟨initialStack, initialStack, .refl _, .cons ⟨rfl, ?_⟩ .nil, .refl _⟩
  rw [Activation.rest, Activation.rest, Slots.get_map]
  rfl

theorem PrunedStacks.call (s : Subroutine) {a b : List Activation} (h : PrunedStacks p a b) :
    PrunedStacks p (Run.call .replace p s a) (Run.call .replace (p.map Command.prune) s b) := by
  obtain ⟨full, pruned, hfull, hpruned, hlean⟩ := h
  exact ⟨_, _, hfull.call s, pruned_call s hpruned, hlean.call s⟩

/-- A run of the pruned program keeps up with a run of the program. -/
theorem simulates_pruned (p : Slots (List Command)) :
    Simulates p (p.map Command.prune) (PrunedStacks p) := by
  rintro tile a b ⟨full, pruned, hfull, hpruned, hlean⟩
  have h1 := hfull.seek tile
  have h2 := prunedPause_seek tile hpruned
  have h3 := hlean.seek tile
  generalize (seek p tile a).1 = w at h1 ⊢
  generalize (seek p tile full).1 = x at h1 h2
  generalize (seek (p.map Command.prune) tile pruned).1 = y at h2 h3
  generalize (seek (p.map Command.prune) tile b).1 = z at h3 ⊢
  cases h2 with
  | finished outcome =>
    cases h1
    cases h3
    exact .finished outcome
  | waiting c h =>
    cases h1 with
    | waiting _ htrim =>
      cases h3 with
      | waiting _ hlean =>
        have hstacks : PrunedStacks p _ _ := ⟨_, _, htrim, h, hlean⟩
        exact .waiting (Command.operation_plain c).symm hstacks fun s _ => hstacks.call s

end Run

end TileWalk
