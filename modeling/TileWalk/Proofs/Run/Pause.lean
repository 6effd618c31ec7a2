import TileWalk.Proofs.Run.Execution

/-!
What a pause between two commands says of the tile under the cursor. In a `Sound` pause the command
that waits was passed last and does something on the tile, and an outcome is the truth about the
tile. The walk to the next command ends in a sound pause, and carrying out commands leads from sound
stages to sound stages (`Stage.Sound.executeDue`).
-/

namespace TileWalk

namespace Run

/-- The command is the one that the innermost activation passed last, and it does something on the
tile, which is not void. -/
structure Waits (queues : Slots (List Command)) (tile : Tile) (stack : List Activation)
    (command : Command) : Prop where
  passed : ∃ top callers, stack = top :: callers ∧ 0 < top.next ∧
    (queues.get top.subroutine)[top.next - 1]? = some command
  known : command.operation ≠ .unknown
  admitted : tile.admits command.condition = true
  onPath : tile ≠ .void

/-- Some activation checks for the goal when it is left. -/
def Watched (stack : List Activation) : Prop :=
  ∃ a ∈ stack, a.byCall = true

/-- A pause that says the truth about the tile under the cursor. That a run is not exhausted on the
goal holds only if it has `begun`: only after an executed command some activation is watching. -/
inductive Sound (queues : Slots (List Command)) (tile : Tile) (begun : Prop) : Pause → Prop
  | waiting {stack : List Activation} {command : Command} (hwaits : Waits queues tile stack command)
      (hwatched : begun → tile = .goal → Watched stack) :
      Sound queues tile begun (.waiting stack command)
  | offPath (htile : tile = .void) : Sound queues tile begun (.finished .offPath)
  | won (htile : tile = .goal) : Sound queues tile begun (.finished .won)
  | exhausted (htile : begun → tile ≠ .goal) : Sound queues tile begun (.finished .exhausted)

variable {policy : TailCall} {queues : Slots (List Command)} {tileUnder : Cursor → Tile}

/-! ### The walk to the next command -/

theorem waits_of_fetch? {tile : Tile} {a : Activation} {next : Nat} {c : Command}
    (h : fetch? tile a.next (Activation.rest queues a) = some (next, c)) (hpath : tile ≠ .void)
    (callers : List Activation) : Waits queues tile ({ a with next } :: callers) c := by
  obtain ⟨passed, rest, hrest, -, hc, rfl⟩ := fetch?_eq_some h
  have hindex : (Activation.rest queues a)[passed.length]? = some c := by
    rw [hrest, List.getElem?_append_right (Nat.le_refl _), Nat.sub_self]
    rfl
  rw [Activation.rest, List.getElem?_drop] at hindex
  obtain ⟨hknown, hadmitted⟩ : c.operation ≠ .unknown ∧ tile.admits c.condition = true := by
    simpa [Command.isSkipped] using hc
  exact ⟨⟨_, callers, rfl, Nat.succ_pos _, hindex⟩, hknown, hadmitted, hpath⟩

/-- The walk ends in a sound pause. On the goal it wins where it would leave the activation that
watches, so that one is still there if a command waits. -/
theorem sound_seek {tile : Tile} {begun : Prop} {stack : List Activation}
    (h : begun → tile = .goal → Watched stack) :
    Sound queues tile begun (seek queues tile stack).1 := by
  induction stack with
  | nil =>
    refine .exhausted fun hbegun hgoal => ?_
    obtain ⟨a, ha, -⟩ := h hbegun hgoal
    contradiction
  | cons a callers ih =>
    cases hfetch : fetch? tile a.next (Activation.rest queues a) with
    | some found =>
      rw [seek_of_fetch?_eq_some callers hfetch]
      split
      · next hvoid => exact .offPath hvoid
      · next hpath =>
        refine .waiting (waits_of_fetch? hfetch hpath callers) fun hbegun hgoal => ?_
        obtain ⟨b, hb, hcall⟩ := h hbegun hgoal
        rcases List.mem_cons.mp hb with rfl | hb
        · exact ⟨_, List.mem_cons_self, hcall⟩
        · exact ⟨b, List.mem_cons_of_mem _ hb, hcall⟩
    | none =>
      rw [seek_of_fetch?_eq_none callers hfetch]
      split
      · next hwon => exact .won hwon.2
      · next hgoes =>
        -- the activation that is left did not watch, or the tile is not the goal
        refine ih fun hbegun hgoal => ?_
        obtain ⟨b, hb, hcall⟩ := h hbegun hgoal
        rcases List.mem_cons.mp hb with rfl | hb
        · exact absurd ⟨hcall, hgoal⟩ hgoes
        · exact ⟨b, hb, hcall⟩

/-- A run begins in a sound pause: nothing is claimed of the goal before a command executes. -/
theorem sound_initial (tile : Tile) :
    Sound queues tile ((0 : UInt32) ≠ 0) (seek queues tile initialStack).1 :=
  sound_seek fun hbegun => absurd rfl hbegun

theorem watched_call (s : Subroutine) (stack : List Activation) :
    Watched (call policy queues s stack) := by
  refine ⟨⟨s, 0, true⟩, ?_, rfl⟩
  cases stack with
  | nil => exact List.mem_cons_self
  | cons caller callers =>
    rw [call]
    split <;> exact List.mem_cons_self

/-! ### Due commands -/

/-- Carrying out a command leads to a sound pause: a motion onto the goal wins, and a call enters a
subroutine that watches. -/
theorem sound_execute {cursor : Cursor} {stack : List Activation} {command : Command}
    (h : Waits queues (tileUnder cursor) stack command) (begun : Prop) :
    let after := (execute policy queues tileUnder cursor stack command).state
    Sound queues (tileUnder after.1) begun after.2 := by
  dsimp only
  cases hop : command.operation with
  | move motion =>
    simp only [execute, hop]
    split
    · next hgoal => exact .won hgoal
    · next hgoal => exact sound_seek fun _ htile => absurd htile hgoal
  | call s =>
    simp only [execute, hop]
    exact sound_seek fun _ _ => watched_call s stack
  | unknown => exact absurd hop h.known

end Run

/-- The pause of the stage is sound; the run has begun once a command has executed. -/
def Stage.Sound (queues : Slots (List Command)) (tileUnder : Cursor → Tile) (stage : Stage) :
    Prop :=
  Run.Sound queues (tileUnder stage.cursor) (stage.executed ≠ 0) stage.pause

namespace Stage.Sound

variable {policy : TailCall} {queues : Slots (List Command)} {tileUnder : Cursor → Tile}
variable {stage : Stage} {stack : List Activation} {command : Command}

theorem waits (h : stage.Sound queues tileUnder) (hpause : stage.pause = .waiting stack command) :
    Run.Waits queues (tileUnder stage.cursor) stack command := by
  rw [Stage.Sound, hpause] at h
  cases h with
  | waiting hwaits => exact hwaits

/-- The stage after the command that waits. -/
theorem execute (h : stage.Sound queues tileUnder) (hpause : stage.pause = .waiting stack command) :
    let after := (Run.execute policy queues tileUnder stage.cursor stack command).state
    Stage.Sound queues tileUnder ⟨after.1, increment stage.executed, after.2⟩ :=
  Run.sound_execute (h.waits hpause) _

theorem executeDue (h : stage.Sound queues tileUnder) (due : Nat) :
    (Run.executeDue policy queues tileUnder due stage).state.Sound queues tileUnder := by
  induction due generalizing stage with
  | zero => exact h
  | succ due ih =>
    cases hpause : stage.pause with
    | finished outcome =>
      rw [Run.executeDue_of_finished hpause]
      exact h
    | waiting stack command =>
      rw [Run.executeDue_of_waiting hpause]
      exact ih (h.execute hpause)

end Stage.Sound

end TileWalk
