import TileWalk.Proofs.Run.Pause

/-!
The footing of a run: due commands lead the cursor from pose to pose, one executed motion at a time,
and each motion is made from a tile that is not void (`Stage.Sound.treads_executeDue`).
-/

namespace TileWalk

def Operation.motion? : Operation → Option Motion
  | .move motion => some motion
  | .call _ | .unknown => none

/-- The motions that a report tells were executed, in order. -/
def Report.motions (report : Report) : List Motion :=
  report.operations.filterMap Operation.motion?

@[simp] theorem Report.motions_append (a b : Report) :
    (a ++ b).motions = a.motions ++ b.motions := by
  simp [motions]

/-- `Treads tileUnder start motions poses last`: the motions lead from `start` to `last`, each from
a tile that is not void, and `poses` are those after each motion. -/
inductive Treads (tileUnder : Cursor → Tile) : Cursor → List Motion → List Cursor → Cursor → Prop
  | stand (c : Cursor) : Treads tileUnder c [] [] c
  | move {c last : Cursor} {m : Motion} {motions : List Motion} {poses : List Cursor}
      (hpath : tileUnder c ≠ .void) (h : Treads tileUnder (c.step m) motions poses last) :
      Treads tileUnder c (m :: motions) (c.step m :: poses) last

namespace Treads

variable {tileUnder : Cursor → Tile} {start last : Cursor} {motions : List Motion}
variable {poses : List Cursor}

/-- The motion made first, second and so on leads from the pose in that place to the next. -/
theorem motion_at (h : Treads tileUnder start motions poses last) {k : Nat} {m : Motion}
    (hm : motions[k]? = some m) :
    ∃ c, (start :: poses)[k]? = some c ∧ poses[k]? = some (c.step m) ∧ tileUnder c ≠ .void := by
  induction h generalizing k with
  | stand => simp at hm
  | @move c last first motions poses hpath h ih =>
    cases k with
    | zero =>
      obtain rfl : first = m := by simpa using hm
      exact ⟨c, rfl, rfl, hpath⟩
    | succ k =>
      obtain ⟨before, hbefore, hafter, htile⟩ := ih hm
      exact ⟨before, hbefore, hafter, htile⟩

theorem length_poses (h : Treads tileUnder start motions poses last) :
    poses.length = motions.length := by
  induction h with
  | stand => rfl
  | move hpath h ih => rw [List.length_cons, List.length_cons, ih]

theorem getLast?_cons_poses (h : Treads tileUnder start motions poses last) :
    (start :: poses).getLast? = some last := by
  induction h with
  | stand => rfl
  | move hpath h ih => rw [List.getLast?_cons_cons, ih]

/-- With a motion made, the cursor is where the last pose tells. -/
theorem getLast?_poses (h : Treads tileUnder start motions poses last) (hmoves : motions ≠ []) :
    poses.getLast? = some last := by
  have hlast := h.getLast?_cons_poses
  cases h with
  | stand => contradiction
  | move hpath h => rwa [List.getLast?_cons_cons] at hlast

/-- What holds at the start and after every motion made from a tile that is not void holds at the
end. -/
theorem invariant {P : Cursor → Prop} (h : Treads tileUnder start motions poses last)
    (hstep : ∀ c m, tileUnder c ≠ .void → P (c.step m)) (hstart : P start) : P last := by
  induction h with
  | stand => exact hstart
  | move hpath h ih => exact ih (hstep _ _ hpath)

end Treads

section

variable {policy : TailCall} {queues : Slots (List Command)} {tileUnder : Cursor → Tile}
variable {stage : Stage}

/-- A command that executes on a tile that is not void comes first: a motion treads to the next
pose, and a call stays where it is. -/
theorem Treads.execute {cursor last : Cursor} {stack : List Activation} {command : Command}
    {motions : List Motion} {poses : List Cursor} {executed : Step (Cursor × Pause)}
    (hexecuted : Run.execute policy queues tileUnder cursor stack command = executed)
    (hpath : tileUnder cursor ≠ .void) (h : Treads tileUnder executed.state.1 motions poses last) :
    Treads tileUnder cursor (executed.report.motions ++ motions) (executed.report.poses ++ poses)
      last := by
  have hmotions : executed.report.motions = command.operation.motion?.toList := by
    rw [← hexecuted, Report.motions, Run.operations_execute]
    cases command.operation <;> rfl
  rw [hmotions]
  cases hop : command.operation with
  | move motion =>
    simp only [Run.execute, hop] at hexecuted
    subst hexecuted
    exact .move hpath h
  | call s =>
    simp only [Run.execute, hop] at hexecuted
    subst hexecuted
    exact h
  | unknown =>
    simp only [Run.execute, hop] at hexecuted
    subst hexecuted
    exact h

/-- Due commands of a sound stage tread on tiles that are not void. -/
theorem Stage.Sound.treads_executeDue (h : stage.Sound queues tileUnder) (due : Nat) :
    let done := Run.executeDue policy queues tileUnder due stage
    Treads tileUnder stage.cursor done.report.motions done.report.poses done.state.cursor := by
  dsimp only
  induction due generalizing stage with
  | zero => exact .stand _
  | succ due ih =>
    cases hpause : stage.pause with
    | finished outcome =>
      rw [Run.executeDue_of_finished hpause]
      exact .stand _
    | waiting stack command =>
      rw [Run.executeDue_of_waiting hpause, Step.report_next, Report.motions_append,
        Report.poses_append]
      exact .execute rfl (h.waits hpause).onPath (ih (h.execute hpause))

end

end TileWalk
