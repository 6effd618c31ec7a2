import Mathlib.Logic.Function.Iterate
import TileWalk.Cursor

/-!
Walks as such, with no level under them. The facing at the end of a walk depends on its turns alone,
and a walk in which no step forward is clamped is undone by an about-turn, the same motions
backwards with left and right exchanged, and another about-turn
(`turns_add_up_and_walks_are_undone`).
-/

namespace TileWalk

/-! ### Quarter turns -/

namespace Direction

/-- The direction after `n` quarter turns to the right. Four of them make no difference, so a
negative number stands for turns to the left. -/
def quarters (d : Direction) (n : Int) : Direction := clockwise^[(n % 4).toNat] d

theorem clockwise_four (d : Direction) : clockwise^[4] d = d := by cases d <;> rfl

theorem quarters_clockwise (d : Direction) (n : Int) :
    d.clockwise.quarters n = d.quarters (n + 1) := by
  unfold quarters
  rw [← Function.iterate_succ_apply]
  by_cases hlast : n % 4 = 3
  · rw [show (n % 4).toNat.succ = 4 by omega, clockwise_four,
      show ((n + 1) % 4).toNat = 0 by omega]
    rfl
  · rw [show ((n + 1) % 4).toNat = (n % 4).toNat.succ by omega]

theorem quarters_counterclockwise (d : Direction) (n : Int) :
    d.counterclockwise.quarters n = d.quarters (n - 1) := by
  rw [show n = n - 1 + 1 by omega, ← quarters_clockwise, clockwise_counterclockwise,
    show n - 1 + 1 - 1 = n - 1 by omega]

end Direction

/-- The other side. -/
def Turn.opposite : Turn → Turn
  | left => right
  | right => left

/-- The motion with left and right exchanged. -/
def Motion.mirrored : Motion → Motion
  | forward => forward
  | turn side => turn side.opposite

namespace Cursor

/-- Motions that turn the cursor around in its place. -/
def aboutTurn : List Motion := [.turn .right, .turn .right]

/-- Some motions in reverse order, with left and right exchanged. -/
def wayBack (motions : List Motion) : List Motion := (motions.map Motion.mirrored).reverse

/-- The step forward from here is clamped at an end of the coordinates. -/
def Clamped (c : Cursor) : Prop :=
  match c.direction with
  | .up => c.y = 0
  | .right => c.x = 4294967295
  | .down => c.y = 4294967295
  | .left => c.x = 0

instance : DecidablePred Clamped
  | ⟨_, y, .up⟩ => inferInstanceAs (Decidable (y = 0))
  | ⟨x, _, .right⟩ => inferInstanceAs (Decidable (x = 4294967295))
  | ⟨_, y, .down⟩ => inferInstanceAs (Decidable (y = 4294967295))
  | ⟨x, _, .left⟩ => inferInstanceAs (Decidable (x = 0))

/-- No step forward of the walk is clamped. -/
def Unclamped (c : Cursor) (motions : List Motion) : Prop :=
  ∀ before after, motions = before ++ .forward :: after → ¬(c.follow before).Clamped

variable {c : Cursor} {m : Motion} {motions : List Motion}

theorem unclamped_cons :
    c.Unclamped (m :: motions) ↔
      (m = .forward → ¬c.Clamped) ∧ (c.step m).Unclamped motions := by
  constructor
  · intro h
    refine ⟨?_, fun before after hsplit => ?_⟩
    · rintro rfl
      exact h [] motions rfl
    · exact h (m :: before) after (by rw [hsplit, List.cons_append])
  · rintro ⟨hfirst, hrest⟩ before after hsplit
    cases before with
    | nil =>
      obtain ⟨rfl, -⟩ := List.cons.inj hsplit
      exact hfirst rfl
    | cons _ before =>
      obtain ⟨rfl, htail⟩ := List.cons.inj hsplit
      exact hrest before after htail

instance decidableUnclamped :
    (c : Cursor) → (motions : List Motion) → Decidable (c.Unclamped motions)
  | _, [] => .isTrue fun before after h => absurd h (by cases before <;> simp)
  | c, m :: motions =>
    have := decidableUnclamped (c.step m) motions
    decidable_of_iff _ (unclamped_cons.symm : _ ↔ c.Unclamped (m :: motions))

/-! ### The facing at the end -/

/-- How many more turns to the right than to the left there are. -/
def netTurns (motions : List Motion) : Int :=
  (motions.count (.turn .right) : Int) - motions.count (.turn .left)

theorem netTurns_forward (motions : List Motion) :
    netTurns (.forward :: motions) = netTurns motions := by
  simp [netTurns]

theorem netTurns_left (motions : List Motion) :
    netTurns (.turn .left :: motions) = netTurns motions - 1 := by
  simp [netTurns]
  omega

theorem netTurns_right (motions : List Motion) :
    netTurns (.turn .right :: motions) = netTurns motions + 1 := by
  simp [netTurns]
  omega

theorem direction_follow (c : Cursor) (motions : List Motion) :
    (c.follow motions).direction = c.direction.quarters (netTurns motions) := by
  induction motions generalizing c with
  | nil => rfl
  | cons m motions ih =>
    rw [follow_cons, ih]
    cases m with
    | forward => rw [step, direction_forward, netTurns_forward]
    | turn side =>
      rw [step, direction_turn]
      cases side with
      | left => rw [Direction.turn, Direction.quarters_counterclockwise, netTurns_left]
      | right => rw [Direction.turn, Direction.quarters_clockwise, netTurns_right]

/-! ### The way back -/

theorem follow_aboutTurn_twice (c : Cursor) : (c.follow aboutTurn).follow aboutTurn = c := by
  obtain ⟨x, y, d⟩ := c
  cases d <;> rfl

/-- After an about-turn the mirror image of a motion undoes it. -/
theorem step_mirrored (h : m = .forward → ¬c.Clamped) :
    ((c.step m).follow aboutTurn).step m.mirrored = c.follow aboutTurn := by
  obtain ⟨x, y, d⟩ := c
  cases m with
  | forward =>
    have hfree := h rfl
    cases d with
    | up =>
      show (⟨x, increment (decrement y), .down⟩ : Cursor) = ⟨x, y, .down⟩
      rw [increment_decrement hfree]
    | right =>
      show (⟨decrement (increment x), y, .left⟩ : Cursor) = ⟨x, y, .left⟩
      rw [decrement_increment hfree]
    | down =>
      show (⟨x, decrement (increment y), .up⟩ : Cursor) = ⟨x, y, .up⟩
      rw [decrement_increment hfree]
    | left =>
      show (⟨increment (decrement x), y, .right⟩ : Cursor) = ⟨x, y, .right⟩
      rw [increment_decrement hfree]
  | turn side => cases side <;> cases d <;> rfl

/-- After an about-turn the way back leads to the start, the other way around. -/
theorem follow_wayBack (h : c.Unclamped motions) :
    ((c.follow motions).follow aboutTurn).follow (wayBack motions) = c.follow aboutTurn := by
  induction motions generalizing c with
  | nil => rfl
  | cons m motions ih =>
    obtain ⟨hfirst, hrest⟩ := unclamped_cons.mp h
    -- the first motion is the last one to be undone
    have hback : wayBack (m :: motions) = wayBack motions ++ [m.mirrored] := by
      rw [wayBack, List.map_cons, List.reverse_cons, wayBack]
    rw [follow_cons, hback, follow_append, ih hrest]
    exact step_mirrored hfirst

/-- At the end of a walk the cursor faces where it faced at first, turned to the right by the
difference of the numbers of right and left turns modulo four. If no step forward of the walk is
clamped, then after an about-turn the walk can be made backwards with left and right exchanged, and
another about-turn leads to the very pose it started from. -/
theorem turns_add_up_and_walks_are_undone (c : Cursor) (motions : List Motion) :
    (c.follow motions).direction =
        Direction.clockwise^[(((motions.count (.turn .right) : Int) -
          motions.count (.turn .left)) % 4).toNat] c.direction ∧
      (c.Unclamped motions →
        c.follow (motions ++ aboutTurn ++ wayBack motions ++ aboutTurn) = c) := by
  refine ⟨c.direction_follow motions, fun h => ?_⟩
  rw [follow_append, follow_append, follow_append, follow_wayBack h, follow_aboutTurn_twice]

/-- A walk along the lower end of the plane, as far as it goes without being clamped. -/
theorem undone_at_lower_end :
    let c : Cursor := ⟨1, 4294967293, .down⟩
    let motions : List Motion := [.forward, .forward, .turn .right, .forward, .turn .right]
    c.Unclamped motions ∧ ¬c.Unclamped (.forward :: motions) ∧
      c.follow motions = ⟨0, 4294967295, .up⟩ ∧ Direction.clockwise^[2] c.direction = .up ∧
      c.follow (motions ++ aboutTurn ++ wayBack motions ++ aboutTurn) = c := by
  intro c motions
  have hfree : c.Unclamped motions := by decide
  obtain ⟨hfacing, hback⟩ := turns_add_up_and_walks_are_undone c motions
  exact ⟨hfree, by decide, by decide, hfacing.symm, hback hfree⟩

end Cursor

end TileWalk
