import TileWalk.Proofs.Run.Footing
import TileWalk.Proofs.Session.Origin

/-!
How far the cursor goes. A run makes a motion only from a tile that is not void, and so from within
the grid. Wherever actions lead, the cursor is at the start position or at most one cell beyond the
grid, and no step forward is held back at the upper end of the coordinates
(`stays_near_and_goes_one_ahead`).
-/

namespace TileWalk

namespace Cursor

/-- From `before` to `after` the cursor has gone one cell ahead, or it is held back at zero. -/
def OneAhead (before after : Cursor) : Prop :=
  after.direction = before.direction ∧
    match before.direction with
    | .up => after.x = before.x ∧
      (after.y.toNat + 1 = before.y.toNat ∨ before.y = 0 ∧ after.y = 0)
    | .right => after.x.toNat = before.x.toNat + 1 ∧ after.y = before.y
    | .down => after.x = before.x ∧ after.y.toNat = before.y.toNat + 1
    | .left => (after.x.toNat + 1 = before.x.toNat ∨ before.x = 0 ∧ after.x = 0) ∧
      after.y = before.y

theorem oneAhead_forward {c : Cursor} (hx : c.x.toNat < 4294967295)
    (hy : c.y.toNat < 4294967295) : c.OneAhead c.forward := by
  obtain ⟨x, y, d⟩ := c
  cases d with
  | up => exact ⟨rfl, rfl, decrement_cases y⟩
  | right => exact ⟨rfl, toNat_increment_of_lt hx, rfl⟩
  | down => exact ⟨rfl, rfl, toNat_increment_of_lt hy⟩
  | left => exact ⟨rfl, decrement_cases x, rfl⟩

/-- A motion goes no further than one cell. -/
theorem toNat_step_le (c : Cursor) (m : Motion) :
    (c.step m).x.toNat ≤ c.x.toNat + 1 ∧ (c.step m).y.toNat ≤ c.y.toNat + 1 := by
  obtain ⟨x, y, d⟩ := c
  cases m with
  | forward =>
    cases d <;> simp only [step, forward, toNat_increment, toNat_decrement] <;> omega
  | turn side => exact ⟨Nat.le_succ _, Nat.le_succ _⟩

end Cursor

namespace Level

variable {level : Level} {c : Cursor}

/-- The cursor is at the start position, or at most one cell beyond the grid. -/
def Near (level : Level) (c : Cursor) : Prop :=
  (c.x = level.start.x ∧ c.y = level.start.y) ∨
    (c.x.toNat ≤ level.width ∧ c.y.toNat ≤ level.height)

theorem lt_of_tile_ne_void {x y : UInt32} (h : level.tile x y ≠ .void) :
    x.toNat < level.width ∧ y.toNat < level.height := by
  constructor
  · by_contra hx
    exact h (cell_of_width_le (Nat.le_of_not_lt hx))
  · by_contra hy
    exact h (cell_of_height_le (Nat.le_of_not_lt hy))

theorem near_start (level : Level) : level.Near level.start := .inl ⟨rfl, rfl⟩

theorem near_step (h : level.tile c.x c.y ≠ .void) (m : Motion) : level.Near (c.step m) := by
  obtain ⟨hx, hy⟩ := lt_of_tile_ne_void h
  obtain ⟨hx', hy'⟩ := c.toNat_step_le m
  exact .inr ⟨Nat.le_trans hx' hx, Nat.le_trans hy' hy⟩

end Level

namespace Session

variable {s : Session}

theorem poses_arrive (s : Session) (stage : Stage) (elapsed : Duration) :
    (s.arrive stage elapsed).report.poses = [] := by
  unfold arrive
  split
  · rfl
  · next outcome _ => cases outcome <;> rfl

/-- A tick leads the cursor over tiles that are not void. -/
theorem Reachable.treads_tick (hs : s.Reachable) (elapsed : Duration) :
    let ticked := s.tick .replace elapsed
    Treads s.tileUnder s.cursor ticked.report.motions ticked.report.poses ticked.state.cursor := by
  dsimp only
  cases hrun : s.run with
  | none =>
    rw [tick_of_idle hrun]
    exact .stand _
  | some run =>
    have hflight := hs.inFlight hrun
    have hmotions : ∀ stage elapsed, (s.arrive stage elapsed).report.motions = [] := by
      intro stage elapsed
      rw [Report.motions, operations_arrive, List.filterMap_nil]
    rw [tick_eq hrun hflight.lowered, Step.report_next, Report.motions_append,
      Report.poses_append, hmotions, poses_arrive, List.append_nil, List.append_nil,
      Step.state_next, cursor_arrive]
    exact hflight.sound.treads_executeDue _

/-- If the session has a level, the cursor is near it. -/
def InReach (s : Session) : Prop := ∀ level, s.level = some level → level.Near s.cursor

theorem cursor_launch (s : Session) : s.launch.state.cursor = s.cursor := by
  rw [launch_eq, Step.state_next, cursor_arrive, cursor_firstStage]

theorem inReach_apply (hs : s.Reachable) (h : s.InReach) (action : Action) :
    (s.apply action).state.InReach := by
  have htransition := s.apply_transition action
  generalize s.apply action = step at htransition ⊢
  -- only a load, a reset and a tick move the cursor: to the start, or over tiles of the level
  cases htransition with
  | refused | pushed | popped | unchanged | paced => exact h
  | loaded level =>
    intro loaded hloaded
    obtain rfl : level = loaded := Option.some.inj hloaded
    exact level.near_start
  | reset =>
    intro level hlevel
    rw [reset, Step.state_next, state_cutOff] at hlevel ⊢
    have hcleared : s.level = some level := hlevel
    show level.Near ((s.level.map Level.start).getD s.cursor)
    rw [hcleared]
    exact level.near_start
  | started hlevel =>
    intro level hlevel
    rw [Step.state_next, level_launch, state_cutOff] at hlevel
    rw [Step.state_next, cursor_launch, state_cutOff]
    exact h level hlevel
  | aborted =>
    intro level hlevel
    rw [Step.state_next, state_cutOff] at hlevel ⊢
    exact h level hlevel
  | ticked elapsed =>
    intro level hlevel
    rw [level_tick] at hlevel
    refine (hs.treads_tick elapsed).invariant (fun c m htile => ?_) (h level hlevel)
    rw [tileUnder, tile, hlevel] at htile
    exact Level.near_step htile m

theorem Reachable.inReach (hs : s.Reachable) : s.InReach := by
  induction hs with
  | ofPacing => exact nofun
  | apply action hs ih => exact inReach_apply hs ih action

/-- Only a tick makes motions. -/
theorem motions_of_ne_tick (s : Session) {action : Action}
    (h : ∀ elapsed, action ≠ .tick elapsed) : (s.apply action).report.motions = [] := by
  rw [Report.motions, s.operations_of_ne_tick h, List.filterMap_nil]

/-- An action that makes motions treads on tiles that are not void. -/
theorem Reachable.treads_apply (hs : s.Reachable) (action : Action)
    (h : (s.apply action).report.motions ≠ []) :
    let applied := s.apply action
    Treads s.tileUnder s.cursor applied.report.motions applied.report.poses
      applied.state.cursor := by
  cases action with
  | tick elapsed => exact hs.treads_tick elapsed
  | _ => exact (h (s.motions_of_ne_tick nofun)).elim

/-- Wherever actions lead, the cursor is at the start position of the level or at most one cell
beyond the grid. If the sides of the grid fit in a coordinate, then every step forward that an
action executes leads exactly one cell ahead, except that it is held back at zero: the poses that
the action reports follow the cursor, one for each executed motion, and the last one is where the
cursor is afterwards. -/
theorem stays_near_and_goes_one_ahead (hs : s.Reachable) {level : Level}
    (hlevel : s.level = some level) (hwidth : level.width ≤ 4294967295)
    (hheight : level.height ≤ 4294967295) :
    level.Near s.cursor ∧
      ∀ action, let applied := s.apply action
        (applied.report.motions ≠ [] →
          applied.report.poses.length = applied.report.motions.length ∧
            applied.report.poses.getLast? = some applied.state.cursor) ∧
        ∀ k : Nat, applied.report.motions[k]? = some Motion.forward →
          ∃ before after : Cursor, (s.cursor :: applied.report.poses)[k]? = some before ∧
            applied.report.poses[k]? = some after ∧ before.OneAhead after := by
  refine ⟨hs.inReach level hlevel, fun action => ⟨fun hmoves => ?_, fun k hk => ?_⟩⟩
  · have htreads := hs.treads_apply action hmoves
    exact ⟨htreads.length_poses, htreads.getLast?_poses hmoves⟩
  · have hmoves : (s.apply action).report.motions ≠ [] := by
      intro hnone
      simp [hnone] at hk
    obtain ⟨before, hbefore, hafter, htile⟩ := (hs.treads_apply action hmoves).motion_at hk
    rw [tileUnder, tile, hlevel] at htile
    obtain ⟨hx, hy⟩ := Level.lt_of_tile_ne_void htile
    exact ⟨before, before.forward, hbefore, hafter,
      Cursor.oneAhead_forward (Nat.lt_of_lt_of_le hx hwidth) (Nat.lt_of_lt_of_le hy hheight)⟩

/-- A session on two tiles whose program, about to run, steps ahead three times. -/
def hallway : Session :=
  (fresh.applyAll
    [.load ⟨[[.path .grey, .path .grey]], ⟨0, 0, .right⟩, .const 3, .const true, "two tiles"⟩,
      .add ⟨.move .forward, none⟩ (.slot .f1),
      .add ⟨.move .forward, none⟩ (.slot .f1),
      .add ⟨.move .forward, none⟩ (.slot .f1),
      .start]).state

/-- The third step is not made, for the second leads beyond the grid. -/
theorem hallway_stays_near :
    let applied := hallway.apply (.tick (.ofMillis 900))
    ∃ level, hallway.level = some level ∧ level.width = 2 ∧ level.height = 1 ∧
      level.Near hallway.cursor ∧
      applied.report.motions = [.forward, .forward] ∧
      applied.report.poses = [⟨1, 0, .right⟩, ⟨2, 0, .right⟩] ∧
      applied.state.cursor = ⟨2, 0, .right⟩ ∧
      Cursor.OneAhead ⟨1, 0, .right⟩ ⟨2, 0, .right⟩ := by
  have hlevel : hallway.level = some ⟨[[.path .grey, .path .grey]], ⟨0, 0, .right⟩, .const 3,
      .const true, "two tiles"⟩ := by decide
  have hmotions : (hallway.apply (.tick (.ofMillis 900))).report.motions =
      [.forward, .forward] := by decide
  have hposes : (hallway.apply (.tick (.ofMillis 900))).report.poses =
      [⟨1, 0, .right⟩, ⟨2, 0, .right⟩] := by decide
  have hreachable : hallway.Reachable := (Reachable.ofPacing _).applyAll _
  obtain ⟨hnear, hactions⟩ :=
    stays_near_and_goes_one_ahead hreachable hlevel (by decide) (by decide)
  obtain ⟨hall, hahead⟩ := hactions (.tick (.ofMillis 900))
  obtain ⟨-, hlast⟩ := hall (by simp [hmotions])
  obtain ⟨before, after, hbefore, hafter, hone⟩ := hahead 1 (by simp [hmotions])
  rw [hposes] at hbefore hafter hlast
  obtain rfl := Option.some.inj hbefore
  obtain rfl := Option.some.inj hafter
  exact ⟨_, hlevel, by decide, by decide, hnear, hmotions, hposes, (Option.some.inj hlast).symm,
    hone⟩

end Session

end TileWalk
