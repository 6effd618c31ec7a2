import TileWalk.Proofs.Session.Engine
import TileWalk.Proofs.Session.Transition

/-!
Every action ends, for endless programs too. No session accepts an interval that is not positive
(`interval_applyAll`), so wherever actions lead, the loop that spends the time of a tick ends, and
so does the walk to the first command of a run (`start_and_tick_end`).
-/

namespace TileWalk

/-! ### The interval -/

theorem Pacing.pos_of_ofInterval {interval : Duration} {pacing : Pacing}
    (h : ofInterval interval = .ok pacing) : 0 < interval.nanos ∧ pacing.interval = interval := by
  unfold ofInterval at h
  split at h
  · next hpos =>
    cases h
    exact ⟨hpos, rfl⟩
  · cases h

/-- The interval after an action: only a positive one takes the place of another. -/
def Action.intervalAfter (interval : Duration) : Action → Duration
  | .pace next => if 0 < next.nanos then next else interval
  | _ => interval

theorem Action.intervalAfter_pos {interval : Duration} (hpos : 0 < interval.nanos)
    (action : Action) : 0 < (intervalAfter interval action).nanos := by
  unfold intervalAfter
  split
  · split
    · assumption
    · exact hpos
  · exact hpos

theorem Action.foldl_intervalAfter_pos {interval : Duration} (hpos : 0 < interval.nanos)
    (actions : List Action) : 0 < (actions.foldl intervalAfter interval).nanos := by
  induction actions generalizing interval with
  | nil => exact hpos
  | cons action actions ih => exact ih (intervalAfter_pos hpos action)

namespace Session

variable {s : Session}

theorem Transition.pacing_eq {action : Action} {step : Step Session} (h : s.Transition action step)
    (hpace : ∀ interval, action ≠ .pace interval) : step.state.pacing = s.pacing := by
  cases h with
  | paced => exact absurd rfl (hpace _)
  | loaded level =>
    simp only [load, onLevel, Step.state_next, state_cutOff]
  | reset => simp only [Session.reset, cleared, Step.state_next, state_cutOff]
  | started => simp only [Step.state_next, pacing_launch, state_cutOff]
  | aborted => simp only [Step.state_next, Step.state_stay, state_cutOff]
  | ticked elapsed => exact s.pacing_tick elapsed
  | refused | pushed | popped | unchanged => rfl

theorem interval_apply (s : Session) (action : Action) :
    (s.apply action).state.pacing.interval = Action.intervalAfter s.pacing.interval action := by
  cases action with
  | pace next =>
    simp only [Session.apply, applyWith, pace, Pacing.ofInterval, Action.intervalAfter]
    by_cases hpos : 0 < next.nanos
    · rw [dif_pos hpos, if_pos hpos]
    · rw [dif_neg hpos, if_neg hpos]
      rfl
  | _ => exact congrArg Pacing.interval ((s.apply_transition _).pacing_eq (by simp))

theorem interval_applyAll (s : Session) (actions : List Action) :
    (s.applyAll actions).state.pacing.interval =
      actions.foldl Action.intervalAfter s.pacing.interval := by
  induction actions generalizing s with
  | nil => rfl
  | cons action actions ih =>
    rw [applyAll_cons, Step.state_next, ih, interval_apply]
    rfl

/-! ### A start and a tick -/

/-- The loops that an action runs, if it runs any, end, and with what they come to the action makes
this step. -/
inductive Concludes (s : Session) : Action → Step Session → Prop
  | refused (hlevel : s.level = none) : s.Concludes .start (s.refuse .noLevel)
  | started {rounds : Nat} {found : Step Pause} (hlevel : s.level.isSome = true)
      (hwalk : Halts (Run.walkRound s.cancelled s.queues.commands (s.tileUnder s.cursor)) rounds
        Run.initialStack found) :
      s.Concludes .start (s.cutOff.next fun t =>
        Step.next ⟨t, ⟨[.started], [.starting]⟩⟩ fun t =>
          found.next fun pause => t.arrive ⟨t.cursor, 0, pause⟩ .zero)
  | idle (elapsed : Duration) (hrun : s.run = none) : s.Concludes (.tick elapsed) (.stay s)
  | spent {run : Run} {elapsed : Duration} {rounds : Nat} {progress : Step Progress}
      (hrun : s.run = some run)
      (hloop : Halts (Engine.round s.pacing.interval s) rounds (.waits s.cursor run elapsed)
        progress) :
      s.Concludes (.tick elapsed) (progress.next s.settle)

theorem Concludes.unique {action : Action} {a b : Step Session} (ha : s.Concludes action a)
    (hb : s.Concludes action b) : a = b := by
  cases ha with
  | refused hlevel =>
    cases hb with
    | refused => rfl
    | started hsome => simp [hlevel] at hsome
  | started hsome hwalk =>
    cases hb with
    | refused hlevel => simp [hlevel] at hsome
    | started _ hwalk' => rw [(hwalk.unique hwalk').2]
  | idle elapsed hidle =>
    cases hb with
    | idle => rfl
    | spent hrun => simp [hidle] at hrun
  | spent hrun hloop =>
    cases hb with
    | idle _ hidle => simp [hidle] at hrun
    | spent hrun' hloop' =>
      obtain rfl := Option.some.inj (hrun.symm.trans hrun')
      rw [(hloop.unique hloop').2]

/-- A run starts with the walk to its first command. -/
theorem launch_eq_next (s : Session) :
    s.launch = Step.next ⟨s, ⟨[.started], [.starting]⟩⟩ fun s =>
      (Run.sought s.cancelled s.queues.commands (s.tileUnder s.cursor) Run.initialStack).next
        fun pause => s.arrive ⟨s.cursor, 0, pause⟩ .zero := by
  simp only [launch_eq, firstStage, Run.sought, Step.next]
  split <;> rfl

theorem concludes_start (s : Session) : s.Concludes .start (s.apply .start) := by
  cases hlevel : s.level with
  | none =>
    have hstart : s.apply .start = s.refuse .noLevel := by
      simp [Session.apply, applyWith, start, hlevel]
    rw [hstart]
    exact .refused hlevel
  | some level =>
    obtain ⟨rounds, -, hwalk⟩ := Run.halts_walkRound s.cancelled s.queues.commands
      (s.tileUnder s.cursor) Run.initialStack
    have hstart : s.apply .start = s.cutOff.next launch := by
      simp [Session.apply, applyWith, start, hlevel]
    -- the run that is cut off leaves all that the walk looks at as it is
    have hsought : s.cutOff.next launch = s.cutOff.next fun t =>
        Step.next ⟨t, ⟨[.started], [.starting]⟩⟩ fun t =>
          (Run.sought s.cancelled s.queues.commands (s.tileUnder s.cursor) Run.initialStack).next
            fun pause => t.arrive ⟨t.cursor, 0, pause⟩ .zero := by
      refine Step.next_congr ?_
      rw [launch_eq_next, state_cutOff]
      rfl
    rw [hstart, hsought]
    exact .started (by rw [hlevel]; rfl) hwalk

theorem concludes_tick (hs : s.Reachable) (elapsed : Duration) :
    s.Concludes (.tick elapsed) (s.apply (.tick elapsed)) := by
  show s.Concludes _ (s.tick .replace elapsed)
  cases hrun : s.run with
  | none =>
    rw [tick_of_idle hrun]
    exact .idle elapsed hrun
  | some run =>
    have hflag := (hs.inFlight hrun).lowered
    obtain ⟨rounds, progress, hloop⟩ :=
      Engine.halts s.pacing.positive s (.waits s.cursor run elapsed)
    have houtlook := hloop.eq_of_unrolls (Engine.outlook_unrolls hflag)
    have htick : s.tick .replace elapsed = progress.next s.settle := by
      rw [houtlook, tick_eq hrun hflag]
      simp only [← settle_ofStage]
      rfl
    rw [htick]
    exact .spent hrun hloop

/-- A tick executes no more commands than intervals fit into the time that the waiting command has
waited and the tick lets pass. -/
theorem length_operations_tick_le (hs : s.Reachable) {run : Run} (hrun : s.run = some run)
    (elapsed : Duration) :
    (s.apply (.tick elapsed)).report.operations.length ≤
      min (run.elapsed.nanos + elapsed.nanos) maxNanos / s.pacing.interval.nanos := by
  show (s.tick .replace elapsed).report.operations.length ≤ s.pacing.due (run.elapsed + elapsed)
  rw [tick_eq hrun (hs.inFlight hrun).lowered, Step.report_next, Report.operations_append,
    operations_arrive, List.append_nil]
  exact Run.length_operations_executeDue_le _ _

/-- Whatever is done to a session that begins with an accepted interval, its interval stays
positive: it is the last positive one that it was told. So the walk to the next command ends from
every stack, at the latest in the round after all its commands are passed and its activations left,
and a start and a tick of any length end, whatever the program is, with the step that the session
makes. A tick executes no more commands than intervals fit into the time there is. -/
theorem start_and_tick_end {interval : Duration} {pacing : Pacing}
    (haccepted : Pacing.ofInterval interval = .ok pacing) (actions : List Action) :
    let s := ((ofPacing pacing).applyAll actions).state
    (0 < s.pacing.interval.nanos ∧
        s.pacing.interval = actions.foldl Action.intervalAfter interval) ∧
      (∀ cursor stack, ∃ rounds ≤ Run.unpassed s.queues.commands stack + 1,
        Halts (Run.walkRound s.cancelled s.queues.commands (s.tileUnder cursor)) rounds stack
          (Run.sought s.cancelled s.queues.commands (s.tileUnder cursor) stack)) ∧
      (∀ step, s.Concludes .start step ↔ step = s.apply .start) ∧
      ∀ elapsed, (∀ step, s.Concludes (.tick elapsed) step ↔ step = s.apply (.tick elapsed)) ∧
        ∀ run, s.run = some run →
          (s.apply (.tick elapsed)).report.operations.length ≤
            min (run.elapsed.nanos + elapsed.nanos) maxNanos / s.pacing.interval.nanos := by
  intro s
  have hs : s.Reachable := (Reachable.ofPacing pacing).applyAll actions
  obtain ⟨hpos, hbegin⟩ := Pacing.pos_of_ofInterval haccepted
  have hinterval : s.pacing.interval = actions.foldl Action.intervalAfter interval := by
    rw [← hbegin]
    exact interval_applyAll _ actions
  refine ⟨⟨?_, hinterval⟩, fun cursor stack => ?_, fun step => ⟨fun h => ?_, ?_⟩,
    fun elapsed => ⟨fun step => ⟨fun h => ?_, ?_⟩, fun run hrun => ?_⟩⟩
  · rw [hinterval]
    exact Action.foldl_intervalAfter_pos hpos actions
  · exact Run.halts_walkRound _ _ _ stack
  · exact h.unique s.concludes_start
  · rintro rfl
    exact s.concludes_start
  · exact h.unique (concludes_tick hs elapsed)
  · rintro rfl
    exact concludes_tick hs elapsed
  · exact length_operations_tick_le hs hrun elapsed

/-- The spinner is told not to wait, which it refuses, and then to wait for 100 ms. The longest tick
there is ends all the same, after no more commands than 100 ms fit into it. -/
theorem spinner_ends_longest_tick :
    let actions : List Action :=
      [.load ⟨[[.path .grey]], ⟨0, 0, .up⟩, .const 3, .const true, "a single tile"⟩,
        .add ⟨.move (.turn .left), none⟩ (.slot .f1),
        .add ⟨.move .forward, some .red⟩ (.slot .f1),
        .add ⟨.call .f1, none⟩ (.slot .f1),
        .start, .tick (.ofMillis 700), .pace .zero, .pace (.ofMillis 100)]
    let longest : Duration := ⟨maxNanos, Nat.le_refl _⟩
    let s := (fresh.applyAll actions).state
    Pacing.ofInterval (.ofMillis 300) = .ok .standard ∧
      s.running = true ∧ s.pacing.interval = .ofMillis 100 ∧
      s.Concludes (.tick longest) (s.apply (.tick longest)) ∧
      (s.apply (.tick longest)).report.operations.length ≤ maxNanos / 100000000 := by
  intro actions longest s
  have haccepted : Pacing.ofInterval (.ofMillis 300) = .ok .standard := rfl
  obtain ⟨⟨-, hinterval⟩, -, -, htick⟩ := start_and_tick_end haccepted actions
  obtain ⟨hends, hcount⟩ := htick longest
  have hrun : s.run = some ⟨[⟨.f1, 1, true⟩], ⟨.move (.turn .left), none⟩, .ofMillis 100, 2⟩ := by
    decide
  have hle := hcount _ hrun
  rw [hinterval] at hle
  exact ⟨haccepted, by decide, hinterval.trans (by decide), (hends _).mpr rfl,
    Nat.le_trans hle (by decide)⟩

end Session

end TileWalk
