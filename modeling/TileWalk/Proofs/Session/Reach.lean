import TileWalk.Proofs.Session.Sight
import TileWalk.Proofs.Session.Simulation
import TileWalk.Proofs.Session.Stock

/-!
Queues that a program cannot come to. A run that begins in a set of subroutines with all that their
queues call looks at no other queue, so that what the others hold cannot be seen
(`sights_withCommands`).
-/

namespace TileWalk

namespace Run

variable {P : Subroutine → Prop} {p q : Slots (List Command)}

/-- The subroutines that a program can come to: the first, and those that the queue of such a one
calls, under whatever condition. -/
inductive Reached (queues : Slots (List Command)) : Subroutine → Prop
  | first : Reached queues .f1
  | called {sub callee : Subroutine} {command : Command} (h : Reached queues sub)
      (hcommand : command ∈ queues.get sub) (hcall : command.operation = .call callee) :
      Reached queues callee

theorem closedUnderCalls_reached (queues : Slots (List Command)) :
    ClosedUnderCalls (Reached queues) queues :=
  fun _ h _ hcommand _ hcall => .called h hcommand hcall

/-- What a program can come to is in every set that has the first subroutine and what it calls. -/
theorem Reached.mem {queues : Slots (List Command)} {sub : Subroutine} (h : Reached queues sub)
    (hfirst : P .f1) (hclosed : ClosedUnderCalls P queues) : P sub := by
  induction h with
  | first => exact hfirst
  | called _ hcommand hcall ih => exact hclosed _ ih _ hcommand _ hcall

/-- The same stack on both sides, of activations of subroutines in `P`. -/
def Within (P : Subroutine → Prop) : StackRelation :=
  fun a b => a = b ∧ ∀ frame ∈ a, P frame.subroutine

/-- The queues of the subroutines in `P` are the same in both programs. -/
def AgreeOn (P : Subroutine → Prop) (p q : Slots (List Command)) : Prop :=
  ∀ sub, P sub → p.get sub = q.get sub

theorem AgreeOn.rest_eq (h : AgreeOn P p q) {a : Activation} (ha : P a.subroutine) :
    Activation.rest p a = Activation.rest q a := by
  rw [Activation.rest, Activation.rest, h _ ha]

theorem AgreeOn.seek_eq (h : AgreeOn P p q) (tile : Tile) {stack : List Activation}
    (hstack : ∀ a ∈ stack, P a.subroutine) : seek p tile stack = seek q tile stack := by
  induction stack with
  | nil => rfl
  | cons a callers ih =>
    have hrest := h.rest_eq (hstack a List.mem_cons_self)
    have hcallers := ih fun b hb => hstack b (List.mem_cons_of_mem a hb)
    simp only [seek, hrest, hcallers]

theorem AgreeOn.call_eq (h : AgreeOn P p q) {policy : TailCall} (s : Subroutine)
    {stack : List Activation} (hstack : ∀ a ∈ stack, P a.subroutine) :
    call policy p s stack = call policy q s stack := by
  cases stack with
  | nil => rfl
  | cons caller callers =>
    have hrest := h.rest_eq (hstack caller List.mem_cons_self)
    simp only [call, hrest]

/-- A pause in which all is in `P` is the same pause of either program. -/
theorem AgreeOn.parallel (h : AgreeOn P p q) {pause : Pause} (hpause : Confined P pause) :
    Parallel p q (Within P) pause pause := by
  cases hpause with
  | finished outcome => exact .finished outcome
  | waiting hstack hcall =>
    refine .waiting rfl ⟨rfl, hstack⟩ fun s hs => ⟨h.call_eq s hstack, fun frame hframe => ?_⟩
    rcases mem_call hframe with rfl | hframe
    · exact hcall s hs
    · exact hstack frame hframe

theorem AgreeOn.simulates (h : AgreeOn P p q) (hclosed : ClosedUnderCalls P p) :
    Simulates p q (Within P) := by
  rintro tile stack _ ⟨rfl, hstack⟩
  rw [← h.seek_eq tile hstack]
  exact h.parallel (confined_seek hclosed tile hstack)

end Run

namespace Session

variable {P : Subroutine → Prop} {s t : Session} {actions : List Action}

/-- The session with other commands in its queues. -/
def withCommands (s : Session) (commands : Slots (List Command)) : Session :=
  { s with queues := { s.queues with commands } }

/-- Sessions that tell the same of the last run do so after an action that reports the same. -/
theorem lastOutcome_apply_eq {action : Action} (h : s.lastOutcome = t.lastOutcome)
    (hevents : (s.apply action).report.events = (t.apply action).report.events) :
    (s.apply action).state.lastOutcome = (t.apply action).state.lastOutcome := by
  have hfeed := @Mirror.lastOutcome_feed s.mirror t.mirror (s.apply action).report.events (.inl h)
  have hs := congrArg Mirror.lastOutcome (s.feed_apply action)
  have ht := congrArg Mirror.lastOutcome (t.feed_apply action)
  rw [← hevents] at ht
  exact hs.symm.trans (hfeed.trans ht)

/-- Where `P` has the first subroutine and what its queues call, and the run in flight, if any, is
all in `P`, nothing that controls a run shows what is in the queues outside of `P`. -/
theorem sights_withCommands (hfirst : P .f1)
    (hclosed : Run.ClosedUnderCalls P s.queues.commands)
    (hconfined : ∀ run, s.run = some run → Run.Confined P (s.stage run).pause)
    {commands : Slots (List Command)} (hagree : Run.AgreeOn P s.queues.commands commands)
    (hactions : ∀ action ∈ actions, action.ControlsRun) :
    (s.withCommands commands).sights apply actions = s.sights apply actions := by
  have hinit : Run.Within P Run.initialStack Run.initialStack := by
    refine ⟨rfl, fun frame hframe => ?_⟩
    rw [List.mem_singleton.mp hframe]
    exact hfirst
  have hrun : Option.Rel (Run.ParallelRun s.queues.commands commands (Run.Within P)) s.run
      (s.withCommands commands).run := by
    show Option.Rel _ s.run s.run
    cases hrun : s.run with
    | none => exact .none
    | some run => exact .some ⟨rfl, rfl, hagree.parallel (hconfined run hrun)⟩
  have hparallel : Parallel s.queues.commands commands (Run.Within P) s
      (s.withCommands commands) := ⟨rfl, rfl, rfl, rfl, ⟨rfl, rfl⟩, hrun⟩
  refine (sights_eq_of_simulation (R := fun u v =>
    Parallel s.queues.commands commands (Run.Within P) u v ∧ u.lastOutcome = v.lastOutcome)
    ⟨hparallel, rfl⟩ ?_ ?_).symm
  · rintro u v ⟨huv, houtcome⟩
    rw [view, view, huv.cursor, huv.cancelled, huv.running, huv.timeLeft, houtcome]
  · rintro u v action haction ⟨huv, houtcome⟩
    have happly := huv.apply (hagree.simulates hclosed) hinit (hactions action haction)
    exact ⟨⟨happly.state, lastOutcome_apply_eq houtcome happly.report.events⟩, happly.report⟩

/-- What the queues hold that an idle session's program cannot come to is never seen: whatever
starts, times, paces or aborts runs reports and shows the same with other commands in them. In a
session that actions lead to, with or without a run in flight, that goes for the queue of every
subroutine but the first that the level does not enable. -/
theorem unreached_queues_are_never_seen (hactions : ∀ action ∈ actions, action.ControlsRun) :
    (∀ s : Session, s.run = none → ∀ commands : Slots (List Command),
        (∀ sub, Run.Reached s.queues.commands sub → commands.get sub = s.queue sub) →
          (s.withCommands commands).sights apply actions = s.sights apply actions) ∧
      ∀ s : Session, s.Reachable → ∀ sub, sub ≠ .f1 → ¬s.Enables sub →
        ∀ commands : List Command,
          (s.withCommands (s.queues.commands.set sub commands)).sights apply actions =
            s.sights apply actions := by
  constructor
  · intro s hidle commands hsame
    have hconfined : ∀ run, s.run = some run →
        Run.Confined (Run.Reached s.queues.commands) (s.stage run).pause := by
      intro run hrun
      rw [hidle] at hrun
      contradiction
    exact sights_withCommands .first (Run.closedUnderCalls_reached _) hconfined
      (fun sub hsub => (hsame sub hsub).symm) hactions
  · intro s hs sub hfirst hdisabled commands
    have hagree : Run.AgreeOn s.MayEnter s.queues.commands
        (s.queues.commands.set sub commands) := by
      intro other hother
      have hne : other ≠ sub := by
        rintro rfl
        exact hother.elim hfirst hdisabled
      rw [Slots.get_set_of_ne _ _ hne]
    exact sights_withCommands (.inl rfl) hs.closedUnderCalls (fun _ => hs.confined) hagree hactions

/-- The spinner comes to nothing but its first subroutine, which calls itself, and the level of the
caller does not enable the third one, which has no room. In the middle of a call it makes no
difference either that the third queue holds what no level would have let in. -/
theorem spinner_and_caller_ignore_third_queue :
    let actions := [.start, .tick (.ofMillis 700), .pace (.ofMillis 100), .tick (.ofMillis 450),
      .abort, .start]
    let third := [⟨.call .f2, some .red⟩, ⟨.move .forward, none⟩]
    spinner.run = none ∧ spinner.queue .f3 ≠ third ∧
      (spinner.withCommands (spinner.queues.commands.set .f3 third)).sights apply actions =
        spinner.sights apply actions ∧
      caller.running = true ∧ ¬caller.Enables .f3 ∧
      (caller.withCommands (caller.queues.commands.set .f3 third)).sights apply actions =
        caller.sights apply actions := by
  intro actions third
  have hactions : ∀ action ∈ actions, action.ControlsRun := by simp [actions, Action.ControlsRun]
  obtain ⟨hidle, hdisabled⟩ := unreached_queues_are_never_seen hactions
  have honly : ∀ sub, Run.Reached spinner.queues.commands sub → sub = .f1 := by
    intro sub hsub
    refine hsub.mem (P := (· = .f1)) rfl ?_
    rintro _ rfl command hcommand callee hcall
    have hcalls : ∀ command ∈ spinner.queues.commands.get .f1, command.operation ≠ .call .f2 ∧
        command.operation ≠ .call .f3 := by decide
    cases callee with
    | f1 => rfl
    | f2 => exact absurd hcall (hcalls command hcommand).1
    | f3 => exact absurd hcall (hcalls command hcommand).2
  have hsame : ∀ sub, Run.Reached spinner.queues.commands sub →
      (spinner.queues.commands.set .f3 third).get sub = spinner.queue sub := by
    intro sub hsub
    rw [honly sub hsub]
    rfl
  have hcaller : caller.Reachable := (Reachable.ofPacing _).applyAll _
  exact ⟨by decide, by decide, hidle spinner (by decide) _ hsame, by decide, by decide,
    hdisabled caller hcaller .f3 (by decide) (by decide) third⟩

end Session

end TileWalk
