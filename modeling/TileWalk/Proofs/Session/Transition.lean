import TileWalk.Proofs.Session.Action

/-!
The steps that actions make, each with the condition under which an action makes it. A fact about
all actions is proved from these cases (`apply_transition`), with no need to open `Session.apply`.
-/

namespace TileWalk

/-- The addition to the queues that an action asks for: the command, unless its labels cannot be
read, and where it is to go. -/
def Action.addition? : Action → Option (Except Refusal Command × Placement)
  | .add command placement => some (.ok command, placement)
  | .submit operation condition placement =>
    some (Command.ofLabels operation condition, placement)
  | _ => none

namespace Session

inductive Transition (s : Session) : Action → Step Session → Prop
  | refused (action : Action) (reason : Refusal) : Transition s action (s.refuse reason)
  | loaded (level : Level) : Transition s (.load level) (s.load level)
  | pushed {action : Action} {command : Command} {placement : Placement} {sub : Subroutine}
      (haddition : action.addition? = some (.ok command, placement))
      (hrefusal : s.refusal? command = none) (hplace : s.queues.place placement = .ok sub) :
      Transition s action
        ⟨{ s with queues := s.queues.push sub command },
          ⟨[.queue sub (s.queue sub ++ [command])], [.queued command.operation sub]⟩⟩
  | popped {sub : Subroutine} (hrun : s.run = none) (hused : s.queues.lastUsed? = some sub) :
      Transition s .takeBack
        ⟨{ s with queues := s.queues.pop sub },
          ⟨[.queue sub (s.queue sub).dropLast], [.tookBack sub]⟩⟩
  /-- There is nothing to take back. -/
  | unchanged (hrun : s.run = none) (hused : s.queues.lastUsed? = none) :
      Transition s .takeBack (.stay s)
  | reset : Transition s .reset s.reset
  | started (hlevel : s.level.isSome = true) : Transition s .start (s.cutOff.next launch)
  | aborted : Transition s .abort (s.cutOff.next fun t => .stay { t with cancelled := true })
  | paced {interval : Duration} {pacing : Pacing} (h : Pacing.ofInterval interval = .ok pacing) :
      Transition s (.pace interval) ⟨{ s with pacing }, ⟨[], [.paced interval]⟩⟩
  | ticked (elapsed : Duration) : Transition s (.tick elapsed) (s.tick .replace elapsed)

variable (s : Session)

/-- Raising the flag first or last makes no difference to the run that is cut off. -/
theorem abort_eq : s.abort = s.cutOff.next fun t => .stay { t with cancelled := true } := by
  cases hrun : s.run with
  | none => simp [abort, cutOff, hrun, Step.next, Step.stay]
  | some run => simp [abort, cutOff, hrun, Step.next, Step.stay, endRun]

theorem add_transition {action : Action} {command : Command} {placement : Placement}
    (haddition : action.addition? = some (.ok command, placement)) :
    s.Transition action (s.add command placement) := by
  cases hrefusal : s.refusal? command with
  | some reason =>
    simp only [add, hrefusal]
    exact .refused action reason
  | none =>
    cases hplace : s.queues.place placement with
    | error reason =>
      simp only [add, hrefusal, hplace]
      exact .refused action reason
    | ok sub =>
      simp only [add, hrefusal, hplace, queueEvent, queue, Queues.commands_push_self]
      exact .pushed haddition hrefusal hplace

theorem apply_transition (action : Action) : s.Transition action (s.apply action) := by
  cases action with
  | load level => exact .loaded level
  | add command placement => exact s.add_transition rfl
  | submit operation condition placement =>
    cases hreading : Command.ofLabels operation condition with
    | ok command =>
      simp only [Session.apply, applyWith, submit, hreading]
      exact s.add_transition (by rw [Action.addition?, hreading])
    | error reason =>
      simp only [Session.apply, applyWith, submit, hreading]
      exact .refused _ reason
  | takeBack =>
    simp only [Session.apply, applyWith, takeBack]
    split
    · exact .refused _ _
    · next hrun =>
      have hnone : s.run = none := by simpa using hrun
      split
      · next sub hused =>
        simp only [queueEvent, queue, Queues.commands_pop_self]
        exact .popped hnone hused
      · next hused => exact .unchanged hnone hused
  | reset => exact .reset
  | start =>
    simp only [Session.apply, applyWith, start]
    split
    · exact .refused _ _
    · next hlevel => exact .started (by simpa [Option.isSome_iff_ne_none] using hlevel)
  | abort =>
    show s.Transition _ s.abort
    rw [abort_eq]
    exact .aborted
  | pace interval =>
    cases hpacing : Pacing.ofInterval interval with
    | ok pacing =>
      simp only [Session.apply, applyWith, pace, hpacing]
      exact .paced hpacing
    | error reason =>
      simp only [Session.apply, applyWith, pace, hpacing]
      exact .refused _ reason
  | tick elapsed => exact .ticked elapsed

end Session

end TileWalk
