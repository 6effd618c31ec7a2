import TileWalk.Proofs.Run.Simulation

/-!
Calls in tail position. The engine lets a called subroutine take the place of a caller that has no
command left; a naive engine keeps every caller. `Trimmed` relates the stacks of the two, however
far they have drifted apart, and every part of the engine keeps it: `bisimulation_trimmedPause` says
that the two execute the same commands to the same effect.
-/

namespace TileWalk.Run

/-- `lean` is `full` without some callers that have no command left. Each caller left out stands
directly below an activation that a call entered. -/
inductive Trimmed (queues : Slots (List Command)) : List Activation → List Activation → Prop
  | nil : Trimmed queues [] []
  | cons (a : Activation) {lean full : List Activation} (h : Trimmed queues lean full) :
      Trimmed queues (a :: lean) (a :: full)
  | drop {a caller : Activation} {lean full : List Activation} (hcall : a.byCall = true)
      (hrest : Activation.rest queues caller = []) (h : Trimmed queues (a :: lean) (a :: full)) :
      Trimmed queues (a :: lean) (a :: caller :: full)

/-- The same outcome, or the same waiting command above stacks of which one is trimmed. -/
inductive TrimmedPause (queues : Slots (List Command)) : Pause → Pause → Prop
  | waiting {lean full : List Activation} (command : Command) (h : Trimmed queues lean full) :
      TrimmedPause queues (.waiting lean command) (.waiting full command)
  | finished (outcome : Outcome) : TrimmedPause queues (.finished outcome) (.finished outcome)

variable {queues : Slots (List Command)} {lean full : List Activation}

theorem Trimmed.refl : (stack : List Activation) → Trimmed queues stack stack
  | [] => .nil
  | a :: callers => .cons a (Trimmed.refl callers)

/-- Another activation may stand on top, if a call entered it wherever one is needed there. -/
theorem Trimmed.replace {a b : Activation} {lean full : List Activation} :
    Trimmed queues (a :: lean) (a :: full) → (a.byCall = true → b.byCall = true) →
      Trimmed queues (b :: lean) (b :: full)
  | .cons _ h, _ => .cons b h
  | .drop ha hrest h, hcall => .drop (hcall ha) hrest (h.replace hcall)

theorem fetch?_of_rest_eq_nil {tile : Tile} {a : Activation}
    (h : Activation.rest queues a = []) :
    fetch? tile a.next (Activation.rest queues a) = none := by
  rw [h]
  rfl

/-- A caller left out is passed without effect: the goal check of the activation above it comes
first, on the same tile. -/
theorem Trimmed.seek (tile : Tile) (h : Trimmed queues lean full) :
    TrimmedPause queues (Run.seek queues tile lean).1 (Run.seek queues tile full).1 := by
  induction h with
  | nil => exact .finished .exhausted
  | @cons a lean full h ih =>
    cases hfetch : fetch? tile a.next (Activation.rest queues a) with
    | some found =>
      rw [seek_of_fetch?_eq_some lean hfetch, seek_of_fetch?_eq_some full hfetch]
      split
      · exact .finished .offPath
      · exact .waiting _ (.cons _ h)
    | none =>
      rw [seek_of_fetch?_eq_none lean hfetch, seek_of_fetch?_eq_none full hfetch]
      split
      · exact .finished .won
      · exact ih
  | @drop a caller lean full hcall hrest h ih =>
    cases hfetch : fetch? tile a.next (Activation.rest queues a) with
    | some found =>
      rw [seek_of_fetch?_eq_some lean hfetch, seek_of_fetch?_eq_some _ hfetch]
      split
      · exact .finished .offPath
      · exact .waiting _ (.drop (a := { a with next := found.1 }) hcall hrest (h.replace id))
    | none =>
      -- the activation on top is left: on the goal that wins before the extra caller is reached,
      -- elsewhere the extra caller is left as well
      rw [seek_of_fetch?_eq_none lean hfetch, seek_of_fetch?_eq_none full hfetch] at ih
      rw [seek_of_fetch?_eq_none lean hfetch, seek_of_fetch?_eq_none _ hfetch]
      by_cases hgoal : tile = .goal
      · rw [if_pos ⟨hcall, hgoal⟩, if_pos ⟨hcall, hgoal⟩]
        exact .finished .won
      · have hcheck : ∀ {b : Activation}, ¬(b.byCall = true ∧ tile = .goal) :=
          fun h => hgoal h.2
        rw [if_neg hcheck, if_neg hcheck] at ih
        rw [if_neg hcheck, if_neg hcheck,
          seek_of_fetch?_eq_none full (fetch?_of_rest_eq_nil hrest), if_neg hcheck]
        exact ih

theorem Trimmed.call (s : Subroutine) (h : Trimmed queues lean full) :
    Trimmed queues (Run.call .replace queues s lean) (Run.call .nest queues s full) := by
  have hcons : ∀ {caller : Activation} {lean full : List Activation},
      Trimmed queues (caller :: lean) (caller :: full) →
      Trimmed queues (Run.call .replace queues s (caller :: lean))
        (Run.call .nest queues s (caller :: full)) := by
    intro caller lean full h
    by_cases hrest : Activation.rest queues caller = []
    · simp only [Run.call, hrest, List.isEmpty_nil]
      exact .drop rfl hrest (h.replace fun _ => rfl)
    · simp only [Run.call, List.isEmpty_iff, hrest]
      exact .cons _ h
  cases h with
  | nil => exact .refl _
  | cons a h => exact hcons (.cons a h)
  | drop hcall hrest h => exact hcons (.drop hcall hrest h)

/-- With and without the callers the engine goes from command to command alike. -/
theorem bisimulation_trimmedPause (queues : Slots (List Command)) :
    Bisimulation .replace .nest queues queues (TrimmedPause queues) where
  won := .finished .won
  lockstep h := by
    cases h with
    | finished outcome => exact .finished outcome
    | waiting command h =>
      exact .waiting rfl (fun tile => h.seek tile) fun s _ tile => (h.call s).seek tile

end TileWalk.Run
