import Mathlib.Algebra.Ring.Nat
import TileWalk.Proofs.Run.Execution

/-!
Loops that are given by their bodies, so that nothing is taken for granted about their end: `Halts`
says in how many rounds a loop ends, and with what. The walk to the next command as such a loop,
which passes one command or leaves one activation in a round, ends after as many rounds as there is
left to pass and leave, and one more (`halts_walkRound`); it comes to what `Run.seek` finds.
-/

namespace TileWalk

/-- What one round of a loop comes to. -/
inductive Round (σ ρ : Type)
  | again (state : σ)
  | done (result : ρ)

namespace Round

variable {σ ρ : Type}

/-- What is left to do after a round, where `rest` is what the loop does from a state. -/
def proceed (rest : σ → Step ρ) : Round σ ρ → Step ρ
  | again state => rest state
  | done result => .stay result

end Round

/-- The loop that repeats `body` ends after this many rounds, with this result and the report of all
rounds. -/
inductive Halts {σ ρ : Type} (body : σ → Step (Round σ ρ)) : Nat → σ → Step ρ → Prop
  | done {s : σ} {result : ρ} {report : Report} (h : body s = ⟨.done result, report⟩) :
      Halts body 1 s ⟨result, report⟩
  | again {s next : σ} {report : Report} {rounds : Nat} {rest : Step ρ}
      (h : body s = ⟨.again next, report⟩) (hrest : Halts body rounds next rest) :
      Halts body (rounds + 1) s (Step.next ⟨next, report⟩ fun _ => rest)

namespace Halts

variable {σ ρ : Type} {body : σ → Step (Round σ ρ)} {s : σ} {m n : Nat} {a b : Step ρ}

/-- A loop ends in one way only. -/
theorem unique (ha : Halts body m s a) (hb : Halts body n s b) : m = n ∧ a = b := by
  induction ha generalizing n b with
  | done ha =>
    cases hb with
    | done hb =>
      rw [ha] at hb
      cases hb
      exact ⟨rfl, rfl⟩
    | again hb =>
      rw [ha] at hb
      cases hb
  | again ha _ ih =>
    cases hb with
    | done hb =>
      rw [ha] at hb
      cases hb
    | again hb hrest =>
      rw [ha] at hb
      cases hb
      obtain ⟨rfl, rfl⟩ := ih hrest
      exact ⟨rfl, rfl⟩

/-- A loop whose state descends in every round ends. -/
theorem of_wellFounded {R : σ → σ → Prop} (hR : WellFounded R)
    (hbody : ∀ {s next report}, body s = ⟨.again next, report⟩ → R next s) (s : σ) :
    ∃ rounds result, Halts body rounds s result := by
  induction s using hR.induction with
  | _ s ih =>
    cases hround : body s with
    | mk round report =>
      cases round with
      | done result => exact ⟨1, _, .done hround⟩
      | again next =>
        obtain ⟨rounds, result, hrest⟩ := ih next (hbody hround)
        exact ⟨rounds + 1, _, .again hround hrest⟩

/-- A loop that ends does so before a number that sinks in every round is used up. -/
theorem rounds_le {size : σ → Nat}
    (hbody : ∀ {s next report}, body s = ⟨.again next, report⟩ → size next < size s)
    (h : Halts body n s a) : n ≤ size s + 1 := by
  induction h with
  | done => exact Nat.le_add_left 1 _
  | again hround _ ih =>
    have hlt := hbody hround
    omega

/-- A loop that ends comes to what `spec` says, where what `spec` says of a state is one round and
what it says of the state after the round. -/
theorem eq_of_unrolls {spec : σ → Step ρ} (hspec : ∀ s, spec s = (body s).next (Round.proceed spec))
    (h : Halts body n s a) : a = spec s := by
  induction h with
  | done hround =>
    rw [hspec, hround]
    exact (Step.next_stay _).symm
  | again hround _ ih =>
    rw [hspec, hround, ih]
    rfl

/-- A loop does not end in a set of states that it comes to again in every round. -/
theorem not_of_closed {I : σ → Prop}
    (hbody : ∀ {s}, I s → ∃ next report, body s = ⟨.again next, report⟩ ∧ I next) (hs : I s) :
    ¬Halts body n s a := by
  intro h
  induction h with
  | done hround =>
    obtain ⟨next, report, hagain, -⟩ := hbody hs
    rw [hround] at hagain
    cases hagain
  | again hround _ ih =>
    obtain ⟨next, report, hagain, hnext⟩ := hbody hs
    rw [hround] at hagain
    cases hagain
    exact ih hnext

end Halts

/-- After this many rounds, of which none is the last, the loop is in this state, with the report of
the rounds. -/
inductive Goes {σ ρ : Type} (body : σ → Step (Round σ ρ)) : Nat → σ → Step σ → Prop
  | here (s : σ) : Goes body 0 s (.stay s)
  | again {s next : σ} {report : Report} {rounds : Nat} {later : Step σ}
      (h : body s = ⟨.again next, report⟩) (hrest : Goes body rounds next later) :
      Goes body (rounds + 1) s (Step.next ⟨next, report⟩ fun _ => later)

/-- A loop that ends does so from wherever it is before. -/
theorem Goes.halts {σ ρ : Type} {body : σ → Step (Round σ ρ)} {s : σ} {m n : Nat} {later : Step σ}
    {a : Step ρ} (h : Goes body m s later) (ha : Halts body n s a) :
    ∃ rounds rest, Halts body rounds later.state rest ∧ a = later.next fun _ => rest := by
  induction h generalizing n a with
  | here => exact ⟨n, a, ha, by simp [Step.next]⟩
  | again hround _ ih =>
    cases ha with
    | done hdone =>
      rw [hround] at hdone
      cases hdone
    | again hagain hrest =>
      rw [hround] at hagain
      cases hagain
      obtain ⟨rounds, rest, hlater, rfl⟩ := ih hrest
      exact ⟨rounds, rest, hlater, (Step.next_assoc _ _ _).symm⟩

namespace Run

variable {cancelled : Bool} {queues : Slots (List Command)} {tile : Tile}

/-- One round of the walk to the next command: it looks at the flag and at one command, and passes
the command, or leaves the innermost activation, or ends the walk. -/
def walkRound (cancelled : Bool) (queues : Slots (List Command)) (tile : Tile)
    (stack : List Activation) : Step (Round (List Activation) Pause) :=
  if cancelled then .stay (.done (.finished .cancelled))
  else
    match stack with
    | [] => .stay (.done (.finished .exhausted))
    | a :: callers =>
      match (queues.get a.subroutine)[a.next]? with
      | none =>
        ⟨if a.byCall ∧ tile = .goal then .done (.finished .won) else .again callers,
          ⟨[], [.leaving a.subroutine]⟩⟩
      | some command =>
        let passed := { a with next := a.next + 1 } :: callers
        if command.isSkipped tile then
          ⟨.again passed, ⟨[], [.skipping command.operation a.subroutine a.next tile]⟩⟩
        else .stay (.done (if tile = .void then .finished .offPath else .waiting passed command))

/-- What the walk to the next command comes to, and what it reports. -/
def sought (cancelled : Bool) (queues : Slots (List Command)) (tile : Tile)
    (stack : List Activation) : Step Pause :=
  if cancelled then .stay (.finished .cancelled)
  else ⟨(seek queues tile stack).1, ⟨[], (seek queues tile stack).2⟩⟩

/-- How many commands there are to pass and activations to leave. -/
def unpassed (queues : Slots (List Command)) (stack : List Activation) : Nat :=
  (stack.map fun a => (Activation.rest queues a).length + 1).sum

@[simp] theorem unpassed_cons (a : Activation) (callers : List Activation) :
    unpassed queues (a :: callers) =
      (Activation.rest queues a).length + 1 + unpassed queues callers := by
  rw [unpassed, unpassed, List.map_cons, List.sum_cons]

/-! ### The cases of a round -/

variable {a : Activation} {callers : List Activation} {command : Command}

theorem rest_eq_nil (h : (queues.get a.subroutine)[a.next]? = none) :
    Activation.rest queues a = [] :=
  List.drop_eq_nil_of_le (List.getElem?_eq_none_iff.mp h)

theorem rest_eq_cons (h : (queues.get a.subroutine)[a.next]? = some command) :
    Activation.rest queues a = command :: Activation.rest queues { a with next := a.next + 1 } := by
  obtain ⟨hlt, rfl⟩ := List.getElem?_eq_some_iff.mp h
  exact List.drop_eq_getElem_cons hlt

theorem walkRound_of_none (h : (queues.get a.subroutine)[a.next]? = none) :
    walkRound false queues tile (a :: callers) =
      ⟨if a.byCall ∧ tile = .goal then .done (.finished .won) else .again callers,
        ⟨[], [.leaving a.subroutine]⟩⟩ := by
  simp only [walkRound, h]
  rfl

theorem walkRound_of_skipped (h : (queues.get a.subroutine)[a.next]? = some command)
    (hskip : command.isSkipped tile = true) :
    walkRound false queues tile (a :: callers) =
      ⟨.again ({ a with next := a.next + 1 } :: callers),
        ⟨[], [.skipping command.operation a.subroutine a.next tile]⟩⟩ := by
  simp only [walkRound, h, hskip]
  rfl

theorem walkRound_of_not_skipped (h : (queues.get a.subroutine)[a.next]? = some command)
    (hskip : ¬command.isSkipped tile = true) :
    walkRound false queues tile (a :: callers) =
      .stay (.done (if tile = .void then .finished .offPath
        else .waiting ({ a with next := a.next + 1 } :: callers) command)) := by
  simp only [walkRound, h, if_neg hskip]
  rfl

/-! ### The walk as a loop -/

/-- A round that is not the last leaves one command or one activation less. -/
theorem unpassed_of_again {stack next : List Activation} {report : Report}
    (h : walkRound cancelled queues tile stack = ⟨.again next, report⟩) :
    unpassed queues next + 1 = unpassed queues stack := by
  cases cancelled with
  | true => cases h
  | false =>
    cases stack with
    | nil => cases h
    | cons a callers =>
      cases hcommand : (queues.get a.subroutine)[a.next]? with
      | none =>
        rw [walkRound_of_none hcommand] at h
        split at h
        · cases h
        · cases h
          rw [unpassed_cons, rest_eq_nil hcommand, List.length_nil]
          omega
      | some command =>
        by_cases hskip : command.isSkipped tile = true
        · rw [walkRound_of_skipped hcommand hskip] at h
          cases h
          rw [unpassed_cons, unpassed_cons, rest_eq_cons hcommand, List.length_cons]
          omega
        · rw [walkRound_of_not_skipped hcommand hskip] at h
          cases h

/-- A walk from a command that is skipped is the walk from the one after it. -/
theorem seek_of_skipped (h : (queues.get a.subroutine)[a.next]? = some command)
    (hskip : command.isSkipped tile = true) :
    seek queues tile (a :: callers) =
      let after := seek queues tile ({ a with next := a.next + 1 } :: callers)
      (after.1, .skipping command.operation a.subroutine a.next tile :: after.2) := by
  simp only [seek, rest_eq_cons h, fetch?, fetchNotes, if_pos hskip]
  split
  · rfl
  · split <;> rfl

/-- The walk is one round and the walk from there. -/
theorem sought_unrolls (stack : List Activation) :
    sought cancelled queues tile stack =
      (walkRound cancelled queues tile stack).next
        (Round.proceed (sought cancelled queues tile)) := by
  cases cancelled with
  | true => rfl
  | false =>
    cases stack with
    | nil => rfl
    | cons a callers =>
      cases hcommand : (queues.get a.subroutine)[a.next]? with
      | none =>
        have hrest := rest_eq_nil hcommand
        rw [walkRound_of_none hcommand, sought, if_neg (by decide), seek, hrest]
        by_cases hwon : a.byCall = true ∧ tile = .goal
        · simp only [fetch?, fetchNotes, if_pos hwon]
          rfl
        · simp only [fetch?, fetchNotes, if_neg hwon]
          rfl
      | some command =>
        by_cases hskip : command.isSkipped tile = true
        · rw [walkRound_of_skipped hcommand hskip, sought, seek_of_skipped hcommand hskip]
          rfl
        · have hrest := rest_eq_cons hcommand
          rw [walkRound_of_not_skipped hcommand hskip, sought, if_neg (by decide), seek, hrest]
          simp only [fetch?, fetchNotes, if_neg hskip]
          rfl

/-- From every stack the walk ends, at the latest in the round after all is passed and left, and it
comes to what is sought. -/
theorem halts_walkRound (cancelled : Bool) (queues : Slots (List Command)) (tile : Tile)
    (stack : List Activation) :
    ∃ rounds ≤ unpassed queues stack + 1,
      Halts (walkRound cancelled queues tile) rounds stack
        (sought cancelled queues tile stack) := by
  have hlt : ∀ {stack next report}, walkRound cancelled queues tile stack = ⟨.again next, report⟩ →
      unpassed queues next < unpassed queues stack := fun h => by
    have := unpassed_of_again h
    omega
  obtain ⟨rounds, result, h⟩ := Halts.of_wellFounded (measure (unpassed queues)).wf hlt stack
  exact ⟨rounds, h.rounds_le hlt, h.eq_of_unrolls sought_unrolls ▸ h⟩

end Run

end TileWalk
