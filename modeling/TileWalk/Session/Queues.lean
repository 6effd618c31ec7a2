import TileWalk.Session.Event

/-!
The command queues of the three subroutines, each with a capacity. A new command goes to one queue,
at its end, if there is room; taking back removes the last command of the last queue that holds any.
-/

namespace TileWalk

/-- Commands and capacities of the three subroutines. -/
structure Queues where
  commands : Slots (List Command)
  capacities : Slots Nat
deriving DecidableEq, Inhabited

namespace Queues

def ofCapacities (capacities : Slots Nat) : Queues := ⟨.const [], capacities⟩

/-- The queues of a session without a level: they hold nothing. -/
def closed : Queues := ofCapacities (.const 0)

/-- The queue of `s` is below its capacity. -/
def isOpen (q : Queues) (s : Subroutine) : Bool :=
  (q.commands.get s).length < q.capacities.get s

/-- The queue that a new command goes to. -/
def place (q : Queues) : Placement → Except Refusal Subroutine
  | .firstOpen =>
    match Subroutine.all.find? q.isOpen with
    | some s => .ok s
    | none => .error .allFull
  | .slot s => if q.isOpen s then .ok s else .error (.slotFull s)

/-- The queues with `c` at the end of the queue of `s`. -/
def push (q : Queues) (s : Subroutine) (c : Command) : Queues :=
  { q with commands := q.commands.set s (q.commands.get s ++ [c]) }

/-- The last queue that holds a command. -/
def lastUsed? (q : Queues) : Option Subroutine :=
  Subroutine.all.reverse.find? fun s => !(q.commands.get s).isEmpty

/-- The queues without the last command of `s`. -/
def pop (q : Queues) (s : Subroutine) : Queues :=
  { q with commands := q.commands.set s (q.commands.get s).dropLast }

def emptied (q : Queues) : Queues := ofCapacities q.capacities

@[simp] theorem capacities_push (q : Queues) (s : Subroutine) (c : Command) :
    (q.push s c).capacities = q.capacities := rfl

@[simp] theorem commands_push_self (q : Queues) (s : Subroutine) (c : Command) :
    (q.push s c).commands.get s = q.commands.get s ++ [c] := Slots.get_set_self _ _ _

theorem commands_push_of_ne (q : Queues) {s t : Subroutine} (c : Command) (h : t ≠ s) :
    (q.push s c).commands.get t = q.commands.get t := Slots.get_set_of_ne _ _ h

@[simp] theorem capacities_pop (q : Queues) (s : Subroutine) :
    (q.pop s).capacities = q.capacities := rfl

@[simp] theorem commands_pop_self (q : Queues) (s : Subroutine) :
    (q.pop s).commands.get s = (q.commands.get s).dropLast := Slots.get_set_self _ _ _

@[simp] theorem capacities_emptied (q : Queues) : q.emptied.capacities = q.capacities := rfl

@[simp] theorem commands_emptied (q : Queues) (s : Subroutine) :
    q.emptied.commands.get s = [] := Slots.get_const _ _

/-- A command that finds a queue finds room in it. -/
theorem isOpen_of_place {q : Queues} {placement : Placement} {s : Subroutine}
    (h : q.place placement = .ok s) : q.isOpen s = true := by
  cases placement with
  | firstOpen =>
    cases hs : Subroutine.all.find? q.isOpen with
    | none => simp [place, hs] at h
    | some t =>
      simp only [place, hs, Except.ok.injEq] at h
      exact h ▸ List.find?_some hs
  | slot t =>
    by_cases hopen : q.isOpen t = true
    · simp only [place, hopen, if_true, Except.ok.injEq] at h
      exact h ▸ hopen
    · simp [place, hopen] at h

end Queues

end TileWalk
