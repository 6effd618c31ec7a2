import TileWalk.Session.Basic

/-!
Waiting for a run: tick after tick lets exactly the time pass that the waiting command needs.
-/

namespace TileWalk

/-- Ticks until nothing waits or `limit` ticks were made. `timeLeft` is the time that the waiting
command needs, `tick` lets time pass. The state comes with the number of ticks. -/
def drainBy {σ : Type} (timeLeft : σ → Option Duration) (tick : σ → Duration → Step σ) :
    Nat → σ → Step (σ × Nat)
  | 0, s => .stay (s, 0)
  | limit + 1, s =>
    match timeLeft s with
    | none => .stay (s, 0)
    | some delay =>
      (tick s delay).next fun s =>
        (drainBy timeLeft tick limit s).map fun (s, ticks) => (s, ticks + 1)

/-- Lets time pass until the run ends or `limit` ticks were made. -/
def Session.drain (s : Session) (limit : Nat) : Step (Session × Nat) :=
  drainBy timeLeft (fun s delay => s.apply (.tick delay)) limit s

end TileWalk
