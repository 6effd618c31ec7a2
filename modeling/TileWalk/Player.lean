import TileWalk.Campaign
import TileWalk.Script

/-!
A player plays a campaign with one script: on each level it queues the script and starts a run, then
waits for one command after the other. A budget cuts off runs that take too long. After a win the
player may go on to the next level.

`Player.next` says what the player does next and `Player.perform` does it, so that the caller is
free to spend the time that the player waits.
-/

namespace TileWalk

structure PlayPlan where
  script : List ScriptLine
  /-- A win leads on to the next level. -/
  continues : Bool
  /-- The number of waits after which a run is cut off. -/
  budget : Option UInt32
deriving DecidableEq, Inhabited

/-- Someone who plays a campaign by a plan. -/
structure Player where
  plan : PlayPlan
  campaign : Campaign
  /-- The number of waits in the current run; it saturates. -/
  waited : UInt32
  /-- There was no level to go on to. -/
  finished : Bool

inductive Move
  /-- Waits for the time that the waiting command needs. -/
  | wait (delay : Duration)
  /-- Cuts off the run. -/
  | abort
  /-- Goes on to the next level. -/
  | goOn
  | stop
deriving DecidableEq, Inhabited

namespace Player

/-- The actions that queue the script and start a run. -/
def opening (plan : PlayPlan) : List Action :=
  plan.script.map ScriptLine.action ++ [.start]

/-- The player begins to play the loaded level. -/
def launch (p : Player) : Step Player :=
  (p.campaign.applyAll (opening p.plan)).map fun campaign => { p with campaign, waited := 0 }

/-- The player on the level at an index, if there is one to load. -/
def start? (plan : PlayPlan) (campaign : Campaign) (index : Nat) : Option (Step Player) :=
  let entered := campaign.loadIndex index
  if entered.state.1 then
    some (entered.next fun (_, campaign) => launch ⟨plan, campaign, 0, false⟩)
  else none

/-- The budget for the current run is used up. -/
def isSpent (p : Player) : Bool :=
  match p.plan.budget with
  | some budget => budget ≤ p.waited
  | none => false

def next (p : Player) : Move :=
  if p.finished then .stop
  else
    match p.campaign.session.timeLeft with
    | some delay => if p.isSpent then .abort else .wait delay
    | none => if p.plan.continues && p.campaign.unlocked then .goOn else .stop

def act (p : Player) (action : Action) : Step Player :=
  (p.campaign.apply action).map fun campaign => { p with campaign }

/-- Moves on to the next level and plays it, if there is one. -/
def advance (p : Player) : Step Player :=
  p.campaign.moveOn.next fun (moved, campaign) =>
    if moved then { p with campaign }.launch else .stay { p with campaign, finished := true }

def perform (p : Player) : Move → Step Player
  | .wait delay => { p with waited := increment p.waited }.act (.tick delay)
  | .abort => p.act .abort
  | .goOn => p.advance
  | .stop => .stay p

/-- Makes the next moves, this many of them unless the player stops before. -/
def play (p : Player) : Nat → Step Player
  | 0 => .stay p
  | moves + 1 => (p.perform p.next).next fun p => p.play moves

def outcome (p : Player) : Option Outcome := p.campaign.session.lastOutcome

@[simp] theorem play_zero (p : Player) : p.play 0 = .stay p := rfl

@[simp] theorem play_succ (p : Player) (moves : Nat) :
    p.play (moves + 1) = (p.perform p.next).next fun p => p.play moves := rfl

theorem play_add (p : Player) (a b : Nat) : p.play (a + b) = (p.play a).next fun p => p.play b := by
  induction a generalizing p with
  | zero => simp [Step.next]
  | succ a ih => simp [Nat.succ_add, ih, Step.next_assoc]

/-- Who has stopped does nothing any more. -/
theorem play_of_next_eq_stop {p : Player} (h : p.next = .stop) (moves : Nat) :
    p.play moves = .stay p := by
  induction moves with
  | zero => rfl
  | succ moves ih =>
    rw [play_succ, h]
    show Step.mk _ _ = _
    simp [perform, ih, Step.stay]

end Player

end TileWalk
