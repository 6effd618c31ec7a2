import TileWalk.Session.Drain

/-!
A campaign walks through the levels of a source in order. It owns a session and is alone in loading
levels into it. Reaching the goal only unlocks the next level; moving on is a step of its own.
-/

namespace TileWalk

/-- A source of levels: keys in playing order, and the level stored under a key. Keys may repeat,
and a key need not have a level. -/
structure LevelSource where
  keys : List String
  level? : String → Option Level

/-- A session on its way through the levels of a source. -/
structure Campaign where
  source : LevelSource
  session : Session
  /-- The index of the loaded level. -/
  loaded : Option Nat
  /-- The goal was reached since the level was loaded. -/
  unlocked : Bool
  /-- The player moved on from the last level. -/
  complete : Bool

namespace Campaign

def ofSource (source : LevelSource) (session : Session) : Campaign :=
  ⟨source, session, none, false, false⟩

def size (c : Campaign) : Nat := c.source.keys.length

def loadedKey (c : Campaign) : Option String :=
  c.loaded.bind fun index => c.source.keys[index]?

/-- Loads the level at an index and says whether it could. An index out of range and a key without
a level change nothing. -/
def loadIndex (c : Campaign) (index : Nat) : Step (Bool × Campaign) :=
  match c.source.keys[index]? with
  | none => ⟨(false, c), ⟨[], [.noSuchIndex index c.size]⟩⟩
  | some key =>
    match c.source.level? key with
    | none => ⟨(false, c), ⟨[], [.noSuchKey key]⟩⟩
    | some level =>
      Step.next ⟨c, ⟨[], [.entering index key]⟩⟩ fun c =>
        (c.session.apply (.load level)).map fun session =>
          (true, { c with session, loaded := some index, unlocked := false, complete := false })

/-- The index of the level after the loaded one. -/
def nextIndex (c : Campaign) : Nat :=
  match c.loaded with
  | some index => index + 1
  | none => 0

/-- Moves on to the next level and says whether one was loaded. Moving on from the last level
completes the campaign, once. -/
def moveOn (c : Campaign) : Step (Bool × Campaign) :=
  if c.complete then .stay (false, c)
  else if c.nextIndex < c.size then c.loadIndex c.nextIndex
  else
    ⟨(false, { c with complete := true, unlocked := false }), ⟨[.complete], [.complete c.size]⟩⟩

/-- The campaign after a step of its session; a victory unlocks the next level. -/
def follow (c : Campaign) (step : Step Session) : Step Campaign :=
  let unlocked := if .victory ∈ step.report.events then !c.complete else c.unlocked
  step.map fun session => { c with session, unlocked }

/-- Passes an action on to the session. Loading a level past the campaign is ignored. -/
def apply (c : Campaign) (action : Action) : Step Campaign :=
  match action with
  | .load _ => ⟨c, ⟨[], [.loadIgnored]⟩⟩
  | action => c.follow (c.session.apply action)

/-- The steps that some actions make, one after the other. -/
def applyAll (c : Campaign) : List Action → Step Campaign
  | [] => .stay c
  | action :: actions => (c.apply action).next fun c => c.applyAll actions

/-- Lets time pass until the run ends or `limit` ticks were made. -/
def drain (c : Campaign) (limit : Nat) : Step (Campaign × Nat) :=
  drainBy (fun c => c.session.timeLeft) (fun c delay => c.apply (.tick delay)) limit c

end Campaign

end TileWalk
