import TileWalk.Campaign
import TileWalk.Proofs.Session.Mirror

/-!
What may be asked of a campaign, and what comes of it. A request is served in one of four ways
(`serve_served`), so that a fact about all requests is proved from these, with no need to open the
functions that serve them.
-/

namespace TileWalk

inductive Request
  | enter (index : Nat)
  | moveOn
  | act (action : Action)
deriving DecidableEq

/-- The action loads a level, which a campaign leaves to no one else. -/
def Action.IsLoad : Action → Prop
  | .load _ => True
  | _ => False

namespace Campaign

/-- What comes of a request, and whether a level was loaded. -/
def serve (c : Campaign) : Request → Step (Bool × Campaign)
  | .enter index => c.loadIndex index
  | .moveOn => c.moveOn
  | .act action => (c.apply action).map fun c => (false, c)

def serveAll (c : Campaign) : List Request → Step Campaign
  | [] => .stay c
  | request :: requests => (c.serve request).next fun served => served.2.serveAll requests

/-- The campaign when `session` has come to the level at an index. -/
def onIndex (c : Campaign) (session : Session) (index : Nat) : Campaign :=
  { c with session, loaded := some index, unlocked := false, complete := false }

/-- The campaign when the player has moved on from the last level. -/
def completed (c : Campaign) : Campaign := { c with complete := true, unlocked := false }

/-- The ways in which a request is served. -/
inductive Served (c : Campaign) : Request → Step (Bool × Campaign) → Prop
  /-- Nothing comes of it but notes. -/
  | declined (request : Request) (notes : List Note) :
      Served c request ⟨(false, c), ⟨[], notes⟩⟩
  | entered (request : Request) {index : Nat} {key : String} {level : Level}
      (hkey : c.source.keys[index]? = some key) (hlevel : c.source.level? key = some level) :
      Served c request
        (Step.next ⟨c, ⟨[], [.entering index key]⟩⟩ fun c =>
          (c.session.apply (.load level)).map fun session => (true, c.onIndex session index))
  | completed (hopen : c.complete = false) (hlast : c.size ≤ c.nextIndex) :
      Served c .moveOn ⟨(false, c.completed), ⟨[.complete], [.complete c.size]⟩⟩
  | acted {action : Action} (haction : ¬action.IsLoad) :
      Served c (.act action) ((c.follow (c.session.apply action)).map fun c => (false, c))

variable (c : Campaign)

theorem loadIndex_served (request : Request) (index : Nat) :
    c.Served request (c.loadIndex index) := by
  unfold loadIndex
  split
  · exact .declined request _
  · next key hkey =>
    split
    · exact .declined request _
    · next level hlevel => exact .entered request hkey hlevel

theorem serve_served (request : Request) : c.Served request (c.serve request) := by
  cases request with
  | enter index => exact c.loadIndex_served _ index
  | moveOn =>
    show c.Served _ c.moveOn
    unfold moveOn
    split
    · exact .declined _ []
    · next hopen =>
      split
      · exact c.loadIndex_served _ _
      · next hlast => exact .completed (by simpa using hopen) (Nat.le_of_not_lt hlast)
  | act action =>
    cases action with
    | load level => exact .declined _ _
    | _ => exact .acted id

theorem Served.source_eq {c : Campaign} {request : Request} {step : Step (Bool × Campaign)}
    (h : c.Served request step) : step.state.2.source = c.source := by
  cases h <;> rfl

theorem source_serveAll (requests : List Request) :
    (c.serveAll requests).state.source = c.source := by
  induction requests generalizing c with
  | nil => rfl
  | cons request requests ih => exact (ih _).trans (c.serve_served request).source_eq

end Campaign

end TileWalk
