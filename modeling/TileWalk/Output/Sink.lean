import TileWalk.Session.Event

/-!
Sinks: what follows a session by its events. A sink has one handler for each kind of event; the two
that mark the bounds of a run may be left out. Feeding a sink hands it the events one by one, in
order.
-/

namespace TileWalk

/-- The event marks the beginning or the end of a run. -/
def Event.isRunBound : Event → Bool
  | .started | .ended _ _ => true
  | .level _ | .cursor _ | .queue _ _ | .refused _ | .victory | .complete => false

/-- A follower of events with a state of its own. -/
structure Sink (σ : Type) where
  level : σ → Level → σ
  cursor : σ → Cursor → σ
  queue : σ → Subroutine → List Command → σ
  refused : σ → Refusal → σ
  victory : σ → σ
  complete : σ → σ
  started : σ → σ := id
  ended : σ → Outcome → UInt32 → σ := fun s _ _ => s

namespace Sink

variable {σ : Type}

/-- The state after one event. -/
def receive (sink : Sink σ) (s : σ) : Event → σ
  | .level level => sink.level s level
  | .cursor cursor => sink.cursor s cursor
  | .queue sub commands => sink.queue s sub commands
  | .refused reason => sink.refused s reason
  | .started => sink.started s
  | .victory => sink.victory s
  | .ended outcome executed => sink.ended s outcome executed
  | .complete => sink.complete s

def feed (sink : Sink σ) (s : σ) (events : List Event) : σ :=
  events.foldl sink.receive s

@[simp] theorem feed_nil (sink : Sink σ) (s : σ) : sink.feed s [] = s := rfl

@[simp] theorem feed_cons (sink : Sink σ) (s : σ) (e : Event) (events : List Event) :
    sink.feed s (e :: events) = sink.feed (sink.receive s e) events := rfl

theorem feed_append (sink : Sink σ) (s : σ) (a b : List Event) :
    sink.feed s (a ++ b) = sink.feed (sink.feed s a) b := List.foldl_append

/-- Collects what happens, apart from the bounds of runs. -/
def essentials : Sink (Array Event) where
  level seen level := seen.push (.level level)
  cursor seen cursor := seen.push (.cursor cursor)
  queue seen sub commands := seen.push (.queue sub commands)
  refused seen reason := seen.push (.refused reason)
  victory seen := seen.push .victory
  complete seen := seen.push .complete

def recorder : Sink (Array Event) where
  level seen level := seen.push (.level level)
  cursor seen cursor := seen.push (.cursor cursor)
  queue seen sub commands := seen.push (.queue sub commands)
  refused seen reason := seen.push (.refused reason)
  victory seen := seen.push .victory
  complete seen := seen.push .complete
  started seen := seen.push .started
  ended seen outcome executed := seen.push (.ended outcome executed)

@[simp] theorem receive_recorder (seen : Array Event) (e : Event) :
    recorder.receive seen e = seen.push e := by cases e <;> rfl

@[simp] theorem receive_essentials (seen : Array Event) (e : Event) :
    essentials.receive seen e = if e.isRunBound then seen else seen.push e := by cases e <;> rfl

/-- A recorder holds the events it was fed, in order. -/
theorem toList_feed_recorder (seen : Array Event) (events : List Event) :
    (recorder.feed seen events).toList = seen.toList ++ events := by
  induction events generalizing seen with
  | nil => simp
  | cons e events ih => simp [ih]

/-- The essentials are the events that are no bounds of runs, in order. -/
theorem toList_feed_essentials (seen : Array Event) (events : List Event) :
    (essentials.feed seen events).toList =
      seen.toList ++ events.filter fun e => !e.isRunBound := by
  induction events generalizing seen with
  | nil => simp
  | cons e events ih => cases h : e.isRunBound <;> simp [ih, h]

end Sink

end TileWalk
