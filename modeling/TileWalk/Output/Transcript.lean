import TileWalk.Output.Display
import TileWalk.Output.Sink

/-!
Transcripts: a display whose lines are written to an outlet that may refuse them. An outlet takes
bytes up to a limit; the first refusal is final and is reported when the transcript is closed. What
the display holds does not depend on the outlet.
-/

namespace TileWalk

structure Outlet where
  /-- The number of bytes that it can take, if that is bounded. -/
  limit : Option Nat
  /-- Handing on what was written fails at the end. -/
  flushFails : Bool
  /-- The bytes taken so far. -/
  taken : List UInt8
  /-- Bytes were refused, and all later ones will be. -/
  refused : Bool
deriving DecidableEq, Inhabited

namespace Outlet

/-- An outlet that has taken nothing yet. -/
def fresh (limit : Option Nat) (flushFails : Bool) : Outlet := ⟨limit, flushFails, [], false⟩

/-- The outlet has room for `count` more bytes. -/
def hasRoom (o : Outlet) (count : Nat) : Bool :=
  match o.limit with
  | none => true
  | some limit => o.taken.length + count ≤ limit

/-- The first of some bytes, as many as there is room for. -/
def fitting (o : Outlet) (bytes : List UInt8) : List UInt8 :=
  match o.limit with
  | none => bytes
  | some limit => bytes.take (limit - o.taken.length)

/-- Writes bytes: those that fit are taken, and if some do not fit that is the refusal. -/
def write (o : Outlet) (bytes : List UInt8) : Outlet :=
  if o.refused then o
  else { o with taken := o.taken ++ o.fitting bytes, refused := !o.hasRoom bytes.length }

def writeLine (o : Outlet) (line : String) : Outlet :=
  o.write (line ++ "\n").toUTF8.data.toList

@[simp] theorem limit_write (o : Outlet) (bytes : List UInt8) :
    (o.write bytes).limit = o.limit := by
  unfold write
  split <;> rfl

@[simp] theorem flushFails_write (o : Outlet) (bytes : List UInt8) :
    (o.write bytes).flushFails = o.flushFails := by
  unfold write
  split <;> rfl

/-- After the refusal nothing is taken. -/
theorem write_of_refused {o : Outlet} (h : o.refused = true) (bytes : List UInt8) :
    o.write bytes = o := by
  simp [write, h]

/-- Writing twice is writing once what was written in both. -/
theorem write_write (o : Outlet) (a b : List UInt8) : (o.write a).write b = o.write (a ++ b) := by
  rcases o with ⟨limit, flushFails, taken, refused⟩
  cases refused with
  | true => simp [write]
  | false =>
    cases limit with
    | none => simp [write, fitting, hasRoom]
    | some limit =>
      by_cases h : taken.length + a.length ≤ limit
      · simp [write, fitting, hasRoom, h, List.take_append, Nat.add_assoc]
        omega
      · have ha : limit - taken.length ≤ a.length := by omega
        have hb : ¬ taken.length + (a.length + b.length) ≤ limit := by omega
        simp [write, fitting, hasRoom, h, hb, List.take_append_of_le_length ha]

/-- What an outlet that was empty has taken is as much of the bytes as fits. -/
theorem taken_write_fresh (limit : Nat) (flushFails : Bool) (bytes : List UInt8) :
    ((fresh (some limit) flushFails).write bytes).taken = bytes.take limit := by
  simp [write, fresh, fitting]

end Outlet

/-- Why a transcript could not be brought to its end. -/
inductive OutputFailure
  | writing
  | flushing
deriving DecidableEq, Inhabited

def OutputFailure.message : OutputFailure → String
  | writing => "failed to write presentation output"
  | flushing => "failed to flush presentation output"

/-- A display and the outlet that its lines go to. -/
structure Transcript where
  display : Display
  outlet : Outlet
deriving DecidableEq, Inhabited

namespace Transcript

def opening (outlet : Outlet) : Transcript := ⟨.blank, outlet⟩

def record (t : Transcript) (e : Event) : Transcript :=
  ⟨t.display.update e, (t.display.lines e).foldl Outlet.writeLine t.outlet⟩

def sink : Sink Transcript where
  level t level := t.record (.level level)
  cursor t cursor := t.record (.cursor cursor)
  queue t s commands := t.record (.queue s commands)
  refused t reason := t.record (.refused reason)
  victory t := t.record .victory
  complete t := t.record .complete
  started t := t.record .started
  ended t outcome executed := t.record (.ended outcome executed)

/-- The commands that a queue was last told to hold. -/
def queue (t : Transcript) (s : Subroutine) : List Command := t.display.queues.get s

/-- All bytes taken, or why some are missing. A refusal is reported before a failing flush. -/
def close (t : Transcript) : Except OutputFailure (List UInt8) :=
  if t.outlet.refused then .error .writing
  else if t.outlet.flushFails then .error .flushing
  else .ok t.outlet.taken

@[simp] theorem receive_sink (t : Transcript) (e : Event) : sink.receive t e = t.record e := by
  cases e <;> rfl

/-- The display follows the events, whatever the outlet takes. -/
theorem display_feed_sink (t : Transcript) (events : List Event) :
    (sink.feed t events).display = events.foldl Display.update t.display := by
  induction events generalizing t with
  | nil => rfl
  | cons e events ih => simp [ih, record]

end Transcript

end TileWalk
