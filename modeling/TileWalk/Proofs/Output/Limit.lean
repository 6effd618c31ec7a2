import TileWalk.Output.Transcript

/-!
Transcripts whose outlet fails. What a transcript writes goes to its outlet as if it were written at
once (`Transcript.outlet_feed`), so an outlet with a limit takes the first bytes of what an outlet
without one takes, and what is lost is told when the transcript is closed. The display follows the
events all the same (`limited_outlet_loses_a_suffix`).
-/

namespace TileWalk

/-- The bytes of a text as they are written. -/
def bytesOf (text : String) : List UInt8 := text.toUTF8.data.toList

theorem bytesOf_append (a b : String) : bytesOf (a ++ b) = bytesOf a ++ bytesOf b := by
  simp [bytesOf, String.toUTF8, String.toByteArray_append, ByteArray.data_append]

@[simp] theorem bytesOf_empty : bytesOf "" = [] := rfl

theorem Display.textOf_cons (line : String) (lines : List String) :
    textOf (line :: lines) = line ++ "\n" ++ textOf lines := String.join_cons

/-- The text that some events add to a display. -/
theorem Display.text_play_cons (d : Display) (e : Event) (events : List Event) :
    (d.play (e :: events)).2 = textOf (d.lines e) ++ ((d.update e).play events).2 :=
  String.join_cons

namespace Outlet

variable {limit : Option Nat} {flushFails : Bool} {written : List UInt8}

theorem write_nil_fresh (limit : Option Nat) (flushFails : Bool) :
    (fresh limit flushFails).write [] = fresh limit flushFails := by
  cases limit <;> simp [write, fresh, fitting, hasRoom]

theorem foldl_writeLine (lines : List String) :
    lines.foldl writeLine ((fresh limit flushFails).write written) =
      (fresh limit flushFails).write (written ++ bytesOf (Display.textOf lines)) := by
  induction lines generalizing written with
  | nil => simp [Display.textOf, String.join]
  | cons line lines ih =>
    have hline : ((fresh limit flushFails).write written).writeLine line =
        (fresh limit flushFails).write (written ++ bytesOf (line ++ "\n")) := write_write _ _ _
    rw [List.foldl_cons, hline, ih, Display.textOf_cons, bytesOf_append _ (Display.textOf lines),
      List.append_assoc]

theorem taken_write_unlimited (flushFails : Bool) (bytes : List UInt8) :
    ((fresh none flushFails).write bytes).taken = bytes := rfl

theorem refused_write_fresh (limit : Nat) (flushFails : Bool) (bytes : List UInt8) :
    ((fresh (some limit) flushFails).write bytes).refused = decide (limit < bytes.length) := by
  simp [write, fresh, hasRoom, ← decide_not]

end Outlet

namespace Transcript

variable {limit : Option Nat} {flushFails : Bool}

/-- Event by event, a transcript writes the text that the display adds. -/
theorem outlet_feed_write (d : Display) (written : List UInt8) (events : List Event) :
    (sink.feed ⟨d, (Outlet.fresh limit flushFails).write written⟩ events).outlet =
      (Outlet.fresh limit flushFails).write (written ++ bytesOf (d.play events).2) := by
  induction events generalizing d written with
  | nil => simp [Display.play, String.join]
  | cons e events ih =>
    rw [Sink.feed_cons, receive_sink, record]
    dsimp only
    rw [Outlet.foldl_writeLine, ih, Display.text_play_cons, bytesOf_append, List.append_assoc]

theorem outlet_feed (limit : Option Nat) (flushFails : Bool) (events : List Event) :
    (sink.feed (.opening (.fresh limit flushFails)) events).outlet =
      (Outlet.fresh limit flushFails).write (bytesOf (Display.blank.play events).2) := by
  have hfeed := @outlet_feed_write limit flushFails .blank [] events
  rwa [Outlet.write_nil_fresh] at hfeed

theorem taken_feed_unlimited (flushFails : Bool) (events : List Event) :
    (sink.feed (.opening (.fresh none flushFails)) events).outlet.taken =
      bytesOf (Display.blank.play events).2 := by
  rw [outlet_feed, Outlet.taken_write_unlimited]

theorem close_unlimited (flushFails : Bool) (events : List Event) :
    (sink.feed (.opening (.fresh none flushFails)) events).close =
      if flushFails then .error .flushing
      else .ok (sink.feed (.opening (.fresh none flushFails)) events).outlet.taken := by
  rw [close, outlet_feed]
  rfl

theorem close_limited (limit : Nat) (flushFails : Bool) (events : List Event) :
    (sink.feed (.opening (.fresh (some limit) flushFails)) events).close =
      if limit < (bytesOf (Display.blank.play events).2).length then .error .writing
      else if flushFails then .error .flushing
      else .ok (bytesOf (Display.blank.play events).2) := by
  rw [close, outlet_feed, Outlet.refused_write_fresh, Outlet.taken_write_fresh,
    Outlet.flushFails_write]
  by_cases h : limit < (bytesOf (Display.blank.play events).2).length
  · simp [h]
  · simp [h, Outlet.fresh, List.take_of_length_le (Nat.not_lt.mp h)]

/-- The same events are written to an outlet with a limit and to one without. The first takes the
first bytes of what the second takes, as many as its limit allows. To close its transcript fails on
writing if and only if that is not all, and otherwise only if handing on fails. After every event
the two displays are the same, and so are the queues that they tell of. -/
theorem limited_outlet_loses_a_suffix (events : List Event) (limit : Nat)
    (flushFails flushFails' : Bool) :
    let cut (events : List Event) := sink.feed (.opening (.fresh (some limit) flushFails)) events
    let whole (events : List Event) := sink.feed (.opening (.fresh none flushFails')) events
    let total := (whole events).outlet.taken.length
    (cut events).outlet.taken = (whole events).outlet.taken.take (min limit total) ∧
      ((cut events).close = .error .writing ↔ limit < total) ∧
      (total ≤ limit → (cut events).close =
        if flushFails then .error .flushing else .ok (whole events).outlet.taken) ∧
      ((whole events).close =
        if flushFails' then .error .flushing else .ok (whole events).outlet.taken) ∧
      ∀ count, (cut (events.take count)).display = (whole (events.take count)).display ∧
        ∀ s, (cut (events.take count)).queue s = (whole (events.take count)).queue s := by
  dsimp only
  have hwhole := taken_feed_unlimited flushFails' events
  refine ⟨?_, ?_, fun hfits => ?_, close_unlimited _ _, fun count => ?_⟩
  · rw [hwhole, outlet_feed, Outlet.taken_write_fresh, List.take_eq_take_min]
  · rw [hwhole, close_limited]
    split
    · next hcut => exact iff_of_true rfl hcut
    · next hfits =>
      refine iff_of_false ?_ hfits
      cases flushFails <;> simp
  · rw [hwhole] at hfits ⊢
    rw [close_limited, if_neg (Nat.not_lt.mpr hfits)]
  · -- neither display knows of its outlet
    have hdisplay (outlet : Outlet) :
        (sink.feed (.opening outlet) (events.take count)).display =
          (events.take count).foldl Display.update .blank := display_feed_sink _ _
    have hsame := (hdisplay (.fresh (some limit) flushFails)).trans
      (hdisplay (.fresh none flushFails')).symm
    exact ⟨hsame, fun s => congrArg (fun d => d.queues.get s) hsame⟩

/-- An outlet may fail in the middle of a line. -/
theorem second_line_is_cut :
    let cut := sink.feed (.opening (.fresh (some 16) false)) [.started, .queue .f2 [], .victory]
    cut.outlet.taken = bytesOf "Running F1...\nGo" ∧ cut.close = .error .writing := by
  obtain ⟨htaken, hclose, -⟩ :=
    limited_outlet_loses_a_suffix [.started, .queue .f2 [], .victory] 16 false false
  exact ⟨htaken.trans (by decide +kernel), hclose.mpr (by decide +kernel)⟩

end Transcript

end TileWalk
