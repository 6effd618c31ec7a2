import TileWalk.CommandLine.Screening
import TileWalk.Proofs.Output.Limit

/-!
Playing without the frames. What an event adds to a text depends on the event and, for a frame, on
the last level before it (`Display.chunks_eq`), so that the frames can be left out without a trace
in the rest. To show a player move by move is to show all moves at once (`Screening.playFrom_eq`),
whatever of them is shown (`quiet_leaves_out_frames`).
-/

namespace TileWalk

/-- The event shows as a frame. -/
def Event.isFrame : Event → Bool
  | .cursor _ => true
  | _ => false

def Event.level? : Event → Option Level
  | .level shown => some shown
  | _ => none

/-- The last level that some events tell of. -/
def lastLevel (events : List Event) : Option Level := (events.filterMap Event.level?).getLast?

/-- The text that an event adds when this was the last level. -/
def Event.chunk (last : Option Level) (e : Event) : String :=
  Display.textOf ({ Display.blank with level := last }.lines e)

/-- Each event with the text that it adds. -/
def told (events : List Event) : List (Event × String) :=
  events.mapIdx fun k e => (e, e.chunk (lastLevel (events.take k)))

theorem lastLevel_cons (e : Event) (events : List Event) :
    lastLevel (e :: events) = (lastLevel events).or e.level? := by
  cases e with
  | level level =>
    show (level :: events.filterMap Event.level?).getLast? = _
    rw [List.getLast?_cons]
    exact Option.or_some.symm
  | _ => exact Option.or_none.symm

theorem Event.chunk_of_not_frame {e : Event} (h : e.isFrame = false) (last : Option Level) :
    e.chunk last = e.chunk none := by
  cases e with
  | cursor cursor => contradiction
  | _ => rfl

namespace Display

theorem level_update (d : Display) (e : Event) : (d.update e).level = e.level?.or d.level := by
  cases e <;> rfl

theorem textOf_lines (d : Display) (e : Event) : textOf (d.lines e) = e.chunk d.level :=
  congrArg textOf (lines_congr rfl e)

/-- What an event adds depends on it and on the last level. -/
theorem chunks_eq (d : Display) (events : List Event) :
    d.chunks events =
      events.mapIdx fun k e => e.chunk ((lastLevel (events.take k)).or d.level) := by
  induction events generalizing d with
  | nil => rfl
  | cons e events ih =>
    have hlevels (k : Nat) : (lastLevel ((e :: events).take (k + 1))).or d.level =
        (lastLevel (events.take k)).or (d.update e).level := by
      rw [List.take_succ_cons, lastLevel_cons, level_update, Option.or_assoc]
    rw [chunks_cons, ih, textOf_lines, List.mapIdx_cons]
    simp only [hlevels]
    rfl

theorem chunks_eq_told (events : List Event) :
    blank.chunks events = (told events).map Prod.snd := by
  rw [chunks_eq]
  exact List.ext_getElem? fun k => by simp [told, blank, Function.comp_def]

theorem chunks_of_no_frames {events : List Event} (h : ∀ e ∈ events, e.isFrame = false)
    (d : Display) : d.chunks events = events.map (Event.chunk none) := by
  induction events generalizing d with
  | nil => rfl
  | cons e events ih =>
    rw [List.forall_mem_cons] at h
    rw [chunks_cons, textOf_lines, Event.chunk_of_not_frame h.1, ih h.2, List.map_cons]

theorem play_append (d : Display) (a b : List Event) :
    d.play (a ++ b) = ((d.play a).1.play b |>.1, (d.play a).2 ++ ((d.play a).1.play b).2) := by
  simp only [play, List.foldl_append, chunks_append, String.join_append]

end Display

theorem map_fst_told (events : List Event) : (told events).map Prod.fst = events :=
  List.ext_getElem? fun k => by simp [told, Function.comp_def]

/-- What is told besides the frames is told as if there were none. -/
theorem map_snd_filter_told (events : List Event) :
    ((told events).filter fun t => !t.1.isFrame).map Prod.snd =
      (events.filter fun e => !e.isFrame).map (Event.chunk none) := by
  have hchunk : ∀ t ∈ (told events).filter fun t => !t.1.isFrame, t.2 = t.1.chunk none := by
    intro t ht
    obtain ⟨hmem, hframe⟩ := List.mem_filter.mp ht
    obtain ⟨k, hk, rfl⟩ := List.mem_mapIdx.mp hmem
    exact Event.chunk_of_not_frame (by simpa using hframe) _
  calc ((told events).filter fun t => !t.1.isFrame).map Prod.snd
      = ((told events).filter fun t => !t.1.isFrame).map fun t => t.1.chunk none :=
        List.map_congr_left hchunk
    _ = (((told events).map Prod.fst).filter fun e => !e.isFrame).map (Event.chunk none) := by
        rw [List.filter_map, List.map_map]
        rfl
    _ = (events.filter fun e => !e.isFrame).map (Event.chunk none) := by rw [map_fst_told]

/-! ### What is shown -/

namespace CommandLine

theorem shown_append (quiet : Bool) (a b : List Event) :
    shown quiet (a ++ b) = shown quiet a ++ shown quiet b := by
  cases quiet
  · rfl
  · exact List.filter_append _ _

theorem shown_quiet (events : List Event) :
    shown true events = events.filter fun e => !e.isFrame := by
  refine List.filter_congr fun e _ => ?_
  cases e <;> rfl

/-- What a display adds for the events that are shown is what they tell, less the frames when they
are left out. -/
theorem text_shown (quiet : Bool) (events : List Event) :
    (Display.blank.play (shown quiet events)).2 =
      String.join (((told events).filter fun t => !(quiet && t.1.isFrame)).map Prod.snd) := by
  cases quiet with
  | false =>
    have hall : ((told events).filter fun t => !(false && t.1.isFrame)) = told events :=
      List.filter_eq_self.mpr fun _ _ => rfl
    rw [hall, ← Display.chunks_eq_told]
    rfl
  | true =>
    have hframes : ∀ e ∈ shown true events, e.isFrame = false := by
      intro e he
      rw [shown_quiet] at he
      simpa using (List.mem_filter.mp he).2
    simp only [Display.play, Display.chunks_of_no_frames hframes, Bool.true_and]
    rw [map_snd_filter_told, shown_quiet]

end CommandLine

namespace Screening

open CommandLine

/-- One step after the other is shown as the step that they make together. -/
theorem follow_next (quiet : Bool) (d : Display) (step : Step Player) (f : Player → Step Player) :
    follow quiet d (step.next f) =
      andThen (follow quiet d step) fun s => follow quiet s.display (f s.player) := by
  simp only [follow, andThen, Step.report_next, Report.events_append, shown_append,
    Display.play_append]
  rfl

theorem play_eq (quiet : Bool) (s : Screening) (moves : Nat) :
    s.play quiet moves = follow quiet s.display (s.player.play moves) := by
  induction moves generalizing s with
  | zero => cases quiet <;> rfl
  | succ moves ih =>
    rw [Player.play_succ, follow_next, play, perform]
    exact congrArg (andThen _) (funext ih)

theorem playFrom_eq (quiet : Bool) (start : Step Player) (moves : Nat) :
    playFrom quiet start moves = follow quiet .blank (start.next fun p => p.play moves) := by
  rw [follow_next, playFrom]
  exact congrArg (andThen _) (funext fun s => s.play_eq quiet moves)

end Screening

namespace CommandLine

/-- What a transcript writes is made of one text for each event. That of an event that is no frame
depends on nothing else, and that of a frame only on the cursor and the last level before it. So
without the frames the same is written, less their texts. On the command line play fails where it
could not be entered, whether or not the frames are shown. Otherwise the moves are those that the
player makes from there with no one looking, with the same events and to the same end, and only the
texts of the frames are left out of what is printed. -/
theorem quiet_leaves_out_frames :
    (∀ (events : List Event) (flushFails : Bool),
      let written (events : List Event) :=
        (Transcript.sink.feed (.opening (.fresh none flushFails)) events).outlet.taken
      written events = bytesOf (String.join ((told events).map Prod.snd)) ∧
        written (shown true events) =
          bytesOf (String.join (((told events).filter fun t => !t.1.isFrame).map Prod.snd))) ∧
    (∀ e : Event, e.isFrame = false → ∀ last, e.chunk last = e.chunk none) ∧
    ∀ (catalog : Catalog) (script : List ScriptLine) (options : Options) (moves : Nat),
      let screened (quiet : Bool) := screen catalog script { options with quiet } moves
      (∃ failure, enterPlay catalog script options = .error failure ∧
        ∀ quiet, screened quiet = .error failure) ∨
      ∃ start, enterPlay catalog script options = .ok start ∧
        let done := start.next fun player => player.play moves
        ∀ quiet, ∃ step text, screened quiet = .ok (step, text) ∧
          step.state.player = done.state ∧ step.report = done.report ∧
          text = String.join
            (((told done.report.events).filter fun t => !(quiet && t.1.isFrame)).map Prod.snd) := by
  refine ⟨fun events flushFails => ?_, fun e he => e.chunk_of_not_frame he,
    fun catalog script options moves => ?_⟩
  · have hwritten := Transcript.taken_feed_unlimited flushFails
    constructor
    · exact (hwritten _).trans (congrArg _ (congrArg _ (Display.chunks_eq_told events)))
    · exact (hwritten _).trans (congrArg _ (text_shown true events))
  · intro screened
    have hscreened (quiet : Bool) : screened quiet = (enterPlay catalog script options).map
        fun start => Screening.playFrom quiet start moves := rfl
    cases henter : enterPlay catalog script options with
    | error failure =>
      refine .inl ⟨failure, rfl, fun quiet => ?_⟩
      rw [hscreened, henter]
      rfl
    | ok start =>
      refine .inr ⟨start, rfl, ?_⟩
      intro done quiet
      refine ⟨(Screening.follow quiet .blank done).1, _, ?_, rfl, rfl,
        text_shown quiet done.report.events⟩
      rw [hscreened, henter]
      exact congrArg Except.ok (Screening.playFrom_eq quiet start moves)

/-- One step leads to the goal. -/
def doorway : Level :=
  ⟨[[.path .grey, .goal]], ⟨0, 0, .right⟩, .const 1, .const true, "two tiles"⟩

/-- The frame before the level is no more than a blank line. -/
theorem doorway_without_frames :
    let events := [.cursor ⟨0, 0, .right⟩, .level doorway, .cursor ⟨1, 0, .right⟩, .victory]
    let written (events : List Event) :=
      (Transcript.sink.feed (.opening (.fresh none false)) events).outlet.taken
    let summary := "Start at (0, 0) facing right; F1 holds 1, F2 holds 1, F3 holds 1."
    written events = bytesOf ("\ntwo tiles\n" ++ summary ++ "\n\n.>\nGoal reached!\n") ∧
      written (shown true events) = bytesOf ("two tiles\n" ++ summary ++ "\nGoal reached!\n") := by
  obtain ⟨hwritten, hquiet⟩ := quiet_leaves_out_frames.1
    [.cursor ⟨0, 0, .right⟩, .level doorway, .cursor ⟨1, 0, .right⟩, .victory] false
  exact ⟨hwritten.trans (by decide +kernel), hquiet.trans (by decide +kernel)⟩

end CommandLine

end TileWalk
