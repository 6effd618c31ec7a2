import Mathlib.Data.List.Induction
import TileWalk.Proofs.Script.Grammar
import TileWalk.Proofs.Session.Refusal
import TileWalk.Proofs.Session.Renewal

/-!
Scripts on levels. Submitted right after a level is loaded, the lines of a script fill the queues
with the commands of its sections, but for calls that the level disables and for what is beyond the
capacities (`script_fills_queues_up_to_capacity`).
-/

namespace TileWalk

/-- The level does not disable what the command calls. -/
def Level.permits (level : Level) (command : Command) : Bool :=
  match command.operation with
  | .call callee => level.enabled.get callee
  | _ => true

namespace Script

def commandsFor (sub : Subroutine) (lines : List ScriptLine) : List Command :=
  (lines.filter fun line => line.subroutine = sub).map ScriptLine.command

end Script

/-- The commands of the lines for a subroutine, without those that the level does not permit. -/
def Level.permitted (level : Level) (lines : List ScriptLine) (sub : Subroutine) : List Command :=
  (Script.commandsFor sub lines).filter level.permits

/-! ### Commands of scripts -/

namespace Script

variable {sub : Subroutine} {commands : List Command} {lines : List ScriptLine}
  {sections : List (Subroutine × List Command)}

theorem Token.known {command : Command} {token : List Char} (h : Token command token) :
    command.operation ≠ .unknown := by
  intro hunknown
  cases h with
  | plain hmark =>
    obtain rfl := hunknown
    contradiction
  | colored _ hmark =>
    obtain rfl := hunknown
    contradiction

theorem Body.known {body : List Char} (h : Body commands body) :
    ∀ command ∈ commands, command.operation ≠ .unknown := by
  induction h with
  | blank => exact fun _ h => absurd h List.not_mem_nil
  | command _ htoken _ _ ih => exact List.forall_mem_cons.mpr ⟨htoken.known, ih⟩

theorem Pieces.known {pieces : List (List Char)} (h : Pieces sections pieces) :
    ∀ line ∈ linesOf sections, line.command.operation ≠ .unknown := by
  induction h with
  | nil => exact fun _ h => absurd h List.not_mem_nil
  | blank _ _ ih => exact ih
  | named _ hbody _ ih =>
    intro line hline
    rw [linesOf_cons] at hline
    rcases List.mem_append.mp hline with hline | hline
    · obtain ⟨command, hcommand, rfl⟩ := List.mem_map.mp hline
      exact hbody.known command hcommand
    · exact ih line hline

theorem Writes.known {text : String} (h : Writes text sections) :
    ∀ line ∈ linesOf sections, line.command.operation ≠ .unknown := by
  obtain ⟨pieces, -, -, -, hpieces⟩ := h
  exact hpieces.known

theorem commandsFor_append (sub : Subroutine) (a b : List ScriptLine) :
    commandsFor sub (a ++ b) = commandsFor sub a ++ commandsFor sub b := by
  simp [commandsFor]

theorem commandsFor_section (s : Subroutine) (commands : List Command) :
    commandsFor sub (commands.map (ScriptLine.mk s)) = if s = sub then commands else [] := by
  split
  · next h => simp [commandsFor, List.filter_map, Function.comp_def, h]
  · next h => simp [commandsFor, h]

theorem commandsFor_of_not_mem (h : sub ∉ sections.map Prod.fst) :
    commandsFor sub (linesOf sections) = [] := by
  induction sections with
  | nil => rfl
  | cons entry sections ih =>
    obtain ⟨hne, hrest⟩ := not_or.mp (List.mem_cons.not.mp h)
    rw [linesOf_cons, commandsFor_append, commandsFor_section, if_neg (Ne.symm hne), ih hrest]
    rfl

/-- With one section for each subroutine at most, a subroutine has the commands of its section. -/
theorem commandsFor_linesOf (h : (sections.map Prod.fst).Nodup) :
    commandsFor sub (linesOf sections) = (sections.lookup sub).getD [] := by
  induction sections with
  | nil => rfl
  | cons entry sections ih =>
    obtain ⟨s, commands⟩ := entry
    obtain ⟨hs, hnodup⟩ := List.nodup_cons.mp h
    rw [linesOf_cons, commandsFor_append, commandsFor_section, List.lookup_cons]
    by_cases hsub : s = sub
    · subst hsub
      simp [commandsFor_of_not_mem hs]
    · rw [if_neg hsub, List.nil_append, ih hnodup, beq_eq_false_iff_ne.mpr (Ne.symm hsub)]

end Script

namespace Level

variable {level : Level} {earlier : List ScriptLine} {line : ScriptLine} {sub : Subroutine}

theorem permits_eq_false_iff {command : Command} :
    level.permits command = false ↔
      ∃ callee, command.operation = .call callee ∧ level.enabled.get callee = false := by
  obtain ⟨operation, condition⟩ := command
  cases operation with
  | call callee => simp [permits]
  | _ => simp [permits]

theorem permitted_append_of_forbids (h : level.permits line.command = false) :
    level.permitted (earlier ++ [line]) sub = level.permitted earlier sub := by
  rw [permitted, Script.commandsFor_append, List.filter_append]
  by_cases hsub : line.subroutine = sub
  · simp [permitted, Script.commandsFor, hsub, h]
  · simp [permitted, Script.commandsFor, hsub]

theorem permitted_append_of_ne (h : sub ≠ line.subroutine) :
    level.permitted (earlier ++ [line]) sub = level.permitted earlier sub := by
  rw [permitted, Script.commandsFor_append, List.filter_append]
  simp [permitted, Script.commandsFor, Ne.symm h]

theorem permitted_append_self (h : level.permits line.command = true) :
    level.permitted (earlier ++ [line]) line.subroutine =
      level.permitted earlier line.subroutine ++ [line.command] := by
  rw [permitted, Script.commandsFor_append, List.filter_append]
  simp [permitted, Script.commandsFor, h]

end Level

namespace Session

variable {s t : Session} {level : Level} {earlier lines : List ScriptLine} {line : ScriptLine}
  {step : Step Session}

/-- What submitting a line after some others does: a call that the level disables is refused, any
other command is refused if its queue is filled by what is permitted of the lines before, and
queued if not. -/
inductive Answered (level : Level) (earlier : List ScriptLine) (line : ScriptLine)
    (t : Session) : Step Session → Prop
  | disabled {callee : Subroutine} (hcall : line.command.operation = .call callee)
      (hdisabled : level.enabled.get callee = false) :
      Answered level earlier line t (t.refuse (.disabled callee))
  | full (hpermits : level.permits line.command = true)
      (hfull : level.capacities.get line.subroutine ≤
        (level.permitted earlier line.subroutine).length) :
      Answered level earlier line t (t.refuse (.slotFull line.subroutine))
  | queued {step : Step Session} (hpermits : level.permits line.command = true)
      (hroom : (level.permitted earlier line.subroutine).length <
        level.capacities.get line.subroutine)
      (hadds : t.Adds line.command line.subroutine step) :
      Answered level earlier line t step

/-- The session is idle on the level, and its queues hold what they have room for of what the level
permits of the lines. -/
structure Holds (level : Level) (lines : List ScriptLine) (t : Session) : Prop where
  loaded : t.level = some level
  idle : t.run = none
  capacities : t.queues.capacities = level.capacities
  queue : ∀ sub, t.queue sub = (level.permitted lines sub).take (level.capacities.get sub)

/-- The lines, submitted one after the other right after the level is loaded. -/
def install (s : Session) (level : Level) (lines : List ScriptLine) : Step Session :=
  (s.apply (.load level)).state.applyAll (lines.map ScriptLine.action)

/-! ### One line -/

theorem Holds.full_iff (h : Holds level earlier t) (sub : Subroutine) :
    t.Full sub ↔ level.capacities.get sub ≤ (level.permitted earlier sub).length := by
  unfold Full
  rw [h.capacities, h.queue, List.length_take]
  omega

theorem refusal?_of_disabled (hlevel : t.level = some level) (hrun : t.run = none)
    {command : Command} {callee : Subroutine} (hcall : command.operation = .call callee)
    (hdisabled : level.enabled.get callee = false) :
    t.refusal? command = some (.disabled callee) := by
  simp [Session.refusal?, hlevel, hrun, hcall, hdisabled]

theorem refusal?_of_permits (hlevel : t.level = some level) (hrun : t.run = none)
    {command : Command} (hpermits : level.permits command = true) :
    t.refusal? command = none := by
  obtain ⟨operation, condition⟩ := command
  cases operation with
  | call callee =>
    have henabled : level.enabled.get callee = true := hpermits
    simp [Session.refusal?, hlevel, hrun, henabled]
  | _ => simp [Session.refusal?, hlevel, hrun]

theorem Holds.answered (h : Holds level earlier t) (hknown : line.command.operation ≠ .unknown) :
    Answered level earlier line t (t.apply line.action) := by
  have happly : t.apply line.action = t.add line.command (.slot line.subroutine) := by
    simp [Session.apply, applyWith, ScriptLine.action, submit, Command.ofLabels_label hknown]
  have houtcome := t.add_outcome line.command (.slot line.subroutine)
  rw [head?_grounds] at houtcome
  rw [happly]
  cases hpermits : level.permits line.command with
  | false =>
    obtain ⟨callee, hcall, hdisabled⟩ := Level.permits_eq_false_iff.mp hpermits
    rw [refusal?_of_disabled h.loaded h.idle hcall hdisabled] at houtcome
    rw [show t.add line.command _ = t.refuse (.disabled callee) from houtcome]
    exact .disabled hcall hdisabled
  | true =>
    rw [refusal?_of_permits h.loaded h.idle hpermits] at houtcome
    by_cases hfull : t.Full line.subroutine
    · rw [roomGrounds, if_pos hfull] at houtcome
      rw [show t.add line.command _ = t.refuse (.slotFull line.subroutine) from houtcome]
      exact .full hpermits ((h.full_iff _).mp hfull)
    · rw [roomGrounds, if_neg hfull] at houtcome
      obtain ⟨sub, htakes, hadds⟩ := houtcome
      cases htakes with
      | named _ => exact .queued hpermits (by rw [h.full_iff] at hfull; omega) hadds

theorem Holds.after (h : Holds level earlier t) (hanswer : Answered level earlier line t step) :
    Holds level (earlier ++ [line]) step.state := by
  cases hanswer with
  | @disabled callee hcall hdisabled =>
    have hforbids := Level.permits_eq_false_iff.mpr ⟨callee, hcall, hdisabled⟩
    refine { h with queue := fun sub => ?_ }
    rw [Level.permitted_append_of_forbids hforbids]
    exact h.queue sub
  | full hpermits hfull =>
    refine { h with queue := fun sub => ?_ }
    by_cases hsub : sub = line.subroutine
    · subst hsub
      -- the line is permitted, but it lies beyond the cut
      rw [Level.permitted_append_self hpermits, List.take_append_of_le_length hfull]
      exact h.queue line.subroutine
    · rw [Level.permitted_append_of_ne hsub]
      exact h.queue sub
  | queued hpermits hroom hadds =>
    refine ⟨?_, ?_, ?_, fun sub => ?_⟩
    · rw [hadds.rest]
      exact h.loaded
    · rw [hadds.rest]
      exact h.idle
    · rw [hadds.rest]
      exact h.capacities
    · by_cases hsub : sub = line.subroutine
      · subst hsub
        -- there is room, so that neither list is cut
        rw [hadds.appended, h.queue, Level.permitted_append_self hpermits,
          List.take_of_length_le (by omega), List.take_of_length_le (by simp; omega)]
      · rw [hadds.others sub hsub, Level.permitted_append_of_ne hsub]
        exact h.queue sub

/-! ### All lines -/

theorem install_append_singleton (s : Session) (level : Level) (earlier : List ScriptLine)
    (line : ScriptLine) :
    s.install level (earlier ++ [line]) =
      (s.install level earlier).next fun t => t.apply line.action := by
  rw [install, List.map_append, applyAll_append]
  simp [install]

theorem holds_nil (s : Session) (level : Level) : Holds level [] (s.install level []).state := by
  show Holds level [] (s.apply (.load level)).state
  rw [state_load]
  refine ⟨rfl, rfl, rfl, fun sub => ?_⟩
  simp [begun, queue, onLevel, Queues.ofCapacities, Level.permitted, Script.commandsFor]

theorem holds_install (s : Session) (level : Level)
    (hknown : ∀ line ∈ lines, line.command.operation ≠ .unknown) :
    Holds level lines (s.install level lines).state := by
  induction lines using List.reverseRecOn with
  | nil => exact holds_nil s level
  | append_singleton earlier line ih =>
    have hearlier := ih fun other hother => hknown other (List.mem_append_left _ hother)
    have hline := hknown line (List.mem_append_right _ List.mem_cons_self)
    rw [install_append_singleton, Step.state_next]
    exact hearlier.after (hearlier.answered hline)

/-- No label is refused as malformed, and no queue is shown with an unknown command. -/
def Sound (event : Event) : Prop :=
  (∀ input, event ≠ .refused (.malformed input)) ∧
    ∀ sub commands, event = .queue sub commands →
      ∀ command ∈ commands, command.operation ≠ .unknown

theorem Holds.known (h : Holds level lines t)
    (hknown : ∀ line ∈ lines, line.command.operation ≠ .unknown) (sub : Subroutine) :
    ∀ command ∈ t.queue sub, command.operation ≠ .unknown := by
  intro command hcommand
  rw [h.queue] at hcommand
  have hfor : command ∈ Script.commandsFor sub lines :=
    List.mem_of_mem_filter (List.mem_of_mem_take hcommand)
  obtain ⟨line, hline, rfl⟩ := List.mem_map.mp hfor
  exact hknown line (List.mem_of_mem_filter hline)

theorem Answered.events (h : Answered level earlier line t step) :
    ∃ event, step.report.events = [event] := by
  cases h with
  | disabled => exact ⟨_, rfl⟩
  | full => exact ⟨_, rfl⟩
  | queued _ _ hadds => exact ⟨_, hadds.events⟩

theorem Answered.sound (h : Answered level earlier line t step)
    (hqueue : ∀ command ∈ t.queue line.subroutine, command.operation ≠ .unknown)
    (hline : line.command.operation ≠ .unknown) :
    ∀ event ∈ step.report.events, Sound event := by
  intro event hevent
  cases h with
  | disabled =>
    obtain rfl := List.mem_singleton.mp hevent
    exact ⟨fun input h => (nomatch h), fun sub commands h => (nomatch h)⟩
  | full =>
    obtain rfl := List.mem_singleton.mp hevent
    exact ⟨fun input h => (nomatch h), fun sub commands h => (nomatch h)⟩
  | queued _ _ hadds =>
    rw [hadds.events] at hevent
    obtain rfl := List.mem_singleton.mp hevent
    refine ⟨fun input h => (nomatch h), fun sub commands h command hcommand => ?_⟩
    obtain ⟨rfl, rfl⟩ := Event.queue.inj h
    rcases List.mem_append.mp hcommand with hold | hnew
    · exact hqueue command hold
    · rw [List.mem_singleton.mp hnew]
      exact hline

theorem install_events (s : Session) (level : Level)
    (hknown : ∀ line ∈ lines, line.command.operation ≠ .unknown) :
    (s.install level lines).report.events.length = lines.length ∧
      ∀ event ∈ (s.install level lines).report.events, Sound event := by
  induction lines using List.reverseRecOn with
  | nil => exact ⟨rfl, fun _ h => absurd h List.not_mem_nil⟩
  | append_singleton earlier line ih =>
    have hearlier := fun other hother => hknown other (List.mem_append_left _ hother)
    have hline := hknown line (List.mem_append_right _ List.mem_cons_self)
    have hholds := holds_install s level hearlier
    have hanswer := hholds.answered hline
    obtain ⟨hlength, hsound⟩ := ih hearlier
    obtain ⟨event, hevent⟩ := hanswer.events
    rw [install_append_singleton, Step.report_next, Report.events_append]
    constructor
    · rw [List.length_append, List.length_append, hlength, hevent]
      rfl
    · intro other hother
      rcases List.mem_append.mp hother with hother | hother
      · exact hsound other hother
      · exact hanswer.sound (hholds.known hearlier _) hline other hother

/-- Right after a level is loaded, the lines of a script are answered by one event each. A line that
calls what the level disables is refused, and so is a line whose queue is full by then; any other is
queued. No line is malformed and no unknown command is queued. In the end each queue holds the
commands of its section that the level permits, as many of the first as there is room for. -/
theorem script_fills_queues_up_to_capacity {text : String} {lines : List ScriptLine}
    (h : Script.parse text = .ok lines) (s : Session) (level : Level) :
    (∃ sections, Script.Writes text sections ∧ (sections.map Prod.fst).Nodup ∧
      lines = Script.linesOf sections ∧
      ∀ sub, (s.install level lines).state.queue sub =
        (((sections.lookup sub).getD []).filter level.permits).take
          (level.capacities.get sub)) ∧
    (s.install level lines).report.events.length = lines.length ∧
    (∀ input, .refused (.malformed input) ∉ (s.install level lines).report.events) ∧
    (∀ sub commands, .queue sub commands ∈ (s.install level lines).report.events →
      ∀ command ∈ commands, command.operation ≠ .unknown) ∧
    ∀ earlier line later, lines = earlier ++ line :: later →
      let t := (s.install level earlier).state
      (∃ event, (t.apply line.action).report.events = [event]) ∧
        Answered level earlier line t (t.apply line.action) := by
  obtain ⟨sections, hwrites, hnodup, rfl⟩ := Script.parse_eq_ok_iff.mp h
  have hknown := hwrites.known
  obtain ⟨hlength, hsound⟩ := install_events s level hknown
  refine ⟨⟨sections, hwrites, hnodup, rfl, fun sub => ?_⟩, hlength,
    fun input hinput => (hsound _ hinput).1 input rfl,
    fun sub commands hqueue => (hsound _ hqueue).2 sub commands rfl, ?_⟩
  · rw [(holds_install s level hknown).queue, Level.permitted, Script.commandsFor_linesOf hnodup]
  · intro earlier line later hsplit
    rw [hsplit] at hknown
    have hearlier := holds_install s level fun other hother =>
      hknown other (List.mem_append_left _ hother)
    have hanswer := hearlier.answered
      (hknown line (List.mem_append_right _ List.mem_cons_self))
    exact ⟨hanswer.events, hanswer⟩

/-- A level with room for two commands in the first queue, and with the second subroutine
disabled. -/
def narrow : Level :=
  ⟨[[.path .grey, .goal]], ⟨0, 0, .right⟩, ⟨2, 1, 0⟩, ⟨true, false, true⟩, "a step"⟩

/-- The call is refused and takes no room, and the turn comes when the queue is full. -/
theorem narrow_refuses_call_and_turn :
    let ahead : ScriptLine := ⟨.f1, ⟨.move .forward, none⟩⟩
    let call : ScriptLine := ⟨.f1, ⟨.call .f2, some .green⟩⟩
    let turn : ScriptLine := ⟨.f1, ⟨.move (.turn .left), none⟩⟩
    Script.parse "F1:F g:2 f L" = .ok [ahead, call, ahead, turn] ∧
      (fresh.install narrow [ahead, call, ahead, turn]).report.events.length = 4 ∧
      Answered narrow [ahead, call, ahead] turn
        (fresh.install narrow [ahead, call, ahead]).state
        ((fresh.install narrow [ahead, call, ahead]).state.apply turn.action) := by
  intro ahead call turn
  have hparse : Script.parse "F1:F g:2 f L" = .ok [ahead, call, ahead, turn] := by decide +kernel
  obtain ⟨-, hlength, -, -, hanswers⟩ :=
    script_fills_queues_up_to_capacity hparse fresh narrow
  exact ⟨hparse, hlength, (hanswers [ahead, call, ahead] turn [] rfl).2⟩

end Session

end TileWalk
