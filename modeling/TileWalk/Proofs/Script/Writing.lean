import TileWalk.Proofs.Script.Grammar

/-!
Writing scripts. A layout says which commands stand where in a text and which blanks stand between
them; whatever the blanks, the text is read as those commands (`scripts_are_read_as_written`).
-/

namespace TileWalk

open TileWalk.Text

/-- The command in a script, with its color in full. -/
def Command.token (command : Command) : List Char :=
  let color := command.condition.elim [] fun color => color.label.toList ++ [':']
  color ++ command.operation.marks.take 1

namespace Script

/-! ### Layouts -/

/-- A command of a layout and the blanks in front of it. -/
structure Entry where
  pad : List Char
  command : Command

def Entry.text (entry : Entry) : List Char := entry.pad ++ entry.command.token

/-- What stands between two semicolons: blanks, or a section with blanks behind its commands. -/
inductive Piece
  | blank (pad : List Char)
  | named (s : Subroutine) (entries : List Entry) (trail : List Char)

namespace Piece

def text : Piece → List Char
  | blank pad => pad
  | named s entries trail => s.label.toList ++ ':' :: (entries.flatMap Entry.text ++ trail)

def section? : Piece → Option (Subroutine × List Command)
  | blank _ => none
  | named s entries _ => some (s, entries.map Entry.command)

/-- Commands are known and blanks are blank, with at least one between two commands. -/
def WellFormed : Piece → Prop
  | blank pad => Blank pad
  | named _ entries trail =>
    (∀ entry ∈ entries, Blank entry.pad ∧ entry.command.operation ≠ .unknown) ∧
      (∀ entry ∈ entries.tail, entry.pad ≠ []) ∧ Blank trail

instance (piece : Piece) : Decidable piece.WellFormed :=
  match piece with
  | blank pad => inferInstanceAs (Decidable (Blank pad))
  | named _ entries trail => inferInstanceAs (Decidable
      ((∀ entry ∈ entries, Blank entry.pad ∧ entry.command.operation ≠ .unknown) ∧
        (∀ entry ∈ entries.tail, entry.pad ≠ []) ∧ Blank trail))

end Piece

/-- The sections of a layout, in order. -/
def sectionsOf (layout : List Piece) : List (Subroutine × List Command) :=
  layout.filterMap Piece.section?

def write (layout : List Piece) : String :=
  String.ofList ([';'].intercalate (layout.map Piece.text))

/-! ### What a layout writes -/

variable {command : Command} {commands : List Command} {entries : List Entry}
  {layout : List Piece} {text trail : List Char}

theorem token_of_known (h : command.operation ≠ .unknown) : Token command command.token := by
  have hsome : ∀ operation ∈ Operation.known, operation.marks ≠ [] := by decide
  obtain ⟨operation, condition⟩ := command
  obtain ⟨mark, marks, hmarks⟩ :=
    List.exists_cons_of_ne_nil (hsome operation (Operation.mem_known.mpr h))
  have hmark : mark ∈ operation.marks := by rw [hmarks]; exact List.mem_cons_self
  unfold Command.token
  rw [hmarks]
  cases condition with
  | none => exact .plain hmark
  | some color =>
    show Token _ ((color.label.toList ++ [':']) ++ [mark])
    rw [List.append_assoc]
    exact .colored (.label rfl) hmark

/-- What follows a command starts with a blank. -/
theorem isBlank_of_mem_head? (hentries : ∀ entry ∈ entries, Blank entry.pad ∧ entry.pad ≠ [])
    (htrail : Blank trail) :
    ∀ c ∈ (entries.flatMap Entry.text ++ trail).head?, isBlank c = true := by
  intro c hc
  cases entries with
  | nil => exact htrail c (List.mem_of_mem_head? hc)
  | cons entry entries =>
    obtain ⟨hblank, hne⟩ := hentries entry List.mem_cons_self
    obtain ⟨first, others, hpad⟩ := List.exists_cons_of_ne_nil hne
    rw [List.flatMap_cons, Entry.text, hpad] at hc
    obtain rfl := Option.some.inj hc
    exact hblank _ (by rw [hpad]; exact List.mem_cons_self)

theorem body_of_entries
    (hentries : ∀ entry ∈ entries, Blank entry.pad ∧ entry.command.operation ≠ .unknown)
    (hgaps : ∀ entry ∈ entries.tail, entry.pad ≠ []) (htrail : Blank trail) :
    Body (entries.map Entry.command) (entries.flatMap Entry.text ++ trail) := by
  induction entries with
  | nil => exact .blank htrail
  | cons entry entries ih =>
    obtain ⟨hpad, hknown⟩ := hentries entry List.mem_cons_self
    have hrest := fun other hother => hentries other (List.mem_cons_of_mem entry hother)
    rw [List.flatMap_cons, Entry.text, List.append_assoc, List.append_assoc]
    refine .command hpad (token_of_known hknown)
      (isBlank_of_mem_head? (fun other hother => ⟨(hrest other hother).1, hgaps other hother⟩)
        htrail) ?_
    exact ih hrest fun other hother => hgaps other (List.mem_of_mem_tail hother)

theorem pieces_of_layout (h : ∀ piece ∈ layout, piece.WellFormed) :
    Pieces (sectionsOf layout) (layout.map Piece.text) := by
  induction layout with
  | nil => exact .nil
  | cons piece layout ih =>
    have hpiece := h piece List.mem_cons_self
    have hrest := ih fun other hother => h other (List.mem_cons_of_mem piece hother)
    cases piece with
    | blank pad => exact .blank hpiece hrest
    | named s entries trail =>
      obtain ⟨hentries, hgaps, htrail⟩ := hpiece
      exact .named (means_label s.label) (body_of_entries hentries hgaps htrail) hrest

/-! ### Semicolons -/

theorem Body.semicolon_not_mem (h : Body commands text) : ';' ∉ text := by
  induction h with
  | blank hpad => exact hpad.not_mem (by decide)
  | command hpad htoken _ _ ih =>
    intro hmem
    rcases List.mem_append.mp hmem with hmem | hmem
    · exact hpad.not_mem (by decide) hmem
    rcases List.mem_append.mp hmem with hmem | hmem
    · rcases htoken.colon_or_plain ';' hmem with hcolon | hplain
      · contradiction
      · exact hplain.2.2 rfl
    · exact ih hmem

theorem Piece.WellFormed.semicolon_not_mem {piece : Piece} (h : piece.WellFormed) :
    ';' ∉ piece.text := by
  cases piece with
  | blank pad => exact Blank.not_mem h (by decide)
  | named s entries trail =>
    obtain ⟨hentries, hgaps, htrail⟩ := h
    have hname : ∀ s ∈ Subroutine.all, ';' ∉ s.label.toList := by decide
    intro hmem
    rcases List.mem_append.mp hmem with hmem | hmem
    · exact hname s s.mem_all hmem
    rcases List.mem_cons.mp hmem with hcolon | hmem
    · contradiction
    · exact (body_of_entries hentries hgaps htrail).semicolon_not_mem hmem

theorem writes_write (h : ∀ piece ∈ layout, piece.WellFormed) :
    Writes (write layout) (sectionsOf layout) := by
  cases layout with
  | nil =>
    -- Nothing at all is one piece, and it is blank.
    refine ⟨[[]], by simp, by simp, rfl, .blank blank_nil .nil⟩
  | cons piece layout =>
    refine ⟨(piece :: layout).map Piece.text, by simp, ?_, by rw [write, String.toList_ofList],
      pieces_of_layout h⟩
    intro text htext
    obtain ⟨other, hother, rfl⟩ := List.mem_map.mp htext
    exact (h other hother).semicolon_not_mem

/-- A text is accepted exactly if it writes sections for different subroutines, and its lines are
then the commands of those sections in order, which go by their canonical labels. What a layout
writes is accepted, whatever blanks it has and whatever its commands, and gives these commands. -/
theorem scripts_are_read_as_written :
    (∀ text lines, parse text = .ok lines ↔
      ∃ sections, Writes text sections ∧ (sections.map Prod.fst).Nodup ∧
        lines = linesOf sections) ∧
    (∀ sections, (linesOf sections).map ScriptLine.action =
      sections.flatMap fun (s, commands) => commands.map fun command =>
        .submit command.operation.label (command.condition.map Color.label) (.slot s)) ∧
    (∀ layout, (∀ piece ∈ layout, piece.WellFormed) → ((sectionsOf layout).map Prod.fst).Nodup →
      parse (write layout) = .ok (linesOf (sectionsOf layout))) := by
  refine ⟨fun text lines => parse_eq_ok_iff, fun sections => ?_, fun layout h hnodup => ?_⟩
  · rw [linesOf, List.map_flatMap]
    refine List.flatMap_congr fun entry _ => ?_
    rw [List.map_map]
    rfl
  · exact parse_eq_ok_iff.mpr ⟨_, writes_write h, hnodup, rfl⟩

/-- A layout with a blank piece, an empty section and blanks of several kinds. -/
def paddedLayout : List Piece :=
  [.blank [' ', '\t'],
    .named .f3 [⟨[], ⟨.move .forward, none⟩⟩, ⟨['\t', ' '], ⟨.call .f2, some .green⟩⟩] ['\n'],
    .named .f1 [] []]

theorem paddedLayout_is_read_back :
    parse " \t;F3:F\t green:2\n;F1:" =
      .ok [⟨.f3, ⟨.move .forward, none⟩⟩, ⟨.f3, ⟨.call .f2, some .green⟩⟩] :=
  scripts_are_read_as_written.2.2 paddedLayout (by decide) (by decide)

end Script

end TileWalk
