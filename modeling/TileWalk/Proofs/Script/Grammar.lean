import TileWalk.Proofs.Command.Labels
import TileWalk.Proofs.Reading
import TileWalk.Script

/-!
The grammar of scripts. `Script.Writes` says which sections a text writes, character by character
and without any of the functions that read it; reading accepts exactly the texts that write sections
for different subroutines, and gives their commands (`parse_eq_ok_iff`).
-/

namespace TileWalk

open TileWalk.Text TileWalk.Reading

/-- The characters that stand for an operation in a script. -/
def Operation.marks : Operation → List Char
  | .move .forward => ['F', 'f']
  | .move (.turn .left) => ['L', 'l']
  | .move (.turn .right) => ['R', 'r']
  | .call .f1 => ['1']
  | .call .f2 => ['2']
  | .call .f3 => ['3']
  | .unknown => []

/-- The letter that may stand for a color in a script. -/
def Color.initial? : Color → Option Char
  | .grey => none
  | .green => some 'g'
  | .red => some 'r'
  | .blue => some 'b'

namespace Script

/-! ### What a text writes -/

/-- The text names a color, by its initial or by its label in capital or small letters. -/
inductive NamesColor : Color → List Char → Prop
  | initial {color : Color} {letter : Char} (h : color.initial? = some letter) :
      NamesColor color [letter]
  | label {color : Color} {name : List Char}
      (h : name.map Char.toLower = color.label.toList.map Char.toLower) : NamesColor color name

/-- The token writes a command. -/
inductive Token : Command → List Char → Prop
  | plain {operation : Operation} {mark : Char} (hmark : mark ∈ operation.marks) :
      Token ⟨operation, none⟩ [mark]
  | colored {operation : Operation} {mark : Char} {color : Color} {name : List Char}
      (hname : NamesColor color name) (hmark : mark ∈ operation.marks) :
      Token ⟨operation, some color⟩ (name ++ [':', mark])

/-- The text writes commands: their tokens with blanks between them. -/
inductive Body : List Command → List Char → Prop
  | blank {pad : List Char} (hpad : Blank pad) : Body [] pad
  | command {pad token rest : List Char} {command : Command} {commands : List Command}
      (hpad : Blank pad) (htoken : Token command token)
      (hrest : ∀ c ∈ rest.head?, isBlank c = true) (h : Body commands rest) :
      Body (command :: commands) (pad ++ (token ++ rest))

/-- The pieces write sections. A piece is blank, or it is the name of a subroutine, a colon and
commands. -/
inductive Pieces : List (Subroutine × List Command) → List (List Char) → Prop
  | nil : Pieces [] []
  | blank {sections : List (Subroutine × List Command)} {pieces : List (List Char)}
      {pad : List Char} (hpad : Blank pad) (h : Pieces sections pieces) :
      Pieces sections (pad :: pieces)
  | named {sections : List (Subroutine × List Command)} {pieces : List (List Char)}
      {s : Subroutine} {commands : List Command} {name body : List Char}
      (hname : Means s.label name) (hbody : Body commands body) (h : Pieces sections pieces) :
      Pieces ((s, commands) :: sections) ((name ++ ':' :: body) :: pieces)

/-- The text writes sections, in pieces with semicolons between them. -/
def Writes (text : String) (sections : List (Subroutine × List Command)) : Prop :=
  ∃ pieces, pieces ≠ [] ∧ (∀ piece ∈ pieces, ';' ∉ piece) ∧
    [';'].intercalate pieces = text.toList ∧ Pieces sections pieces

/-- The commands of some sections, each with its subroutine. -/
def linesOf (sections : List (Subroutine × List Command)) : List ScriptLine :=
  sections.flatMap fun (s, commands) => commands.map (ScriptLine.mk s)

end Script

namespace Script

variable {token name body text : List Char} {command : Command} {commands : List Command}
  {s : Subroutine} {tokens : List (List Char)}

/-! ### Characters -/

/-- The character may be part of a name or a token: it is no blank and no mark between parts. -/
def Plain (c : Char) : Prop := isBlank c = false ∧ c ≠ ':' ∧ c ≠ ';'

instance (c : Char) : Decidable (Plain c) := inferInstanceAs (Decidable (_ ∧ _))

theorem Plain.of_toLower {c : Char} (h : Plain c.toLower) : Plain c := by
  refine ⟨(isBlank_toLower c).symm.trans h.1, ?_, ?_⟩
  · rintro rfl
    exact h.2.1 rfl
  · rintro rfl
    exact h.2.2 rfl

theorem plain_of_mem_marks {operation : Operation} {mark : Char} (h : mark ∈ operation.marks) :
    Plain mark := by
  have hall : ∀ op ∈ Operation.known, ∀ c ∈ op.marks, Plain c := by decide
  refine hall operation (Operation.mem_known.mpr ?_) mark h
  rintro rfl
  contradiction

theorem NamesColor.plain {color : Color} (h : NamesColor color name) : ∀ c ∈ name, Plain c := by
  intro c hc
  cases h with
  | initial hletter =>
    have hall : ∀ color ∈ Color.all, ∀ c ∈ color.initial?.toList, Plain c := by decide
    rw [List.mem_singleton.mp hc]
    exact hall color color.mem_all _ (Option.mem_toList.mpr hletter)
  | label hletters =>
    have hall : ∀ color ∈ Color.all, ∀ c ∈ color.label.toList.map Char.toLower, Plain c := by
      decide
    refine .of_toLower (hall color color.mem_all c.toLower ?_)
    rw [← hletters]
    exact List.mem_map_of_mem hc

/-! ### Tokens -/

theorem cutAt_append {mark : Char} {before after : List Char} (h : mark ∉ before) :
    cutAt mark (before ++ mark :: after) = some (before, after) := by
  induction before with
  | nil => simp [cutAt]
  | cons c before ih =>
    obtain ⟨hc, hbefore⟩ := not_or.mp (List.mem_cons.not.mp h)
    simp [cutAt, Ne.symm hc, ih hbefore]

theorem operation?_eq_some_iff {operation : Operation} :
    operation? token = some operation ↔ ∃ mark ∈ operation.marks, token = [mark] := by
  constructor
  · intro h
    unfold operation? at h
    split at h
    all_goals first
      | contradiction
      | obtain rfl := Option.some.inj h
        exact ⟨_, by simp [Operation.marks], rfl⟩
  · rintro ⟨mark, hmark, rfl⟩
    have hall : ∀ op ∈ Operation.known, ∀ c ∈ op.marks, operation? [c] = some op := by decide
    refine hall operation (Operation.mem_known.mpr ?_) mark hmark
    rintro rfl
    contradiction

theorem ofLabel?_of_solid {color : Color} (h : Solid name) :
    Color.ofLabel? (String.ofList name) = some color ↔
      name.map Char.toLower = color.label.toList.map Char.toLower := by
  rw [Color.ofLabel?_eq_some_iff, String.toList_ofList,
    means_iff_of_solid color.trimChars_label h]

theorem color?_of_length (h : name.length ≠ 1) :
    color? name = Color.ofLabel? (String.ofList name) := by
  unfold color?
  split <;> first | rfl | exact absurd rfl h

theorem color?_eq_some_iff {color : Color} (h : Solid name) :
    color? name = some color ↔ NamesColor color name := by
  constructor
  · intro hcolor
    unfold color? at hcolor
    split at hcolor
    · exact .initial (Option.some.inj hcolor ▸ rfl)
    · exact .initial (Option.some.inj hcolor ▸ rfl)
    · exact .initial (Option.some.inj hcolor ▸ rfl)
    · exact .label ((ofLabel?_of_solid h).mp hcolor)
  · intro hcolor
    cases hcolor with
    | initial hletter =>
      have hall : ∀ color ∈ Color.all, ∀ c ∈ color.initial?.toList, color? [c] = some color := by
        decide
      exact hall color color.mem_all _ (Option.mem_toList.mpr hletter)
    | label hletters =>
      have hlong : ∀ color ∈ Color.all, color.label.toList.length ≠ 1 := by decide
      have hlength := congrArg List.length hletters
      rw [List.length_map, List.length_map] at hlength
      rw [color?_of_length (hlength ▸ hlong color color.mem_all)]
      exact (ofLabel?_of_solid h).mpr hletters

theorem Token.colon_or_plain (h : Token command token) : ∀ c ∈ token, c = ':' ∨ Plain c := by
  intro c hc
  cases h with
  | plain hmark =>
    rw [List.mem_singleton.mp hc]
    exact .inr (plain_of_mem_marks hmark)
  | colored hname hmark =>
    rcases List.mem_append.mp hc with hc | hc
    · exact .inr (hname.plain c hc)
    · rcases List.mem_pair.mp hc with rfl | rfl
      · exact .inl rfl
      · exact .inr (plain_of_mem_marks hmark)

theorem Token.solid (h : Token command token) : Solid token := by
  intro c hc
  rcases h.colon_or_plain c hc with rfl | hplain
  · decide
  · exact hplain.1

theorem Token.ne_nil (h : Token command token) : token ≠ [] := by
  cases h <;> simp

theorem token_of_readToken (hsolid : Solid token) (h : readToken token = .ok command) :
    Token command token := by
  unfold readToken at h
  cases hcut : cutAt ':' token with
  | none =>
    simp only [hcut, readColor] at h
    split at h
    · next operation hoperation =>
      obtain rfl := Except.ok.inj h
      obtain ⟨mark, hmark, rfl⟩ := operation?_eq_some_iff.mp hoperation
      exact .plain hmark
    · contradiction
  | some parts =>
    obtain ⟨name, letter⟩ := parts
    obtain ⟨rfl, -⟩ := cutAt_eq_some hcut
    have hname : Solid name := fun c hc => hsolid c (List.mem_append_left _ hc)
    simp only [hcut, readColor] at h
    cases hcolor : color? name with
    | none =>
      rw [hcolor] at h
      contradiction
    | some color =>
      rw [hcolor] at h
      dsimp only at h
      split at h
      · next operation hoperation =>
        obtain rfl := Except.ok.inj h
        obtain ⟨mark, hmark, rfl⟩ := operation?_eq_some_iff.mp hoperation
        exact .colored ((color?_eq_some_iff hname).mp hcolor) hmark
      · contradiction

theorem readToken_of_token (h : Token command token) : readToken token = .ok command := by
  cases h with
  | @plain operation mark hmark =>
    have hcut : cutAt ':' [mark] = none := by
      rw [cutAt_eq_none_iff, List.mem_singleton]
      exact (plain_of_mem_marks hmark).2.1.symm
    simp only [readToken, hcut, readColor, operation?_eq_some_iff.mpr ⟨mark, hmark, rfl⟩]
  | @colored operation mark color name hname hmark =>
    have hcut : cutAt ':' (name ++ [':', mark]) = some (name, [mark]) :=
      cutAt_append fun hcolon => (hname.plain ':' hcolon).2.1 rfl
    have hcolor := (color?_eq_some_iff fun c hc => (hname.plain c hc).1).mpr hname
    simp only [readToken, hcut, readColor, hcolor,
      operation?_eq_some_iff.mpr ⟨mark, hmark, rfl⟩]

/-! ### Commands -/

/-- The words of a body are read as the commands that it writes, and those of no other text are. -/
theorem mapM_words_eq_ok_iff :
    (words body).mapM readToken = .ok commands ↔ Body commands body := by
  constructor
  · intro h
    -- What follows the first word is shorter, so the induction is on the length.
    induction hn : body.length using Nat.strongRecOn generalizing body commands with
    | _ n ih =>
      rcases blank_or_word body with hblank | ⟨pad, word, rest, rfl, hpad, hne, hword, hrest⟩
      · rw [words_of_blank hblank] at h
        obtain rfl := Except.ok.inj h
        exact .blank hblank
      · rw [words_append_left hpad, words_append hne hword hrest, mapM_cons_eq_ok_iff] at h
        obtain ⟨command, others, hread, hothers, rfl⟩ := h
        have hshort : rest.length < n := by
          have := List.length_pos_iff.mpr hne
          rw [← hn, List.length_append, List.length_append]
          omega
        exact .command hpad (token_of_readToken hword hread) hrest
          (ih rest.length hshort hothers rfl)
  · intro h
    induction h with
    | blank hpad => rw [words_of_blank hpad]; rfl
    | command hpad htoken hrest _ ih =>
      rw [words_append_left hpad, words_append htoken.ne_nil htoken.solid hrest,
        mapM_cons_eq_ok_iff]
      exact ⟨_, _, readToken_of_token htoken, ih, rfl⟩

/-! ### Sections -/

variable {piece : List Char} {pieces : List (List Char)} {seen : List Subroutine}
  {lines : List ScriptLine} {sections : List (Subroutine × List Command)}

theorem cutAt_trimChars {mark : Char} (hmark : isBlank mark = false) (cs : List Char) :
    cutAt mark (trimChars cs) =
      (cutAt mark cs).map fun (before, after) => (trimLeft before, trimRight after) := by
  cases hcut : cutAt mark cs with
  | none =>
    rw [cutAt_eq_none_iff] at hcut
    exact cutAt_eq_none_iff.mpr fun hmem => hcut ((trimChars_sublist cs).subset hmem)
  | some parts =>
    obtain ⟨before, after⟩ := parts
    obtain ⟨rfl, hbefore⟩ := cutAt_eq_some hcut
    rw [trimChars, trimLeft_append_cons hmark, trimRight_append_cons hmark]
    exact cutAt_append fun hmem => hbefore ((List.dropWhile_sublist _).subset hmem)

theorem ofLabel?_trimLeft (name : List Char) :
    Subroutine.ofLabel? (String.ofList (trimLeft name)) = some s ↔ Means s.label name := by
  obtain ⟨pad, hpad, hname⟩ := exists_trimLeft name
  rw [Subroutine.ofLabel?_eq_some_iff, String.toList_ofList, means_iff s.trimChars_label,
    means_iff s.trimChars_label]
  conv_rhs => rw [hname, trimChars_append_left hpad]

theorem words_trimRight (cs : List Char) : words (trimRight cs) = words cs := by
  obtain ⟨pad, hpad, hcs⟩ := exists_trimRight cs
  conv_rhs => rw [hcs, words_append_right hpad]

theorem colon_not_mem_of_means (h : Means s.label name) : ':' ∉ name := by
  have hall : ∀ s ∈ Subroutine.all, ':' ∉ s.label.toList.map Char.toLower := by decide
  exact h.not_mem (by decide) (hall s s.mem_all)

/-- A section is a name, a colon and a body, with the colon at its first place. -/
theorem readSection_eq_ok_iff :
    readSection (trimChars piece) = .ok (s, tokens) ↔
      ∃ name body, piece = name ++ ':' :: body ∧ Means s.label name ∧ words body = tokens := by
  rw [readSection, cutAt_trimChars (by decide)]
  constructor
  · intro h
    cases hcut : cutAt ':' piece with
    | none =>
      rw [hcut] at h
      contradiction
    | some parts =>
      obtain ⟨name, body⟩ := parts
      rw [hcut, Option.map_some] at h
      dsimp only at h
      split at h
      · next found hfound =>
        rw [Except.ok.injEq, Prod.mk.injEq, words_trimRight] at h
        obtain ⟨rfl, rfl⟩ := h
        exact ⟨name, body, (cutAt_eq_some hcut).1, (ofLabel?_trimLeft name).mp hfound, rfl⟩
      · contradiction
  · rintro ⟨name, body, rfl, hname, rfl⟩
    rw [cutAt_append (colon_not_mem_of_means hname), Option.map_some]
    dsimp only
    rw [(ofLabel?_trimLeft name).mpr hname, words_trimRight]

theorem readSections_cons_of_blank {rest : List (List Char)} (h : Blank piece) :
    readSections seen (piece :: rest) = readSections seen rest := by
  rw [readSections, if_pos (trimChars_eq_nil_iff_blank.mpr h)]

theorem readSections_cons_of_not_blank {rest : List (List Char)} (h : ¬Blank piece) :
    readSections seen (piece :: rest) = .ok lines ↔
      ∃ s commands others, (∃ name body, piece = name ++ ':' :: body ∧ Means s.label name ∧
        Body commands body) ∧ s ∉ seen ∧ readSections (s :: seen) rest = .ok others ∧
        lines = commands.map (ScriptLine.mk s) ++ others := by
  rw [readSections, if_neg (trimChars_eq_nil_iff_blank.not.mpr h)]
  constructor
  · intro hlines
    obtain ⟨⟨s, tokens⟩, hsection, hlines⟩ := bind_eq_ok_iff.mp hlines
    obtain ⟨name, body, hpiece, hname, rfl⟩ := readSection_eq_ok_iff.mp hsection
    dsimp only at hlines
    by_cases hseen : s ∈ seen
    · rw [if_pos hseen] at hlines
      contradiction
    · rw [if_neg hseen] at hlines
      obtain ⟨commands, hcommands, hlines⟩ := bind_eq_ok_iff.mp hlines
      obtain ⟨others, hothers, hlines⟩ := bind_eq_ok_iff.mp hlines
      exact ⟨s, commands, others, ⟨name, body, hpiece, hname, mapM_words_eq_ok_iff.mp hcommands⟩,
        hseen, hothers, (Except.ok.inj hlines).symm⟩
  · rintro ⟨s, commands, others, ⟨name, body, hpiece, hname, hbody⟩, hseen, hothers, rfl⟩
    refine bind_eq_ok_iff.mpr ⟨(s, words body), readSection_eq_ok_iff.mpr
      ⟨name, body, hpiece, hname, rfl⟩, ?_⟩
    dsimp only
    rw [if_neg hseen]
    exact bind_eq_ok_iff.mpr ⟨commands, mapM_words_eq_ok_iff.mpr hbody,
      bind_eq_ok_iff.mpr ⟨others, hothers, rfl⟩⟩

/-! ### Scripts -/

theorem Pieces.of_blank {rest : List (List Char)} (hpiece : Blank piece) :
    Pieces sections (piece :: rest) ↔ Pieces sections rest := by
  constructor
  · intro h
    cases h with
    | blank _ h => exact h
    | @named _ _ _ _ name body =>
      have hcolon : ':' ∈ name ++ ':' :: body := List.mem_append_right name List.mem_cons_self
      exact absurd hcolon (hpiece.not_mem (by decide))
  · exact .blank hpiece

theorem Pieces.of_not_blank {rest : List (List Char)} (hpiece : ¬Blank piece) :
    Pieces sections (piece :: rest) ↔
      ∃ s commands others, (∃ name body, piece = name ++ ':' :: body ∧ Means s.label name ∧
        Body commands body) ∧ Pieces others rest ∧ sections = (s, commands) :: others := by
  constructor
  · intro h
    cases h with
    | blank hpad => exact absurd hpad hpiece
    | named hname hbody h => exact ⟨_, _, _, ⟨_, _, rfl, hname, hbody⟩, h, rfl⟩
  · rintro ⟨s, commands, others, ⟨name, body, rfl, hname, hbody⟩, h, rfl⟩
    exact .named hname hbody h

theorem linesOf_cons {commands : List Command} :
    linesOf ((s, commands) :: sections) = commands.map (ScriptLine.mk s) ++ linesOf sections :=
  List.flatMap_cons

theorem readSections_eq_ok_iff :
    readSections seen pieces = .ok lines ↔
      ∃ sections, Pieces sections pieces ∧ (sections.map Prod.fst).Nodup ∧
        (∀ s ∈ sections.map Prod.fst, s ∉ seen) ∧ lines = linesOf sections := by
  induction pieces generalizing seen lines with
  | nil =>
    constructor
    · intro h
      obtain rfl := Except.ok.inj h
      exact ⟨[], .nil, List.nodup_nil, fun _ h => absurd h List.not_mem_nil, rfl⟩
    · rintro ⟨sections, h, -, -, rfl⟩
      cases h
      rfl
  | cons piece rest ih =>
    by_cases hpiece : Blank piece
    · simp only [readSections_cons_of_blank hpiece, Pieces.of_blank hpiece, ih]
    · rw [readSections_cons_of_not_blank hpiece]
      constructor
      · rintro ⟨s, commands, lines, hsection, hseen, hlines, rfl⟩
        obtain ⟨others, hothers, hnodup, hfresh, rfl⟩ := ih.mp hlines
        have hs : s ∉ others.map Prod.fst := fun hmem => hfresh s hmem List.mem_cons_self
        refine ⟨(s, commands) :: others, (Pieces.of_not_blank hpiece).mpr
          ⟨s, commands, others, hsection, hothers, rfl⟩, List.nodup_cons.mpr ⟨hs, hnodup⟩, ?_,
          linesOf_cons.symm⟩
        intro other hother
        rcases List.mem_cons.mp hother with rfl | hother
        · exact hseen
        · exact fun hmem => hfresh other hother (List.mem_cons_of_mem _ hmem)
      · rintro ⟨sections, hpieces, hnodup, hfresh, rfl⟩
        obtain ⟨s, commands, others, hsection, hothers, rfl⟩ :=
          (Pieces.of_not_blank hpiece).mp hpieces
        obtain ⟨hs, hnodup⟩ := List.nodup_cons.mp hnodup
        refine ⟨s, commands, linesOf others, hsection, hfresh s List.mem_cons_self,
          ih.mpr ⟨others, hothers, hnodup, fun other hother hmem => ?_, rfl⟩, linesOf_cons⟩
        rcases List.mem_cons.mp hmem with rfl | hmem
        · exact hs hother
        · exact hfresh other (List.mem_cons_of_mem _ hother) hmem

/-- A text is accepted exactly if it writes sections for different subroutines, and then its lines
are their commands. -/
theorem parse_eq_ok_iff {text : String} :
    parse text = .ok lines ↔
      ∃ sections, Writes text sections ∧ (sections.map Prod.fst).Nodup ∧
        lines = linesOf sections := by
  rw [parse, readSections_eq_ok_iff]
  constructor
  · rintro ⟨sections, h, hnodup, -, hlines⟩
    obtain ⟨hne, hmark, htext⟩ := splitOn_eq_iff.mp (Eq.refl (text.toList.splitOn ';'))
    exact ⟨sections, ⟨_, hne, hmark, htext, h⟩, hnodup, hlines⟩
  · rintro ⟨sections, ⟨pieces, hne, hmark, htext, h⟩, hnodup, hlines⟩
    rw [splitOn_eq_iff.mpr ⟨hne, hmark, htext⟩]
    exact ⟨sections, h, hnodup, fun _ _ => List.not_mem_nil, hlines⟩

end Script

end TileWalk
