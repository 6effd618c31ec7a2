import TileWalk.Proofs.Script.Grammar

/-!
Scripts put together from two. A section is read on its own, but for the subroutines that the
sections before it name (`readSections_append`). So two scripts with a semicolon between them are
read as each of them is, the first one first, unless the second names a subroutine that the first
names too (`two_scripts_are_read_as_one`).
-/

namespace TileWalk

open TileWalk.Text TileWalk.Reading

namespace Script

/-- The subroutine that a section names before its first colon, whatever comes after. -/
def sectionName? (piece : List Char) : Option Subroutine :=
  (cutAt ':' piece).bind fun (name, _) => Subroutine.ofLabel? (String.ofList name)

/-- The subroutines that some sections name, in their order. -/
def sectionNames (pieces : List (List Char)) : List Subroutine := pieces.filterMap sectionName?

/-- The subroutines that the sections of a text name, in their order. -/
def named (text : String) : List Subroutine := sectionNames (text.toList.splitOn ';')

/-- The lines of one section. It may not be for a subroutine in `seen`. -/
def readPiece (seen : List Subroutine) (piece : List Char) : Except Fault (List ScriptLine) :=
  if trimChars piece = [] then .ok []
  else do
    let (subroutine, tokens) ← readSection (trimChars piece)
    if subroutine ∈ seen then throw (.repeated subroutine)
    let commands ← tokens.mapM readToken
    pure (commands.map (ScriptLine.mk subroutine))

variable {piece : List Char} {pieces rest : List (List Char)} {seen seen' : List Subroutine}
  {s : Subroutine} {lines : List ScriptLine}

theorem sectionName?_eq_some_iff :
    sectionName? piece = some s ↔ ∃ name body, piece = name ++ ':' :: body ∧ Means s.label name := by
  simp only [sectionName?, Option.bind_eq_some_iff, Prod.exists, Subroutine.ofLabel?_eq_some_iff,
    String.toList_ofList]
  constructor
  · rintro ⟨name, body, hcut, hname⟩
    exact ⟨name, body, (cutAt_eq_some hcut).1, hname⟩
  · rintro ⟨name, body, rfl, hname⟩
    exact ⟨name, body, cutAt_append (colon_not_mem_of_means hname), hname⟩

/-- A section is for the subroutine that it names. -/
theorem sectionName?_eq_some_iff_readSection :
    sectionName? piece = some s ↔ ∃ tokens, readSection (trimChars piece) = .ok (s, tokens) := by
  simp only [sectionName?_eq_some_iff, readSection_eq_ok_iff]
  constructor
  · rintro ⟨name, body, hpiece, hname⟩
    exact ⟨_, name, body, hpiece, hname, rfl⟩
  · rintro ⟨_, name, body, hpiece, hname, -⟩
    exact ⟨name, body, hpiece, hname⟩

theorem sectionName?_of_blank (h : Blank piece) : sectionName? piece = none := by
  refine Option.eq_none_iff_forall_ne_some.mpr fun s hs => ?_
  obtain ⟨name, body, rfl, -⟩ := sectionName?_eq_some_iff.mp hs
  exact h.not_mem (by decide) (List.mem_append_right name List.mem_cons_self)

/-! ### One section -/

/-- The sections after one are read with what it names among the subroutines seen. -/
theorem readSections_cons :
    readSections seen (piece :: rest) = (do
      let lines ← readPiece seen piece
      let others ← readSections ((sectionName? piece).toList ++ seen) rest
      pure (lines ++ others)) := by
  rw [readSections, readPiece]
  split
  · next h =>
    rw [sectionName?_of_blank (trimChars_eq_nil_iff_blank.mp h)]
    simp [ok_bind]
  · cases hsection : readSection (trimChars piece) with
    | error e => rfl
    | ok read =>
      obtain ⟨s, tokens⟩ := read
      rw [sectionName?_eq_some_iff_readSection.mpr ⟨tokens, hsection⟩]
      by_cases hseen : s ∈ seen
      · simp only [ok_bind, hseen, if_true]
        rfl
      · simp [ok_bind, hseen]

/-- A section that names a subroutine seen before is refused for that, whatever else is in it. -/
theorem readPiece_of_seen (hname : sectionName? piece = some s) (hseen : s ∈ seen) :
    readPiece seen piece = .error (.repeated s) := by
  have hblank : trimChars piece ≠ [] := fun h => by
    rw [sectionName?_of_blank (trimChars_eq_nil_iff_blank.mp h)] at hname
    contradiction
  obtain ⟨tokens, hsection⟩ := sectionName?_eq_some_iff_readSection.mp hname
  rw [readPiece, if_neg hblank, hsection, ok_bind]
  simp only [hseen, if_true]
  rfl

/-- Of the subroutines seen before, a section depends on the one that it names. -/
theorem readPiece_congr (h : ∀ s ∈ sectionName? piece, s ∈ seen ↔ s ∈ seen') :
    readPiece seen piece = readPiece seen' piece := by
  rw [readPiece, readPiece]
  split
  · rfl
  · cases hsection : readSection (trimChars piece) with
    | error e => rfl
    | ok read =>
      obtain ⟨s, tokens⟩ := read
      have hs := h s (sectionName?_eq_some_iff_readSection.mpr ⟨tokens, hsection⟩)
      simp only [ok_bind, hs]

/-! ### Sections in a row -/

theorem sectionNames_cons :
    sectionNames (piece :: rest) = (sectionName? piece).toList ++ sectionNames rest := by
  cases h : sectionName? piece <;> simp [sectionNames, h]

theorem reverse_sectionNames_cons :
    (sectionNames (piece :: rest)).reverse = (sectionNames rest).reverse ++
      (sectionName? piece).toList := by
  rw [sectionNames_cons, List.reverse_append]
  cases sectionName? piece <;> rfl

theorem readSections_append (seen : List Subroutine) (pieces rest : List (List Char)) :
    readSections seen (pieces ++ rest) = (do
      let lines ← readSections seen pieces
      let others ← readSections ((sectionNames pieces).reverse ++ seen) rest
      pure (lines ++ others)) := by
  induction pieces generalizing seen with
  | nil => simp [readSections, sectionNames, ok_bind]
  | cons piece pieces ih =>
    rw [List.cons_append, readSections_cons, readSections_cons, reverse_sectionNames_cons]
    simp only [ih, bind_assoc, pure_bind, List.append_assoc]

/-- Of the subroutines seen before, sections depend on those that they name. -/
theorem readSections_congr (h : ∀ s ∈ sectionNames pieces, s ∈ seen ↔ s ∈ seen') :
    readSections seen pieces = readSections seen' pieces := by
  induction pieces generalizing seen seen' with
  | nil => rfl
  | cons piece pieces ih =>
    simp only [sectionNames_cons, List.mem_append, Option.mem_toList] at h
    have hpiece := readPiece_congr fun s hs => h s (.inl hs)
    have hrest : readSections ((sectionName? piece).toList ++ seen) pieces =
        readSections ((sectionName? piece).toList ++ seen') pieces :=
      ih fun s hs => by rw [List.mem_append, List.mem_append, h s (.inr hs)]
    rw [readSections_cons, readSections_cons, hpiece, hrest]

theorem exists_section_of_sectionNames {before after : List Subroutine}
    (h : sectionNames pieces = before ++ s :: after) :
    ∃ earlier piece later, pieces = earlier ++ piece :: later ∧ sectionNames earlier = before ∧
      sectionName? piece = some s := by
  obtain ⟨earlier, rest, rfl, rfl, hrest⟩ := List.filterMap_eq_append_iff.mp h
  obtain ⟨nameless, piece, later, rfl, hnone, hpiece, -⟩ := List.filterMap_eq_cons_iff.mp hrest
  refine ⟨earlier ++ nameless, piece, later, (List.append_assoc _ _ _).symm, ?_, hpiece⟩
  rw [sectionNames, List.filterMap_append, List.filterMap_eq_nil_iff.mpr hnone, List.append_nil]

/-- Sections that are read well on their own are refused for the first subroutine that they name
after it was seen. -/
theorem readSections_of_seen (hlines : readSections [] pieces = .ok lines)
    {before after : List Subroutine} (hnames : sectionNames pieces = before ++ s :: after)
    (hbefore : ∀ t ∈ before, t ∉ seen) (hseen : s ∈ seen) :
    readSections seen pieces = .error (.repeated s) := by
  obtain ⟨earlier, piece, later, rfl, rfl, hpiece⟩ := exists_section_of_sectionNames hnames
  rw [readSections_append] at hlines
  obtain ⟨read, hread, -⟩ := bind_eq_ok_iff.mp hlines
  have hearlier : readSections seen earlier = .ok read := by
    rw [← hread]
    exact readSections_congr fun t ht => iff_of_false (hbefore t ht) List.not_mem_nil
  rw [readSections_append, hearlier, ok_bind, readSections_cons,
    readPiece_of_seen hpiece (List.mem_append_right _ hseen)]
  rfl

/-! ### Two scripts -/

/-- The second script is read with what the first one names among the subroutines seen. -/
theorem parse_append (a b : String) :
    parse (a ++ ";" ++ b) = (do
      let lines ← parse a
      let others ← readSections (named a).reverse (b.toList.splitOn ';')
      pure (lines ++ others)) := by
  have htext : (a ++ ";" ++ b).toList = a.toList ++ ';' :: b.toList := by simp
  simp only [parse, htext, splitOn_append_cons, readSections_append, List.append_nil]
  rfl

/-- Two scripts with a semicolon between them are read like this. A fault of the first is the fault
of both. If both are read well, so are they together, the lines of the first before those of the
second; but if the second names a subroutine that the first names too, the first such subroutine in
the order of the second is refused as repeated. If the first is read well and the second names
nothing that the first names, a fault of the second is the fault of both. -/
theorem two_scripts_are_read_as_one (a b : String) :
    (∀ e, parse a = .error e → parse (a ++ ";" ++ b) = .error e) ∧
    (∀ la lb, parse a = .ok la → parse b = .ok lb →
      ((∀ s ∈ named b, s ∉ named a) → parse (a ++ ";" ++ b) = .ok (la ++ lb)) ∧
      ((∃ s ∈ named b, s ∈ named a) →
        ∃ before s after, named b = before ++ s :: after ∧ (∀ t ∈ before, t ∉ named a) ∧
          s ∈ named a ∧ parse (a ++ ";" ++ b) = .error (.repeated s))) ∧
    ∀ la e, parse a = .ok la → parse b = .error e → (∀ s ∈ named b, s ∉ named a) →
      parse (a ++ ";" ++ b) = .error e := by
  -- what the first script names plays no part where the second names something else
  have hfresh (h : ∀ s ∈ named b, s ∉ named a) :
      readSections (named a).reverse (b.toList.splitOn ';') = parse b :=
    readSections_congr fun s hs => by simp [h s hs]
  refine ⟨fun e ha => ?_, fun la lb ha hb => ⟨fun h => ?_, fun ⟨s, hsb, hsa⟩ => ?_⟩,
    fun la e ha hb h => ?_⟩
  · rw [parse_append, ha, error_bind]
  · rw [parse_append, ha, ok_bind, hfresh h, hb, ok_bind]
    rfl
  · have hfound : ((named b).find? fun s => s ∈ named a).isSome = true :=
      List.find?_isSome.mpr ⟨s, hsb, by simpa using hsa⟩
    obtain ⟨first, hfirst⟩ := Option.isSome_iff_exists.mp hfound
    obtain ⟨hmem, before, after, hnames, hbefore⟩ := List.find?_eq_some_iff_append.mp hfirst
    have hmem : first ∈ named a := by simpa using hmem
    have hbefore : ∀ t ∈ before, t ∉ named a := by simpa using hbefore
    refine ⟨before, first, after, hnames, hbefore, hmem, ?_⟩
    rw [parse_append, ha, ok_bind, readSections_of_seen hb hnames (by simpa using hbefore)
      (by simpa using hmem), error_bind]
  · rw [parse_append, ha, ok_bind, hfresh h, hb, error_bind]

/-- A section without commands names a subroutine too, and a fault in the second script is found if
nothing is repeated. -/
theorem empty_section_is_repeated :
    (∃ lines, parse "F1: F; F2:" = .ok lines) ∧
      (∃ s ∈ named "F1: F; F2:",
        parse ("F1: F; F2:" ++ ";" ++ " F3: R; f2: L") = .error (.repeated s)) ∧
      parse ("F1: F; F2:" ++ ";" ++ "F3: r:jump") = .error (.operation "r:jump") := by
  have hfirst : parse "F1: F; F2:" = .ok [⟨.f1, .move .forward, none⟩] := by decide +kernel
  obtain ⟨-, hgood, -⟩ := two_scripts_are_read_as_one "F1: F; F2:" " F3: R; f2: L"
  obtain ⟨-, -, hfaulty⟩ := two_scripts_are_read_as_one "F1: F; F2:" "F3: r:jump"
  obtain ⟨before, s, after, -, -, hs, hparse⟩ := (hgood _ _ hfirst
    (show parse " F3: R; f2: L" =
      .ok [⟨.f3, .move (.turn .right), none⟩, ⟨.f2, .move (.turn .left), none⟩] by
        decide +kernel)).2
    ⟨.f2, by decide +kernel, by decide +kernel⟩
  exact ⟨⟨_, hfirst⟩, ⟨s, hs, hparse⟩,
    hfaulty _ _ hfirst (by decide +kernel) (by decide +kernel)⟩

end Script

end TileWalk
