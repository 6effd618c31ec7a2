import Mathlib.Data.List.Nodup
import TileWalk.Text.Label

/-!
Blanks around texts and between words. Trimming takes blanks off the two ends and nothing else,
words are what stands between blanks, and a typed name means a label if it is that label in capital
or small letters between blanks (`named?_eq_some_iff`).
-/

namespace TileWalk.Text

def Blank (cs : List Char) : Prop := ∀ c ∈ cs, isBlank c = true

def Solid (cs : List Char) : Prop := ∀ c ∈ cs, isBlank c = false

/-- Looks at the characters of the text, and not at all that there are. -/
instance decidableForallMem {p : Char → Prop} [DecidablePred p] (cs : List Char) :
    Decidable (∀ c ∈ cs, p c) :=
  List.decidableBAll p cs

instance (cs : List Char) : Decidable (Blank cs) := inferInstanceAs (Decidable (∀ c ∈ cs, _))

variable {cs pad word rest before after : List Char} {c : Char}

theorem blank_nil : Blank [] := fun _ h => absurd h List.not_mem_nil

theorem Blank.append (hb : Blank before) (ha : Blank after) : Blank (before ++ after) := by
  intro c hc
  rcases List.mem_append.mp hc with hc | hc
  · exact hb c hc
  · exact ha c hc

theorem Blank.not_mem (h : Blank cs) (hc : isBlank c = false) : c ∉ cs := by
  intro hmem
  rw [h c hmem] at hc
  contradiction

theorem trimChars_eq_nil_iff_blank : trimChars cs = [] ↔ Blank cs := trimChars_eq_nil_iff

/-! ### Trimming -/

theorem trimLeft_append_cons (hc : isBlank c = false) :
    trimLeft (before ++ c :: after) = trimLeft before ++ c :: after := by
  unfold trimLeft
  rw [List.dropWhile_append]
  split
  · next h =>
    rw [List.isEmpty_iff.mp h, List.dropWhile_cons_of_neg (by simp [hc]), List.nil_append]
  · rfl

theorem trimRight_append_cons (hc : isBlank c = false) :
    trimRight (before ++ c :: after) = before ++ c :: trimRight after := by
  have h : trimLeft (after.reverse ++ c :: before.reverse) =
      trimLeft after.reverse ++ c :: before.reverse := trimLeft_append_cons hc
  unfold trimLeft at h
  unfold trimRight
  rw [List.reverse_append, List.reverse_cons, List.append_assoc, List.singleton_append, h]
  simp

theorem exists_trimLeft (cs : List Char) : ∃ pad, Blank pad ∧ cs = pad ++ trimLeft cs :=
  ⟨cs.takeWhile isBlank, List.all_eq_true.mp List.all_takeWhile,
    List.takeWhile_append_dropWhile.symm⟩

theorem exists_trimRight (cs : List Char) : ∃ pad, Blank pad ∧ cs = trimRight cs ++ pad := by
  obtain ⟨pad, hpad, hcs⟩ := exists_trimLeft cs.reverse
  refine ⟨pad.reverse, fun c hc => hpad c (List.mem_reverse.mp hc), ?_⟩
  rw [trimRight, ← List.reverse_append]
  exact List.reverse_eq_iff.mp hcs

/-- A text is what trimming leaves of it, between blanks. -/
theorem exists_trimChars (cs : List Char) :
    ∃ before after, Blank before ∧ Blank after ∧ cs = before ++ trimChars cs ++ after := by
  obtain ⟨before, hbefore, hleft⟩ := exists_trimLeft cs
  obtain ⟨after, hafter, hright⟩ := exists_trimRight (trimLeft cs)
  refine ⟨before, after, hbefore, hafter, ?_⟩
  rw [List.append_assoc, trimChars, ← hright, ← hleft]

theorem trimChars_append_left (hpad : Blank pad) : trimChars (pad ++ cs) = trimChars cs := by
  have hnone : pad.dropWhile isBlank = [] := dropWhile_isBlank_eq_nil_iff.mpr hpad
  unfold trimChars trimLeft
  rw [List.dropWhile_append, hnone]
  rfl

theorem trimChars_append_right (hpad : Blank pad) : trimChars (cs ++ pad) = trimChars cs := by
  by_cases hcs : Blank cs
  · rw [trimChars_eq_nil_iff_blank.mpr hcs, trimChars_eq_nil_iff_blank]
    exact hcs.append hpad
  · have hsome : ¬(cs.dropWhile isBlank).isEmpty = true := by
      rw [List.isEmpty_iff, dropWhile_isBlank_eq_nil_iff]
      exact hcs
    have hnone : pad.reverse.dropWhile isBlank = [] :=
      dropWhile_isBlank_eq_nil_iff.mpr fun c hc => hpad c (List.mem_reverse.mp hc)
    unfold trimChars trimLeft trimRight
    rw [List.dropWhile_append, if_neg hsome, List.reverse_append, List.dropWhile_append, hnone]
    rfl

theorem trimChars_trimChars (cs : List Char) : trimChars (trimChars cs) = trimChars cs := by
  obtain ⟨before, after, hbefore, hafter, hcs⟩ := exists_trimChars cs
  conv_rhs => rw [hcs, trimChars_append_right hafter, trimChars_append_left hbefore]

theorem trim_eq_empty_iff {text : String} : trim text = "" ↔ Blank text.toList := by
  rw [← trimChars_eq_nil_iff_blank, ← String.toList_inj, toList_trim]
  rfl

theorem trimChars_sublist (cs : List Char) : (trimChars cs).Sublist cs := by
  obtain ⟨before, after, -, -, hcs⟩ := exists_trimChars cs
  conv_rhs => rw [hcs]
  exact (List.sublist_append_right _ _).trans (List.sublist_append_left _ _)

theorem trimChars_of_solid (h : Solid cs) : trimChars cs = cs := by
  obtain ⟨before, after, hbefore, hafter, hcs⟩ := exists_trimChars cs
  have hnone : ∀ pad, Blank pad → (∀ c ∈ pad, c ∈ cs) → pad = [] := by
    intro pad hpad hsub
    exact List.eq_nil_iff_forall_not_mem.mpr fun c hc => hpad.not_mem (h c (hsub c hc)) hc
  have hb := hnone before hbefore fun c hc => by rw [hcs]; simp [hc]
  have ha := hnone after hafter fun c hc => by rw [hcs]; simp [hc]
  rw [hb, ha, List.nil_append, List.append_nil] at hcs
  exact hcs.symm

/-! ### Words -/

/-- The pieces between marks are those that give the text back with marks between them. -/
theorem splitOn_eq_iff {mark : Char} {pieces : List (List Char)} :
    cs.splitOn mark = pieces ↔
      pieces ≠ [] ∧ (∀ piece ∈ pieces, mark ∉ piece) ∧ [mark].intercalate pieces = cs := by
  constructor
  · rintro rfl
    refine ⟨List.splitOn_ne_nil _ _, fun piece hpiece hmark => ?_, List.intercalate_splitOn _⟩
    have hnone := eq_false_of_mem_splitOnP hpiece mark hmark
    simp at hnone
  · rintro ⟨hne, hpieces, rfl⟩
    exact List.splitOn_intercalate mark hpieces hne

theorem splitOn_append_cons (mark : Char) (a b : List Char) :
    (a ++ mark :: b).splitOn mark = a.splitOn mark ++ b.splitOn mark := by
  simp only [List.splitOn_eq_splitOnP]
  exact List.splitOnP_append_cons _ _ (beq_self_eq_true mark)

theorem words_append_cons (hc : isBlank c = true) :
    words (before ++ c :: after) = words before ++ words after := by
  unfold words
  rw [List.splitOnP_append_cons _ _ hc, List.filter_append]

theorem words_cons (hc : isBlank c = true) : words (c :: cs) = words cs := by
  have h : words ([] ++ c :: cs) = words [] ++ words cs := words_append_cons hc
  simpa [words] using h

theorem words_append_left (hpad : Blank pad) : words (pad ++ cs) = words cs := by
  induction pad with
  | nil => rfl
  | cons c pad ih =>
    rw [List.cons_append, words_cons (hpad c List.mem_cons_self)]
    exact ih fun d hd => hpad d (List.mem_cons_of_mem _ hd)

theorem words_of_blank (hpad : Blank pad) : words pad = [] := by
  have h : words (pad ++ []) = words [] := words_append_left hpad
  rw [List.append_nil] at h
  exact h

theorem words_append_right (hpad : Blank pad) : words (cs ++ pad) = words cs := by
  cases pad with
  | nil => rw [List.append_nil]
  | cons c pad =>
    rw [words_append_cons (hpad c List.mem_cons_self),
      words_of_blank fun d hd => hpad d (List.mem_cons_of_mem _ hd), List.append_nil]

theorem words_of_solid (hne : word ≠ []) (h : Solid word) : words word = [word] := by
  rw [words, List.splitOnP_eq_singleton h]
  simp [hne]

/-- A word comes to its end at a blank or where the text ends. -/
theorem words_append (hne : word ≠ []) (h : Solid word)
    (hrest : ∀ c ∈ rest.head?, isBlank c = true) : words (word ++ rest) = word :: words rest := by
  cases rest with
  | nil => rw [List.append_nil, words_of_solid hne h]; rfl
  | cons c rest =>
    have hc : isBlank c = true := hrest c rfl
    rw [words_append_cons hc, words_cons hc, words_of_solid hne h]
    rfl

/-- A text is blank, or there is a first word in it. -/
theorem blank_or_word (cs : List Char) :
    Blank cs ∨ ∃ pad word rest, cs = pad ++ (word ++ rest) ∧ Blank pad ∧ word ≠ [] ∧
      Solid word ∧ ∀ c ∈ rest.head?, isBlank c = true := by
  obtain ⟨pad, hpad, hcs⟩ := exists_trimLeft cs
  have hhead := List.head?_dropWhile_not isBlank cs
  rw [show cs.dropWhile isBlank = trimLeft cs from rfl] at hhead
  generalize trimLeft cs = left at hcs hhead
  cases left with
  | nil =>
    rw [List.append_nil] at hcs
    exact .inl (hcs ▸ hpad)
  | cons first others =>
    have hfirst : isBlank first = false := hhead
    let solid := fun c => !isBlank c
    refine .inr ⟨pad, (first :: others).takeWhile solid, (first :: others).dropWhile solid, ?_,
      hpad, ?_, fun c hc => ?_, fun c hc => ?_⟩
    · rw [List.takeWhile_append_dropWhile]
      exact hcs
    · simp [solid, hfirst]
    · simpa [solid] using List.all_eq_true.mp List.all_takeWhile c hc
    · have hend := List.head?_dropWhile_not solid (first :: others)
      rw [Option.mem_def.mp hc] at hend
      simpa [solid] using hend

/-! ### Capital and small letters -/

/-- The blanks of the first half of the table are controls and the space. -/
theorem isBlank_eq_false (h : 0x20 < c.toNat) (h' : c.toNat < 0x85) : isBlank c = false := by
  simp [isBlank, blankRanges]
  omega

theorem isBlank_toLower (c : Char) : isBlank c.toLower = isBlank c := by
  unfold Char.toLower
  split
  · next h =>
    have hlow : 65 ≤ c.toNat := h.1
    have hhigh : c.toNat ≤ 90 := h.2
    have hnat : (c.val + ('a'.val - 'A'.val)).toNat = c.toNat + 32 := by
      rw [UInt32.toNat_add]
      show (c.toNat + 32) % 2 ^ 32 = _
      omega
    rw [isBlank_eq_false (c := c) (by omega) (by omega)]
    refine isBlank_eq_false ?_ ?_
    · show 0x20 < (c.val + ('a'.val - 'A'.val)).toNat
      omega
    · show (c.val + ('a'.val - 'A'.val)).toNat < 0x85
      omega
  · rfl

theorem trimChars_map_toLower (cs : List Char) :
    trimChars (cs.map Char.toLower) = (trimChars cs).map Char.toLower := by
  have hblank : isBlank ∘ Char.toLower = isBlank := funext isBlank_toLower
  unfold trimChars trimLeft trimRight
  rw [List.dropWhile_map, hblank, ← List.map_reverse, List.dropWhile_map, hblank, List.map_reverse]

/-- A text with the letters of one that has no blanks at its ends has none either. -/
theorem trimChars_eq_self_of_sameLetters {typed : List Char} (h : sameLetters cs typed = true)
    (hcs : trimChars cs = cs) : trimChars typed = typed := by
  have hletters := sameLetters_iff.mp h
  have hmap : (trimChars typed).map Char.toLower = typed.map Char.toLower := by
    rw [← trimChars_map_toLower, ← hletters, trimChars_map_toLower, hcs]
  have hlength := congrArg List.length hmap
  rw [List.length_map, List.length_map] at hlength
  exact (trimChars_sublist typed).eq_of_length hlength

/-! ### Typed names -/

/-- The text is `label` in capital or small letters, between blanks. -/
def Means (label : String) (cs : List Char) : Prop :=
  ∃ before typed after, cs = before ++ typed ++ after ∧ Blank before ∧ Blank after ∧
    typed.map Char.toLower = label.toList.map Char.toLower

theorem means_label (label : String) : Means label label.toList :=
  ⟨[], label.toList, [], by simp, blank_nil, blank_nil, rfl⟩

theorem means_iff {label : String} (hlabel : trimChars label.toList = label.toList) :
    Means label cs ↔ sameLetters label.toList (trimChars cs) = true := by
  constructor
  · rintro ⟨before, typed, after, rfl, hbefore, hafter, hletters⟩
    have hsame : sameLetters label.toList typed = true := sameLetters_iff.mpr hletters.symm
    rw [trimChars_append_right hafter, trimChars_append_left hbefore,
      trimChars_eq_self_of_sameLetters hsame hlabel]
    exact hsame
  · intro h
    obtain ⟨before, after, hbefore, hafter, hcs⟩ := exists_trimChars cs
    exact ⟨before, trimChars cs, after, hcs, hbefore, hafter, (sameLetters_iff.mp h).symm⟩

theorem means_iff_of_solid {label : String} (hlabel : trimChars label.toList = label.toList)
    (h : Solid cs) : Means label cs ↔ cs.map Char.toLower = label.toList.map Char.toLower := by
  rw [means_iff hlabel, trimChars_of_solid h, sameLetters_iff, eq_comm]

/-- The two texts differ at most in the blanks around them and in capital and small letters. -/
def Respelled (a b : List Char) : Prop :=
  ∃ before core after before' core' after',
    a = before ++ core ++ after ∧ Blank before ∧ Blank after ∧
      b = before' ++ core' ++ after' ∧ Blank before' ∧ Blank after' ∧
        core.map Char.toLower = core'.map Char.toLower

theorem Respelled.trimmed {a b : List Char} (h : Respelled a b) :
    (trimChars a).map Char.toLower = (trimChars b).map Char.toLower := by
  obtain ⟨before, core, after, before', core', after', rfl, hb, ha, rfl, hb', ha', hcore⟩ := h
  rw [trimChars_append_right ha, trimChars_append_left hb, trimChars_append_right ha',
    trimChars_append_left hb', ← trimChars_map_toLower, ← trimChars_map_toLower, hcore]

theorem Respelled.blank_iff {a b : List Char} (h : Respelled a b) : Blank a ↔ Blank b := by
  rw [← trimChars_eq_nil_iff_blank, ← trimChars_eq_nil_iff_blank, ← List.map_eq_nil_iff,
    h.trimmed, List.map_eq_nil_iff]

/-- A text means what it means in every spelling. -/
theorem Respelled.means_iff {a b : List Char} {label : String} (h : Respelled a b)
    (hlabel : trimChars label.toList = label.toList) : Means label a ↔ Means label b := by
  rw [Text.means_iff hlabel, Text.means_iff hlabel, sameLetters_iff, sameLetters_iff, h.trimmed]

/-- What is neither blank nor a letter of the label is not in a text that means it. -/
theorem Means.not_mem {label : String} (h : Means label cs) (hc : isBlank c = false)
    (hlabel : c.toLower ∉ label.toList.map Char.toLower) : c ∉ cs := by
  obtain ⟨before, typed, after, rfl, hbefore, hafter, hletters⟩ := h
  intro hmem
  simp only [List.mem_append] at hmem
  rcases hmem with (hmem | hmem) | hmem
  · exact hbefore.not_mem hc hmem
  · rw [← hletters] at hlabel
    exact hlabel (List.mem_map_of_mem hmem)
  · exact hafter.not_mem hc hmem

/-- Where labels differ in more than capitals, a name stands for the value whose label it means. -/
theorem named?_eq_some_iff {α : Type} {label : α → String} {values : List α} {name : String}
    {value : α} (hlabels : ∀ v ∈ values, trimChars (label v).toList = (label v).toList)
    (hdistinct : (values.map fun v => (label v).toList.map Char.toLower).Nodup) :
    named? label values name = some value ↔ value ∈ values ∧ Means (label value) name.toList := by
  constructor
  · intro h
    have hmem : value ∈ values := List.mem_of_find?_eq_some h
    exact ⟨hmem, (means_iff (hlabels value hmem)).mpr (named?_eq_some_label h)⟩
  · rintro ⟨hmem, hmeans⟩
    have hsame := (means_iff (hlabels value hmem)).mp hmeans
    cases hnamed : named? label values name with
    | none =>
      rw [named?_eq_none_iff.mp hnamed value hmem] at hsame
      contradiction
    | some found =>
      have hfound := named?_eq_some_label hnamed
      have hletters := (sameLetters_iff.mp hfound).trans (sameLetters_iff.mp hsame).symm
      have heq :=
        List.inj_on_of_nodup_map hdistinct (List.mem_of_find?_eq_some hnamed) hmem hletters
      rw [heq]

end TileWalk.Text
