import TileWalk.Command
import TileWalk.Proofs.Reading
import TileWalk.Proofs.Text.Padding

/-!
What the labels of commands say. `Command.Says` tells which command a pair of labels says, by the
labels that the texts mean and without any of the functions that read them, and reading finds just
that (`ofLabels_eq_ok_iff`). So labels are read up to the blanks around them and the case of their
letters, and nothing else (`labels_are_read_up_to_padding_and_case`).
-/

namespace TileWalk

open TileWalk.Text

/-! ### Names -/

theorem Subroutine.trimChars_label (s : Subroutine) :
    trimChars s.label.toList = s.label.toList := by cases s <;> decide

theorem Color.trimChars_label (color : Color) :
    trimChars color.label.toList = color.label.toList := by cases color <;> decide

theorem Operation.trimChars_label (operation : Operation) :
    trimChars operation.label.toList = operation.label.toList := by
  have hall : ∀ op ∈ unknown :: known, trimChars op.label.toList = op.label.toList := by decide
  refine hall operation ?_
  by_cases hunknown : operation = unknown
  · exact List.mem_cons.mpr (.inl hunknown)
  · exact List.mem_cons_of_mem _ (mem_known.mpr hunknown)

theorem Subroutine.ofLabel?_eq_some_iff {name : String} {s : Subroutine} :
    ofLabel? name = some s ↔ Means s.label name.toList := by
  refine (named?_eq_some_iff (fun value _ => value.trimChars_label) ?_).trans ?_
  · decide
  · simp [mem_all]

theorem Color.ofLabel?_eq_some_iff {name : String} {color : Color} :
    ofLabel? name = some color ↔ Means color.label name.toList := by
  refine (named?_eq_some_iff (fun value _ => value.trimChars_label) ?_).trans ?_
  · decide
  · simp [mem_all]

theorem Operation.named?_eq_some_iff {text : String} {operation : Operation} :
    named? label known text = some operation ↔
      operation ≠ unknown ∧ Means operation.label text.toList := by
  rw [Text.named?_eq_some_iff (fun value _ => value.trimChars_label) (by decide), mem_known]

theorem Operation.ofLabel_eq_iff {text : String} {operation : Operation}
    (hknown : operation ≠ unknown) :
    ofLabel text = operation ↔ Means operation.label text.toList := by
  rw [ofLabel]
  cases hnamed : named? label known text with
  | none =>
    refine ⟨fun h => absurd h.symm hknown, fun hmeans => ?_⟩
    rw [named?_eq_some_iff.mpr ⟨hknown, hmeans⟩] at hnamed
    contradiction
  | some found =>
    rw [Option.getD_some]
    refine ⟨fun h => h ▸ (named?_eq_some_iff.mp hnamed).2, fun hmeans => ?_⟩
    rw [named?_eq_some_iff.mpr ⟨hknown, hmeans⟩] at hnamed
    exact (Option.some.inj hnamed).symm

/-! ### Commands -/

namespace Command

variable {kind kind' : String} {condition condition' : Option String} {command : Command}

/-- What a text says that names an operation: the operation whose label it means, or the unknown one
if it means no label of another. -/
inductive SaysOperation : String → Operation → Prop
  | known {kind : String} {operation : Operation} (hknown : operation ≠ .unknown)
      (hmeans : Means operation.label kind.toList) : SaysOperation kind operation
  | unknown {kind : String}
      (hnone : ∀ operation : Operation, operation ≠ .unknown →
        ¬Means operation.label kind.toList) : SaysOperation kind .unknown

/-- What a text says that may name a color, if there is one. -/
inductive SaysCondition : Option String → Option Color → Prop
  | absent : SaysCondition none none
  | blank {label : String} (hblank : Blank label.toList) : SaysCondition (some label) none
  | named {label : String} {color : Color} (hmeans : Means color.label label.toList) :
      SaysCondition (some label) (some color)

/-- The labels say the command. -/
structure Says (kind : String) (condition : Option String) (command : Command) : Prop where
  present : ¬Blank kind.toList
  operation : SaysOperation kind command.operation
  condition : SaysCondition condition command.condition

theorem not_blank_of_means {color : Color} {label : String} (h : Means color.label label.toList) :
    ¬Blank label.toList := by
  intro hblank
  rw [means_iff color.trimChars_label, trimChars_eq_nil_iff_blank.mpr hblank] at h
  revert h
  cases color <;> decide

theorem ofLabel_eq_iff_saysOperation {operation : Operation} :
    Operation.ofLabel kind = operation ↔ SaysOperation kind operation := by
  constructor
  · rintro rfl
    by_cases hunknown : Operation.ofLabel kind = .unknown
    · rw [hunknown]
      refine .unknown fun operation hknown hmeans => hknown ?_
      rw [← (Operation.ofLabel_eq_iff hknown).mpr hmeans, hunknown]
    · exact .known hunknown ((Operation.ofLabel_eq_iff hunknown).mp rfl)
  · intro h
    cases h with
    | known hknown hmeans => exact (Operation.ofLabel_eq_iff hknown).mpr hmeans
    | unknown hnone =>
      by_contra hknown
      exact hnone _ hknown ((Operation.ofLabel_eq_iff hknown).mp rfl)

theorem readCondition_eq_ok_iff {color? : Option Color} :
    readCondition kind condition = .ok color? ↔ SaysCondition condition color? := by
  cases condition with
  | none =>
    refine ⟨fun h => ?_, fun h => ?_⟩
    · obtain rfl := Except.ok.inj h
      exact .absent
    · cases h
      rfl
  | some label =>
    have hnamed : ∀ color, Color.ofLabel? (trim label) = some color ↔
        Means color.label label.toList := fun color => by
      rw [Color.ofLabel?_eq_some_iff, toList_trim, means_iff color.trimChars_label,
        means_iff color.trimChars_label, trimChars_trimChars]
    rw [readCondition]
    by_cases hblank : Blank label.toList
    · rw [if_pos (trim_eq_empty_iff.mpr hblank)]
      refine ⟨fun h => ?_, fun h => ?_⟩
      · obtain rfl := Except.ok.inj h
        exact .blank hblank
      · cases h with
        | blank => rfl
        | named hmeans => exact absurd hblank (not_blank_of_means hmeans)
    · rw [if_neg fun h => hblank (trim_eq_empty_iff.mp h)]
      cases hfound : Color.ofLabel? (trim label) with
      | none =>
        refine ⟨nofun, fun h => ?_⟩
        cases h with
        | blank h => exact absurd h hblank
        | named hmeans =>
          rw [(hnamed _).mpr hmeans] at hfound
          contradiction
      | some color =>
        have hmeans := (hnamed color).mp hfound
        refine ⟨fun h => ?_, fun h => ?_⟩
        · obtain rfl := Except.ok.inj h
          exact .named hmeans
        · cases h with
          | blank h => exact absurd h hblank
          | named h =>
            rw [(hnamed _).mpr h] at hfound
            rw [hfound]

/-- Labels are read as the command that they say. -/
theorem ofLabels_eq_ok_iff :
    ofLabels kind condition = .ok command ↔ Says kind condition command := by
  obtain ⟨operation, color?⟩ := command
  rw [ofLabels]
  by_cases hblank : Blank kind.toList
  · rw [if_pos (trim_eq_empty_iff.mpr hblank)]
    exact ⟨nofun, fun h => absurd hblank h.present⟩
  · rw [if_neg fun h => hblank (trim_eq_empty_iff.mp h)]
    constructor
    · intro h
      cases hcondition : readCondition kind condition with
      | error reason =>
        rw [hcondition] at h
        contradiction
      | ok found =>
        rw [hcondition] at h
        obtain ⟨rfl, rfl⟩ := Command.mk.inj (Except.ok.inj h)
        exact ⟨hblank, ofLabel_eq_iff_saysOperation.mp rfl, readCondition_eq_ok_iff.mp hcondition⟩
    · intro h
      have hoperation : Operation.ofLabel kind = operation :=
        ofLabel_eq_iff_saysOperation.mpr h.operation
      rw [readCondition_eq_ok_iff.mpr h.condition, hoperation]
      rfl

/-- A command is the reading of its own labels. -/
theorem ofLabels_label (h : command.operation ≠ .unknown) :
    ofLabels command.operation.label (command.condition.map Color.label) = .ok command := by
  have hlabels : ∀ operation ∈ Operation.known, ¬Blank operation.label.toList := by decide
  refine ofLabels_eq_ok_iff.mpr
    ⟨hlabels _ (Operation.mem_known.mpr h), .known h (means_label _), ?_⟩
  cases command.condition with
  | none => exact .absent
  | some color => exact .named (means_label _)

/-! ### Spelling -/

theorem SaysOperation.respelled {operation : Operation} (h : SaysOperation kind operation)
    (hkind : Respelled kind.toList kind'.toList) : SaysOperation kind' operation := by
  cases h with
  | known hknown hmeans =>
    exact .known hknown ((hkind.means_iff operation.trimChars_label).mp hmeans)
  | unknown hnone =>
    exact .unknown fun operation hknown hmeans =>
      hnone operation hknown ((hkind.means_iff operation.trimChars_label).mpr hmeans)

theorem SaysCondition.respelled {color? : Option Color} (h : SaysCondition condition color?)
    (hcondition : Option.Rel (fun a b => Respelled a.toList b.toList) condition condition') :
    SaysCondition condition' color? := by
  cases h with
  | absent =>
    cases hcondition
    exact .absent
  | blank hblank =>
    cases hcondition with
    | some hlabel => exact .blank (hlabel.blank_iff.mp hblank)
  | @named _ color hmeans =>
    cases hcondition with
    | some hlabel => exact .named ((hlabel.means_iff color.trimChars_label).mp hmeans)

theorem Says.respelled (h : Says kind condition command)
    (hkind : Respelled kind.toList kind'.toList)
    (hcondition : Option.Rel (fun a b => Respelled a.toList b.toList) condition condition') :
    Says kind' condition' command where
  present hblank := h.present (hkind.blank_iff.mpr hblank)
  operation := h.operation.respelled hkind
  condition := h.condition.respelled hcondition

/-! ### What is said -/

theorem exists_saysOperation (kind : String) : ∃ operation, SaysOperation kind operation :=
  ⟨_, ofLabel_eq_iff_saysOperation.mp rfl⟩

theorem SaysOperation.eq_iff {said operation : Operation} (h : SaysOperation kind said)
    (hknown : operation ≠ .unknown) :
    said = operation ↔ Means operation.label kind.toList := by
  rw [← ofLabel_eq_iff_saysOperation.mpr h, Operation.ofLabel_eq_iff hknown]

/-- The word for the unknown operation names none. -/
theorem SaysOperation.eq_unknown {said : Operation} (h : SaysOperation kind said)
    (hmeans : Means Operation.unknown.label kind.toList) : said = .unknown := by
  cases h with
  | unknown => rfl
  | known hknown hsaid =>
    -- both labels are the same text in small letters, and no two labels are
    rw [means_iff said.trimChars_label, sameLetters_iff] at hsaid
    rw [means_iff (Operation.trimChars_label _), sameLetters_iff, ← hsaid] at hmeans
    have hall : ∀ operation ∈ Operation.known,
        Operation.unknown.label.toList.map Char.toLower ≠
          operation.label.toList.map Char.toLower := by decide
    exact absurd hmeans (hall said (Operation.mem_known.mpr hknown))

theorem exists_saysCondition_iff :
    (∃ color?, SaysCondition condition color?) ↔
      ∀ label, condition = some label → Blank label.toList ∨
        ∃ color : Color, Means color.label label.toList := by
  constructor
  · rintro ⟨color?, h⟩ label rfl
    cases h with
    | blank hblank => exact .inl hblank
    | named hmeans => exact .inr ⟨_, hmeans⟩
  · intro h
    cases condition with
    | none => exact ⟨none, .absent⟩
    | some label =>
      rcases h label rfl with hblank | ⟨color, hmeans⟩
      · exact ⟨none, .blank hblank⟩
      · exact ⟨some color, .named hmeans⟩

theorem SaysCondition.eq_none_iff {color? : Option Color} (h : SaysCondition condition color?) :
    color? = none ↔ ∀ label, condition = some label → Blank label.toList := by
  cases h with
  | absent => simp
  | blank hblank => simpa using hblank
  | named hmeans => simpa using not_blank_of_means hmeans

theorem exists_ofLabels_eq_ok_iff :
    (∃ command, ofLabels kind condition = .ok command) ↔
      ¬Blank kind.toList ∧ ∀ label, condition = some label → Blank label.toList ∨
        ∃ color : Color, Means color.label label.toList := by
  rw [← exists_saysCondition_iff]
  constructor
  · rintro ⟨command, h⟩
    obtain ⟨hpresent, -, hcondition⟩ := ofLabels_eq_ok_iff.mp h
    exact ⟨hpresent, _, hcondition⟩
  · rintro ⟨hpresent, color?, hcondition⟩
    obtain ⟨operation, hoperation⟩ := exists_saysOperation kind
    exact ⟨⟨operation, color?⟩, ofLabels_eq_ok_iff.mpr ⟨hpresent, hoperation, hcondition⟩⟩

/-- Labels fail to be read exactly if the one for the operation is blank, or the one for the
condition is there, not blank and means no color. What is read stays the same in every spelling of
the labels; it has no condition exactly if none is given or it is blank, and its operation is one
other than the unknown exactly if the label of that operation is meant. So the word for the unknown
operation and whatever else means no label are read as the unknown operation, and every command with
another operation is the reading of its own labels. -/
theorem labels_are_read_up_to_padding_and_case (kind : String) (condition : Option String) :
    ((∃ reason, ofLabels kind condition = .error reason) ↔
        Blank kind.toList ∨ ∃ label, condition = some label ∧ ¬Blank label.toList ∧
          ∀ color : Color, ¬Means color.label label.toList) ∧
      (∀ command, ofLabels kind condition = .ok command →
        (∀ kind' condition', Respelled kind.toList kind'.toList →
            Option.Rel (fun a b => Respelled a.toList b.toList) condition condition' →
            ofLabels kind' condition' = .ok command) ∧
          (command.condition = none ↔ ∀ label, condition = some label → Blank label.toList) ∧
          (∀ operation, operation ≠ .unknown →
            (command.operation = operation ↔ Means operation.label kind.toList)) ∧
          ((∀ operation : Operation, operation ≠ .unknown → ¬Means operation.label kind.toList) →
            command.operation = .unknown) ∧
          (Means Operation.unknown.label kind.toList → command.operation = .unknown)) ∧
      ∀ command : Command, command.operation ≠ .unknown →
        ofLabels command.operation.label (command.condition.map Color.label) = .ok command := by
  refine ⟨?_, fun command hread => ?_, fun command => ofLabels_label⟩
  · rw [Reading.exists_eq_error_iff, exists_ofLabels_eq_ok_iff]
    simp only [not_and_or, not_not, not_forall, not_or, not_exists, exists_prop]
  · have hsaid := ofLabels_eq_ok_iff.mp hread
    refine ⟨fun kind' condition' hkind hcondition => ?_, hsaid.condition.eq_none_iff,
      fun operation => hsaid.operation.eq_iff, fun hnone => ?_, hsaid.operation.eq_unknown⟩
    · exact ofLabels_eq_ok_iff.mpr (hsaid.respelled hkind hcondition)
    · by_contra hknown
      exact hnone _ hknown ((hsaid.operation.eq_iff hknown).mp rfl)

/-- Blanks and capitals make no difference. A second blank between two words does, and so does a
letter of another script. -/
theorem padded_and_capital_labels_are_read :
    ofLabels "\u3000Function 2\t" (some " gREY\n") = .ok ⟨.call .f2, some .grey⟩ ∧
      ofLabels "fUNCTION 2" (some "Grey\u00a0") = .ok ⟨.call .f2, some .grey⟩ ∧
      Means (Operation.call .f2).label "\u3000Function 2\t".toList ∧
      ∀ kind ∈ ["function  2", "functi\u043en 2", " Unknown"],
        ofLabels kind (some " ") = .ok ⟨.unknown, none⟩ := by
  have hread : ofLabels "\u3000Function 2\t" (some " gREY\n") = .ok ⟨.call .f2, some .grey⟩ := by
    decide +kernel
  obtain ⟨hspelling, -, hoperation, -⟩ :=
    (labels_are_read_up_to_padding_and_case _ _).2.1 _ hread
  refine ⟨hread, hspelling _ _ ?_ (.some ?_), (hoperation _ (by decide)).mp rfl, by decide +kernel⟩
  · exact ⟨['\u3000'], "Function 2".toList, ['\t'], [], "fUNCTION 2".toList, [], by decide⟩
  · exact ⟨[' '], "gREY".toList, ['\n'], [], "Grey".toList, ['\u00a0'], by decide⟩

end Command

end TileWalk
