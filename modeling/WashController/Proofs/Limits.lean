import Mathlib.Data.Finset.Card
import WashController.Proofs.Addresses

/-!
# Limits on a source

Assembling fails for one reason only: the source holds more instructions or declares more names than
the limits allow. `Fits` says how much that is, of any lines. After lines that fit, the survey has
counted just the instructions and the names in them (`Covers`), so that the next line passes if the
lines up to it still fit (`Covers.exists_extend`) and is an error if they do not
(`Covers.exists_extend_eq_error`). Hence the first line that is too much ends the work, and lines
that fit are assembled. Either way each label without a name is warned about once, up to that line.
-/

namespace WashController

namespace SourceLine

/-! ## What counts -/

/-- The name that a line declares, if it declares one. -/
def labelName? : SourceLine → Option String
  | label name => some name
  | _ => none

/-- The names that lines declare. A name that is declared again is no new name. -/
def labelNames (lines : List SourceLine) : Finset String :=
  (lines.filterMap labelName?).toFinset

@[simp]
theorem labelNames_nil : labelNames [] = ∅ :=
  rfl

@[simp]
theorem mem_labelNames {lines : List SourceLine} {name : String} :
    name ∈ labelNames lines ↔ .label name ∈ lines := by
  have declares (line : SourceLine) : line.labelName? = some name ↔ line = .label name := by
    cases line <;> simp [labelName?]
  simp [labelNames, declares]

@[simp]
theorem labelNames_append_blank (lines : List SourceLine) :
    labelNames (lines ++ [.blank]) = labelNames lines := by
  ext name
  simp

@[simp]
theorem labelNames_append_label (lines : List SourceLine) (name : String) :
    labelNames (lines ++ [.label name]) = insert name (labelNames lines) := by
  ext other
  simp [or_comm]

@[simp]
theorem labelNames_append_code (lines : List SourceLine) (text : List Char) :
    labelNames (lines ++ [.code text]) = labelNames lines := by
  ext name
  simp

/-- Whether lines keep to the limits on instructions and on names. -/
def Fits (limits : Limits) (lines : List SourceLine) : Prop :=
  codeCount lines ≤ limits.maxInstructions ∧ (labelNames lines).card ≤ limits.maxLabels

instance (limits : Limits) (lines : List SourceLine) : Decidable (Fits limits lines) :=
  inferInstanceAs (Decidable (_ ∧ _))

theorem fits_nil (limits : Limits) : Fits limits [] :=
  ⟨Nat.zero_le _, Nat.zero_le _⟩

/-- What is part of lines that fit, fits. -/
theorem Fits.of_sublist {limits : Limits} {some all : List SourceLine} (fits : Fits limits all)
    (part : some.Sublist all) : Fits limits some := by
  have code : codeCount some ≤ codeCount all := part.countP_le
  have names : labelNames some ⊆ labelNames all := by
    intro name member
    exact mem_labelNames.2 (part.subset (mem_labelNames.1 member))
  exact ⟨code.trans fits.1, (Finset.card_le_card names).trans fits.2⟩

/-- The warnings that lines give rise to: one for each label without a name. The lines are numbered
from the first number on. -/
def warnings (lines : List SourceLine) (first : Nat) : Log :=
  ((lines.zipIdx first).filterMap fun (line, number) =>
    if line = .label "" then some (.unnamedLabel number) else none).toArray

@[simp]
theorem warnings_nil (first : Nat) : warnings [] first = #[] :=
  rfl

theorem warnings_singleton (line : SourceLine) (number : Nat) :
    warnings [line] number = if line = .label "" then #[.unnamedLabel number] else #[] := by
  by_cases unnamed : line = .label "" <;> simp [warnings, unnamed]

theorem warnings_append (lines rest : List SourceLine) (first : Nat) :
    warnings (lines ++ rest) first =
      warnings lines first ++ warnings rest (first + lines.length) := by
  simp [warnings, List.zipIdx_append]

/-- The error at a line that is too much, given with its number. -/
inductive Exceeds (limits : Limits) : SourceLine → Nat → LoadError → Prop
  | code {text number} :
    Exceeds limits (.code text) number (.tooManyInstructions limits.maxInstructions)
  | label {name number} :
    Exceeds limits (.label name) number (.tooManyLabels name number limits.maxLabels)

end SourceLine

open SourceLine

namespace Survey

variable {limits : Limits} {survey : Survey} {lines earlier : List SourceLine}

/-! ## One line -/

/-- What a survey holds of the lines that it was made from: how many instructions there are, and
which names, and how many. -/
structure Covers (survey : Survey) (lines : List SourceLine) : Prop where
  offset : survey.offset = codeCount lines
  size : survey.labels.size = (labelNames lines).card
  declared : ∀ name, (survey.labels.get? name).isSome ↔ name ∈ labelNames lines

theorem covers_empty : Covers empty [] :=
  ⟨rfl, by simp [empty, LabelTable.empty, LabelTable.size],
    fun name => by simp [empty, LabelTable.empty, LabelTable.get?]⟩

/-- A name is admitted just when there are not too many names with it. -/
theorem Covers.admits_iff (covers : Covers survey lines) (fits : Fits limits lines)
    (name : String) :
    survey.labels.admits limits.maxLabels name = true ↔
      (labelNames (lines ++ [.label name])).card ≤ limits.maxLabels := by
  rw [LabelTable.admits_iff, covers.declared, covers.size, labelNames_append_label,
    Finset.card_insert_eq_ite]
  by_cases known : name ∈ labelNames lines
  · simp only [known, true_or, ↓reduceIte, true_iff]
    exact fits.2
  · simp only [known, false_or, ↓reduceIte, Nat.lt_iff_add_one_le]

/-- A line that is not too much passes, and the survey covers it then. -/
theorem Covers.exists_extend (covers : Covers survey lines) {line : SourceLine}
    (fits : Fits limits (lines ++ [line])) (number : Nat) (log : Log) :
    ∃ next, extend limits survey (line, number) log = .ok next (log ++ warnings [line] number) ∧
      Covers next (lines ++ [line]) := by
  have before : Fits limits lines := fits.of_sublist (List.sublist_append_left lines [line])
  rw [warnings_singleton]
  cases line with
  | blank =>
      refine ⟨survey, by simp [extend_blank], ⟨?_, ?_, fun name => ?_⟩⟩
      · simp [covers.offset, isCode]
      · rw [labelNames_append_blank, covers.size]
      · rw [labelNames_append_blank, covers.declared]
  | label name =>
      have admitted := (covers.admits_iff before name).2 fits.2
      cases declared : survey.labels.declare? limits.maxLabels name survey.offset with
      | none => simp [LabelTable.declare?_eq_none_iff, admitted] at declared
      | some labels =>
          refine ⟨{ survey with labels := labels }, ?_, ⟨?_, ?_, fun other => ?_⟩⟩
          · rw [extend_label, declared]
            by_cases unnamed : name = "" <;> simp [unnamed]
          · simp [covers.offset, isCode]
          · simp only [labelNames_append_label, Finset.card_insert_eq_ite,
              LabelTable.size_of_declare? declared, covers.declared, covers.size]
          · rw [labelNames_append_label, LabelTable.get?_of_declare? declared,
              Finset.mem_insert, ← covers.declared]
            by_cases same : name = other
            · simp [same]
            · simp [same, Ne.symm same]
  | code text =>
      have within : codeCount lines + 1 ≤ limits.maxInstructions := by
        simpa [isCode] using fits.1
      have room : survey.offset < limits.maxInstructions := covers.offset ▸ within
      refine ⟨{ survey with offset := survey.offset + 1 }, ?_, ⟨?_, ?_, fun name => ?_⟩⟩
      · simp [extend_code, room]
      · simp [covers.offset, isCode]
      · rw [labelNames_append_code, covers.size]
      · rw [labelNames_append_code, covers.declared]

/-- A line that is too much is an error, after its warning. -/
theorem Covers.exists_extend_eq_error (covers : Covers survey lines) (before : Fits limits lines)
    {line : SourceLine} (tooMuch : ¬ Fits limits (lines ++ [line])) (number : Nat) (log : Log) :
    ∃ error, extend limits survey (line, number) log =
        .error error (log ++ warnings [line] number) ∧
      Exceeds limits line number error := by
  rw [warnings_singleton]
  cases line with
  | blank =>
      refine absurd ⟨?_, ?_⟩ tooMuch
      · simpa [isCode] using before.1
      · simpa using before.2
  | label name =>
      have count : codeCount (lines ++ [.label name]) = codeCount lines := by simp [isCode]
      have refused : survey.labels.admits limits.maxLabels name = false := by
        rw [← Bool.not_eq_true, covers.admits_iff before]
        exact fun names => tooMuch ⟨count ▸ before.1, names⟩
      refine ⟨_, ?_, .label⟩
      rw [extend_label, LabelTable.declare?_eq_none_iff.2 refused]
      by_cases unnamed : name = "" <;> simp [unnamed]
  | code text =>
      have full : ¬ survey.offset < limits.maxInstructions := by
        intro room
        have within : codeCount lines + 1 ≤ limits.maxInstructions := covers.offset ▸ room
        exact tooMuch ⟨by simpa [isCode] using within, by simpa using before.2⟩
      exact ⟨_, by simp [extend_code, full], .code⟩

/-! ## All lines -/

/-- Lines that fit pass, one after the other. -/
theorem Covers.exists_foldlM (covers : Covers survey earlier)
    (fits : Fits limits (earlier ++ lines)) (first : Nat) (log : Log) :
    ∃ last, (lines.zipIdx first).foldlM (extend limits) survey log =
        .ok last (log ++ warnings lines first) ∧
      Covers last (earlier ++ lines) := by
  induction lines generalizing survey earlier first log with
  | nil => exact ⟨survey, by simp, by simpa using covers⟩
  | cons line lines ih =>
      have split : earlier ++ line :: lines = earlier ++ [line] ++ lines := by simp
      rw [split] at fits ⊢
      obtain ⟨next, extended, covered⟩ := covers.exists_extend
        (fits.of_sublist (List.sublist_append_left _ lines)) first log
      obtain ⟨last, passed, all⟩ := ih covered fits (first + 1) (log ++ warnings [line] first)
      refine ⟨last, ?_, all⟩
      rw [List.zipIdx_cons, List.foldlM_cons, ← List.singleton_append, warnings_append,
        ← Array.append_assoc]
      exact bind_eq_ok_iff.2 ⟨next, _, extended, passed⟩

/-- The first line that is too much is an error, whatever follows it. -/
theorem exists_foldlM_eq_error (fits : Fits limits lines) {line : SourceLine}
    (tooMuch : ¬ Fits limits (lines ++ [line])) (later : List SourceLine) (first : Nat)
    (log : Log) :
    ∃ error, ((lines ++ line :: later).zipIdx first).foldlM (extend limits) empty log =
        .error error (log ++ warnings (lines ++ [line]) first) ∧
      Exceeds limits line (first + lines.length) error := by
  have covered : Fits limits ([] ++ lines) := fits
  obtain ⟨survey, passed, covers⟩ := covers_empty.exists_foldlM covered first log
  obtain ⟨error, failed, exceeds⟩ := covers.exists_extend_eq_error fits tooMuch
    (first + lines.length) (log ++ warnings lines first)
  refine ⟨error, ?_, exceeds⟩
  rw [List.zipIdx_append, List.foldlM_append, List.zipIdx_cons, warnings_append,
    ← Array.append_assoc]
  refine bind_eq_error_iff.2 (.inr ⟨survey, _, passed, ?_⟩)
  rw [List.foldlM_cons]
  exact bind_eq_error_iff.2 (.inl failed)

end Survey

namespace Assembly

variable {limits : Limits} {name : String} {lines : List SourceLine} {log after : Log}
  {assembly : Assembly}

/-! ## Assembling -/

/-- Lines that fit are assembled. -/
theorem exists_ofLines (fits : Fits limits lines) (name : String) (log : Log) :
    ∃ assembly, ofLines limits name lines log = .ok assembly (log ++ warnings lines 1) := by
  have covered : Fits limits ([] ++ lines) := fits
  obtain ⟨survey, passed, -⟩ := Survey.covers_empty.exists_foldlM covered 1 log
  exact ⟨_, bind_eq_ok_iff.2 ⟨survey, _, passed, pure_eq_ok_iff.2 ⟨rfl, rfl⟩⟩⟩

/-- The first line that is too much ends the work. -/
theorem exists_ofLines_eq_error (fits : Fits limits lines) {line : SourceLine}
    (tooMuch : ¬ Fits limits (lines ++ [line])) (later : List SourceLine) (name : String)
    (log : Log) :
    ∃ error, ofLines limits name (lines ++ line :: later) log =
        .error error (log ++ warnings (lines ++ [line]) 1) ∧
      Exceeds limits line (lines.length + 1) error := by
  obtain ⟨error, failed, exceeds⟩ := Survey.exists_foldlM_eq_error fits tooMuch later 1 log
  rw [Nat.add_comm] at exceeds
  exact ⟨error, bind_eq_error_iff.2 (.inl failed), exceeds⟩

/-- Just the lines that fit are assembled. -/
theorem fits_of_ofLines (loaded : ofLines limits name lines log = .ok assembly after) :
    Fits limits lines := by
  by_contra tooMuch
  obtain ⟨earlier, line, later, rfl, fits, excess⟩ :=
    exists_first_failure (Fits limits) (fits_nil limits) tooMuch
  obtain ⟨error, failed, -⟩ := exists_ofLines_eq_error fits excess later name log
  rw [failed] at loaded
  cases loaded

/-- Assembling fails just where a limit is exceeded, and at the first line that exceeds one. A
source is assembled if and only if it has no more instructions, and declares no more names, than
the limits allow. Where it does not keep to them there is a first line up to which there is too
much, and the error is the one about that line: too many instructions if it holds an instruction,
too many labels if it declares a name. Each label without a name is warned about once, in the order
of the lines: in all lines if the source is assembled, and else up to the line of the error. -/
theorem fails_at_first_excess (limits : Limits) (name source : String) (log : Log) :
    ((∃ assembly after, ofSource limits name source log = .ok assembly after) ↔
      codeCount (SourceLine.ofSource source) ≤ limits.maxInstructions ∧
        (labelNames (SourceLine.ofSource source)).card ≤ limits.maxLabels) ∧
    (∀ assembly after, ofSource limits name source log = .ok assembly after →
      after = log ++ warnings (SourceLine.ofSource source) 1) ∧
    (¬ Fits limits (SourceLine.ofSource source) →
      ∃ earlier line later error, SourceLine.ofSource source = earlier ++ line :: later ∧
        (∀ shorter, shorter <+: earlier → Fits limits shorter) ∧
        ¬ Fits limits (earlier ++ [line]) ∧
        Exceeds limits line (earlier.length + 1) error ∧
        ofSource limits name source log =
          .error error (log ++ warnings (earlier ++ [line]) 1)) := by
  refine ⟨⟨?_, ?_⟩, ?_, ?_⟩
  · intro given
    obtain ⟨assembly, after, loaded⟩ := given
    exact fits_of_ofLines loaded
  · intro fits
    obtain ⟨assembly, loaded⟩ := exists_ofLines fits name log
    exact ⟨assembly, _, loaded⟩
  · intro assembly after loaded
    obtain ⟨other, again⟩ := exists_ofLines (fits_of_ofLines loaded) name log
    rw [ofSource, again] at loaded
    cases loaded
    rfl
  · intro tooMuch
    obtain ⟨earlier, line, later, split, fits, excess⟩ :=
      exists_first_failure (Fits limits) (fits_nil limits) tooMuch
    obtain ⟨error, failed, exceeds⟩ := exists_ofLines_eq_error fits excess later name log
    refine ⟨earlier, line, later, error, split, ?_, excess, exceeds, ?_⟩
    · intro shorter part
      exact fits.of_sublist part.sublist
    · rw [ofSource, split]
      exact failed

/-- An instruction too many, after a label without a name. -/
theorem fails_at_first_excess_instruction :
    ¬ Fits { maxInstructions := 1 } (SourceLine.ofSource "HALT\n:\nHALT\nx:\n") ∧
      ∃ earlier line later error,
        SourceLine.ofSource "HALT\n:\nHALT\nx:\n" = earlier ++ line :: later ∧
        error = .tooManyInstructions 1 ∧
        Exceeds { maxInstructions := 1 } line (earlier.length + 1) error ∧
        #[.unnamedLabel 2] = #[] ++ warnings (earlier ++ [line]) 1 := by
  have tooMuch : ¬ Fits { maxInstructions := 1 }
      (SourceLine.ofSource "HALT\n:\nHALT\nx:\n") := by decide
  have outcome : ofSource { maxInstructions := 1 } "twice" "HALT\n:\nHALT\nx:\n" #[] =
      .error (.tooManyInstructions 1) #[.unnamedLabel 2] := rfl
  obtain ⟨-, -, failure⟩ := fails_at_first_excess { maxInstructions := 1 } "twice"
    "HALT\n:\nHALT\nx:\n" #[]
  obtain ⟨earlier, line, later, error, split, -, -, exceeds, failed⟩ := failure tooMuch
  rw [outcome] at failed
  injection failed with same warned
  exact ⟨tooMuch, earlier, line, later, error, split, same.symm, exceeds, warned⟩

end Assembly

end WashController
