import WashController.Assembly.Survey
import WashController.Proofs.Outcome

/-!
# The first pass

What the first pass finds out about the lines of a source. The equations `extend_blank`,
`extend_label` and `extend_code` say what one line does to a survey, and `Extends` is what every
line that passes has in common: the offset grows by the instructions of the line, and the names
that the line declares point at the offset. `offset_of_foldlM`, `get?_of_undeclared` and
`get?_of_declared` say the same of all lines together. What the lines do not change is carried by
`invariant_of_foldlM`: no label points past the instructions counted so far (`addressed_of_foldlM`),
and the count stays within its limit (`offset_le_of_foldlM`).
-/

namespace WashController

namespace SourceLine

/-- The number of lines that hold an instruction. -/
def codeCount (lines : List SourceLine) : Nat :=
  lines.countP isCode

@[simp]
theorem codeCount_nil : codeCount [] = 0 :=
  rfl

@[simp]
theorem codeCount_cons (line : SourceLine) (lines : List SourceLine) :
    codeCount (line :: lines) = codeCount lines + if line.isCode then 1 else 0 :=
  List.countP_cons

@[simp]
theorem codeCount_append (lines rest : List SourceLine) :
    codeCount (lines ++ rest) = codeCount lines + codeCount rest :=
  List.countP_append

theorem codeCount_eq_zero {lines : List SourceLine} (none : ∀ line ∈ lines, line.isCode = false) :
    codeCount lines = 0 :=
  List.countP_eq_zero.2 fun line member => by simp [none line member]

end SourceLine

namespace Survey

variable {limits : Limits} {survey next last : Survey} {log after : Log}

/-! ## One line -/

theorem extend_blank (line : Nat) :
    extend limits survey (.blank, line) log = .ok survey log :=
  rfl

/-- A label is warned about if it has no name, and then declared at the offset. -/
theorem extend_label (name : String) (line : Nat) :
    extend limits survey (.label name, line) log =
      let warned := if name = "" then log.push (.unnamedLabel line) else log
      match survey.labels.declare? limits.maxLabels name survey.offset with
      | some labels => .ok { survey with labels := labels } warned
      | none => .error (.tooManyLabels name line limits.maxLabels) warned := by
  unfold extend
  by_cases unnamed : name = ""
  · subst unnamed
    cases declared : survey.labels.declare? limits.maxLabels "" survey.offset <;>
      simp only [declared, ↓reduceIte] <;> rfl
  · cases declared : survey.labels.declare? limits.maxLabels name survey.offset <;>
      simp only [declared, unnamed, ↓reduceIte] <;> rfl

/-- An instruction takes the next address, if the limit leaves one. -/
theorem extend_code (text : List Char) (line : Nat) :
    extend limits survey (.code text, line) log =
      if survey.offset < limits.maxInstructions then
        .ok { survey with offset := survey.offset + 1 } log
      else
        .error (.tooManyInstructions limits.maxInstructions) log := by
  unfold extend
  by_cases room : survey.offset < limits.maxInstructions
  · have within : ¬ survey.offset + 1 > limits.maxInstructions := by omega
    simp only [within, room, ↓reduceIte]
    rfl
  · have beyond : survey.offset + 1 > limits.maxInstructions := by omega
    simp only [beyond, room, ↓reduceIte]
    rfl

/-- What a line that passes does to a survey. -/
structure Extends (survey : Survey) (line : SourceLine) (next : Survey) : Prop where
  offset : next.offset = survey.offset + if line.isCode then 1 else 0
  labels : ∀ name, next.labels.get? name =
    if line = .label name then some survey.offset else survey.labels.get? name

theorem extends_of_extend {line : SourceLine × Nat}
    (passed : extend limits survey line log = .ok next after) : Extends survey line.1 next := by
  rcases line with ⟨_ | name | text, line⟩
  · rw [extend_blank] at passed
    cases passed
    exact ⟨rfl, fun name => by simp⟩
  · rw [extend_label] at passed
    cases declared : survey.labels.declare? limits.maxLabels name survey.offset with
    | none =>
        rw [declared] at passed
        cases passed
    | some labels =>
        rw [declared] at passed
        cases passed
        refine ⟨rfl, fun other => ?_⟩
        rw [LabelTable.get?_of_declare? declared other]
        simp
  · rw [extend_code] at passed
    split at passed
    · cases passed
      exact ⟨rfl, fun name => by simp⟩
    · cases passed

/-! ## All lines -/

/-- What every line keeps, all of them together keep. -/
theorem invariant_of_foldlM (holds : Survey → Prop)
    (kept : ∀ {survey next line log after},
      holds survey → extend limits survey line log = .ok next after → holds next)
    {lines : List (SourceLine × Nat)}
    (passed : lines.foldlM (extend limits) survey log = .ok last after) (start : holds survey) :
    holds last := by
  induction lines generalizing survey log with
  | nil =>
      obtain ⟨rfl, -⟩ := pure_eq_ok_iff.1 passed
      exact start
  | cons line lines ih =>
      rw [List.foldlM_cons] at passed
      obtain ⟨next, between, extended, rest⟩ := bind_eq_ok_iff.1 passed
      exact ih rest (kept start extended)

/-- The offset counts the instructions. -/
theorem offset_of_foldlM {lines : List SourceLine} {first : Nat}
    (passed : (lines.zipIdx first).foldlM (extend limits) survey log = .ok last after) :
    last.offset = survey.offset + SourceLine.codeCount lines := by
  induction lines generalizing first survey log with
  | nil =>
      obtain ⟨rfl, -⟩ := pure_eq_ok_iff.1 passed
      rfl
  | cons line lines ih =>
      rw [List.zipIdx_cons, List.foldlM_cons] at passed
      obtain ⟨next, between, extended, rest⟩ := bind_eq_ok_iff.1 passed
      rw [ih rest, (extends_of_extend extended).offset, SourceLine.codeCount_cons,
        Nat.add_assoc, Nat.add_comm (SourceLine.codeCount lines)]

/-- A name that no line declares stays where it was. -/
theorem get?_of_undeclared {lines : List SourceLine} {first : Nat} {name : String}
    (passed : (lines.zipIdx first).foldlM (extend limits) survey log = .ok last after)
    (undeclared : ∀ line ∈ lines, line ≠ .label name) :
    last.labels.get? name = survey.labels.get? name := by
  induction lines generalizing first survey log with
  | nil =>
      obtain ⟨rfl, -⟩ := pure_eq_ok_iff.1 passed
      rfl
  | cons line lines ih =>
      rw [List.zipIdx_cons, List.foldlM_cons] at passed
      obtain ⟨next, between, extended, rest⟩ := bind_eq_ok_iff.1 passed
      rw [ih rest fun other member => undeclared other (List.mem_cons_of_mem line member),
        (extends_of_extend extended).labels, if_neg (undeclared line List.mem_cons_self)]

/-- A name points at the offset of the last line that declares it: the number of instructions
before that line. -/
theorem get?_of_declared {lines rest : List SourceLine} {first : Nat} {name : String}
    (passed : ((lines ++ .label name :: rest).zipIdx first).foldlM (extend limits) survey log =
      .ok last after)
    (final : ∀ line ∈ rest, line ≠ .label name) :
    last.labels.get? name = some (survey.offset + SourceLine.codeCount lines) := by
  rw [List.zipIdx_append, List.foldlM_append] at passed
  obtain ⟨here, between, reached, onward⟩ := bind_eq_ok_iff.1 passed
  rw [List.zipIdx_cons, List.foldlM_cons] at onward
  obtain ⟨next, later, declared, remaining⟩ := bind_eq_ok_iff.1 onward
  rw [get?_of_undeclared remaining final, (extends_of_extend declared).labels, if_pos rfl,
    offset_of_foldlM reached]

/-- No label points past the instructions counted so far. -/
def Addressed (survey : Survey) : Prop :=
  ∀ name address, survey.labels.get? name = some address → address ≤ survey.offset

theorem addressed_empty : Addressed empty := by
  intro name address found
  simp [empty, LabelTable.get?, LabelTable.empty] at found

theorem Extends.addressed {line : SourceLine} (extended : Extends survey line next)
    (addressed : Addressed survey) : Addressed next := by
  intro name address found
  rw [extended.labels] at found
  rw [extended.offset]
  split at found
  · cases found
    omega
  · have bounded : address ≤ survey.offset := addressed name address found
    omega

theorem addressed_of_foldlM {lines : List SourceLine} {first : Nat}
    (passed : (lines.zipIdx first).foldlM (extend limits) survey log = .ok last after)
    (addressed : Addressed survey) : Addressed last :=
  invariant_of_foldlM Addressed
    (fun addressed extended => (extends_of_extend extended).addressed addressed) passed addressed

/-- The offset stays within the limit on instructions. -/
theorem offset_le_of_foldlM {lines : List SourceLine} {first : Nat}
    (passed : (lines.zipIdx first).foldlM (extend limits) survey log = .ok last after)
    (le : survey.offset ≤ limits.maxInstructions) : last.offset ≤ limits.maxInstructions := by
  refine invariant_of_foldlM (fun survey => survey.offset ≤ limits.maxInstructions) ?_ passed le
  intro survey next line log after le extended
  rcases line with ⟨_ | name | text, line⟩
  · rwa [(extends_of_extend extended).offset]
  · rwa [(extends_of_extend extended).offset]
  · rw [extend_code] at extended
    split at extended
    next room =>
      cases extended
      exact room
    next => cases extended

end Survey

end WashController
