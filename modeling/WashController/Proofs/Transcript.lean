import WashController.Proofs.Parts
import WashController.Proofs.Legibility
import WashController.Proofs.Trail

/-!
# Transcripts can be read

What a program does can be told from what the panel shows. A text that can be told apart from
whatever follows it is one that `Delimits` itself, and texts of this kind can be told apart when
they stand after one another (`Delimits.join_inj`). Notices are of this kind if the names in them
have no blanks (`Notice.delimits_text`), and the names that a source gives have none. The notices of
a run are those of its instructions, each as it finds the machine (`Trail.written`). So two runs
with the same output have given the same commands with the same values, have waited for the same
times, and have both come to a halt by themselves or neither (`output_tells_commands`).
-/

namespace WashController

/-! ## Texts that end where they end -/

namespace Text

/-- Whether a token has no blanks. It may be empty. -/
def Unbroken (token : String) : Prop :=
  ∀ char ∈ token.toList, isBlank char = false

instance (token : String) : Decidable (Unbroken token) :=
  List.decidableBAll (fun char => isBlank char = false) token.toList

theorem Plain.unbroken {token : String} (plain : Plain token) : Unbroken token :=
  fun char member => (plain char member).1

theorem Unbroken.not_mem {token : String} (unbroken : Unbroken token) {blank : Char}
    (isBlank : isBlank blank = true) : blank ∉ token.toList := by
  intro member
  rw [unbroken blank member] at isBlank
  cases isBlank

/-- Whether what is written can be told, and with it where it ends, whatever follows. -/
def Delimits {α : Type} (written : α → String) (known : α → Prop) : Prop :=
  ∀ item other, known item → known other → ∀ after rest : List Char,
    (written item).toList ++ after = (written other).toList ++ rest → item = other ∧ after = rest

section Delimits

variable {α : Type} {written : α → String} {known : α → Prop} {items others : List α}
  {tail rest : List Char}

theorem toList_join_cons_append (item : α) (items : List α) (tail : List Char) :
    (String.join ((item :: items).map written)).toList ++ tail =
      (written item).toList ++ ((String.join (items.map written)).toList ++ tail) := by
  rw [List.map_cons, String.join_cons, String.toList_append, List.append_assoc]

/-- Texts that can each be told can be told after one another, and so can what follows them, if it
is not one of them itself. -/
theorem Delimits.join_inj (delimits : Delimits written known)
    (knownItems : ∀ item ∈ items, known item) (knownOthers : ∀ other ∈ others, known other)
    (noItem : ∀ item after, (written item).toList ++ after ≠ tail)
    (noItemRest : ∀ item after, (written item).toList ++ after ≠ rest)
    (same : (String.join (items.map written)).toList ++ tail =
      (String.join (others.map written)).toList ++ rest) : items = others ∧ tail = rest := by
  induction items generalizing others with
  | nil =>
      cases others with
      | nil => exact ⟨rfl, by simpa using same⟩
      | cons other others =>
          rw [toList_join_cons_append] at same
          exact absurd (by simpa using same.symm) (noItem other _)
  | cons item items ih =>
      rw [toList_join_cons_append] at same
      cases others with
      | nil => exact absurd (by simpa using same) (noItemRest item _)
      | cons other others =>
          obtain ⟨knownItem, knownItems⟩ := List.forall_mem_cons.1 knownItems
          obtain ⟨knownOther, knownOthers⟩ := List.forall_mem_cons.1 knownOthers
          rw [toList_join_cons_append] at same
          obtain ⟨first, later⟩ := delimits item other knownItem knownOther _ _ same
          obtain ⟨more, tails⟩ := ih knownItems knownOthers later
          exact ⟨by rw [first, more], tails⟩

end Delimits

end Text

namespace Word

/-- Different words are written differently. -/
theorem text_inj {word other : Word} : word.text = other.text ↔ word = other := by
  refine ⟨fun same => ?_, congrArg text⟩
  rw [← ofLiteral_text word, same, ofLiteral_text]

theorem not_mem_text {word : Word} {mark : Char} (noSign : mark ≠ '-')
    (noDigit : mark.isDigit = false) : mark ∉ word.text.toList := by
  intro member
  rcases mem_text member with sign | digit
  · exact noSign sign
  · rw [noDigit] at digit
    cases digit

/-- A word can be told from its text up to a mark that is no part of it. -/
theorem cut_text {word other : Word} {mark : Char} {after rest : List Char} (noSign : mark ≠ '-')
    (noDigit : mark.isDigit = false)
    (same : word.text.toList ++ mark :: after = other.text.toList ++ mark :: rest) :
    word = other ∧ after = rest := by
  obtain ⟨texts, later⟩ :=
    Text.cut_at_first (not_mem_text noSign noDigit) (not_mem_text noSign noDigit) same
  exact ⟨text_inj.1 (String.toList_inj.1 texts), later⟩

end Word

/-! ## Notices -/

namespace Notice

/-- Whether the name in a notice, if there is one, has no blanks. -/
def Unbroken : Notice → Prop
  | emitted actuator _ => Text.Unbroken actuator
  | waited _ _ => True
  | halted => True

/-- A notice can be told, whatever follows it. What a command brings about may not show its value,
but the line above it does. -/
theorem delimits_text : Text.Delimits text Unbroken := by
  intro notice other unbroken unbrokenOther after rest same
  cases notice with
  | emitted actuator value =>
      cases other with
      | emitted name number =>
          rw [toList_emitted, toList_emitted] at same
          simp only [List.append_assoc, List.cons_append, List.append_cancel_left_eq] at same
          obtain ⟨names, values⟩ := Text.cut_at_first (unbroken.not_mem (by decide))
            (unbrokenOther.not_mem (by decide)) same
          obtain rfl : actuator = name := String.toList_inj.1 names
          obtain ⟨rfl, effects⟩ :=
            Word.cut_text (by decide) rfl (List.append_cancel_left values)
          exact ⟨rfl, List.append_cancel_left effects⟩
      | waited | halted => simp [toList_emitted, toList_waited, toList_halted] at same
  | waited amount total =>
      cases other with
      | waited number sum =>
          rw [toList_waited, toList_waited] at same
          simp only [List.append_assoc, List.cons_append, List.append_cancel_left_eq] at same
          obtain ⟨rfl, totals⟩ := Word.cut_text (by decide) rfl same
          obtain ⟨rfl, ends⟩ := Word.cut_text (by decide) rfl (List.append_cancel_left totals)
          exact ⟨rfl, List.tail_eq_of_cons_eq ends⟩
      | emitted | halted => simp [toList_emitted, toList_waited, toList_halted] at same
  | halted =>
      cases other with
      | halted => exact ⟨rfl, List.append_cancel_left same⟩
      | emitted | waited => simp [toList_emitted, toList_waited, toList_halted] at same

theorem toList_text_ne_nil (notice : Notice) : notice.text.toList ≠ [] := by
  cases notice <;> simp [toList_emitted, toList_waited, toList_halted]

/-- Notices can be told from their texts after one another. -/
theorem eq_of_texts {notices others : List Notice}
    (unbroken : ∀ notice ∈ notices, notice.Unbroken)
    (unbrokenOthers : ∀ notice ∈ others, notice.Unbroken) (same : texts notices = texts others) :
    notices = others := by
  have noItem (notice : Notice) (after : List Char) : notice.text.toList ++ after ≠ [] :=
    List.append_ne_nil_of_left_ne_nil notice.toList_text_ne_nil after
  refine (delimits_text.join_inj unbroken unbrokenOthers noItem noItem ?_).1
  rw [List.append_nil, List.append_nil]
  exact congrArg String.toList same

end Notice

/-! ## Runs -/

/-- Of a text that is accepted everything is written. -/
theorem Sink.written_write_of_accepts {sink : Sink} {text : String}
    (accepted : sink.accepts text = true) :
    (sink.write text).written = sink.written ++ text.toByteArray := by
  rcases sink with ⟨written, _ | room⟩
  · rfl
  · have fits : text.toByteArray.size ≤ room := by simpa [accepts] using accepted
    have whole : text.toByteArray.extract 0 (max room text.toByteArray.size) = text.toByteArray :=
      ByteArray.extract_zero_max_size
    rw [Nat.max_eq_left fits] at whole
    exact congrArg (written ++ ·) whole

/-- What the panel shows of an instruction that finds the machine as it is here. -/
def Instruction.notice? (machine : Machine Word) : Instruction → Option Notice
  | emit actuator => some (.emitted actuator machine.registers.r0)
  | wait => some (.waited machine.registers.r0 (machine.ticks + machine.registers.r0))
  | halt => some .halted
  | _ => none

section Instruction

variable {labels : LabelTable} {instruction : Instruction} {machine after : Machine Word}
  {event : Event Word} {fault : Fault}

theorem Executes.notice?_eq (rule : Executes labels machine instruction event after) :
    event.notice? = instruction.notice? machine := by
  cases rule <;> rfl

/-- An instruction that faults is none that the panel shows anything of. -/
theorem Refuses.notice?_eq_none (rule : Refuses labels machine instruction fault) :
    instruction.notice? machine = none := by
  cases rule <;> rfl

theorem Instruction.notice?_eq_halted_iff :
    instruction.notice? machine = some .halted ↔ instruction = halt := by
  cases instruction <;> simp [notice?]

/-- The name in a notice is the one in the instruction. -/
theorem Instruction.unbroken_of_notice? (writable : instruction.Writable) {notice : Notice}
    (shown : instruction.notice? machine = some notice) : notice.Unbroken := by
  cases instruction with
  | emit actuator =>
      cases shown
      exact Text.Plain.unbroken writable
  | wait | halt =>
      cases shown
      trivial
  | _ => cases shown

end Instruction

/-- What the panel shows of instructions being fetched. -/
def Fetch.notices (fetches : List Fetch) : List Notice :=
  fetches.filterMap fun fetch => fetch.code.instruction.notice? fetch.machine

theorem Fetch.notices_append (earlier later : List Fetch) :
    notices (earlier ++ later) = notices earlier ++ notices later :=
  List.filterMap_append

theorem Fetch.halted_mem_notices_iff {fetches : List Fetch} :
    .halted ∈ notices fetches ↔ ∃ fetch ∈ fetches, fetch.code.instruction = .halt := by
  simp only [notices, List.mem_filterMap, Instruction.notice?_eq_halted_iff]

namespace Session

variable {assembly : Assembly} {limit : Option Nat} {session after : Session} {ending : Ending}
  {fetches : List Fetch} {code : CodeLine}

section Fetched

variable (within : session.limitReached? assembly limit = none)
  (fetched : assembly.fetch? session.machine.counter = some code)

include within fetched

theorem notices_fetch?_of_step {event : Event Word} {next : Machine Word}
    (stepped : step assembly session.machine = .ok event next) :
    Fetch.notices (session.fetch? assembly limit).toList =
      Moment.notices [⟨session.machine, code, event⟩] := by
  rcases step_eq_ok_iff.1 stepped with ⟨past, -, -⟩ | ⟨_, carried, fetched', rule, -⟩
  · cases fetched.symm.trans past
  cases fetched.symm.trans fetched'
  rw [fetch?_of_fetched within fetched, Moment.notices_singleton, rule.notice?_eq]
  exact filterMap_singleton _ _

theorem notices_fetch?_of_fault {fault : Fault}
    (faulted : step assembly session.machine = .error fault session.machine) :
    Fetch.notices (session.fetch? assembly limit).toList = [] := by
  obtain ⟨_, fetched', rule, -⟩ := step_eq_error_iff.1 faulted
  cases fetched.symm.trans fetched'
  rw [fetch?_of_fetched within fetched]
  exact (filterMap_singleton _ _).trans (congrArg Option.toList rule.notice?_eq_none)

end Fetched

/-- What a turn writes that ends a run, unless it is the output that fails. -/
theorem Finishes.written (finishes : Finishes assembly limit session ending after)
    (unfailed : ending ≠ .sinkFull) :
    after.sink.written = session.sink.written ++
      (Notice.texts (Fetch.notices (session.fetch? assembly limit).toList)).toByteArray := by
  cases finishes with
  | stepLimit reached =>
      rw [fetch?_of_limitReached reached]
      simp [Fetch.notices, failed]
  | fault within fetched faulted =>
      rw [notices_fetch?_of_fault within fetched faulted]
      simp [failed, note]
  | sinkFull => exact absurd rfl unfailed
  | halted within fetched stepped shown =>
      rw [notices_fetch?_of_step within fetched stepped]
      exact Sink.written_write_of_accepts shown
  | ended within past =>
      rw [fetch?_of_ended past]
      simp [Fetch.notices]

/-- What a run writes are the notices of its instructions, unless its output fails. -/
theorem Trail.written (trail : Trail assembly limit session fetches ending after)
    (unfailed : ending ≠ .sinkFull) :
    after.sink.written =
      session.sink.written ++ (Notice.texts (Fetch.notices fetches)).toByteArray := by
  induction trail with
  | last turned => exact (turn_eq_error_iff.1 turned).written unfailed
  | next turned _ ih =>
      obtain ⟨within, code, event, next, fetched, stepped, -, shown, rfl⟩ := turn_eq_ok_iff.1 turned
      rw [ih unfailed, Fetch.notices_append, notices_fetch?_of_step within fetched stepped,
        Notice.texts_append, String.toByteArray_append, ← ByteArray.append_assoc]
      exact congrArg (· ++ _) (Sink.written_write_of_accepts shown)

/-- The names in what the panel shows of a program have no blanks. -/
theorem Trail.unbroken_notices (trail : Trail assembly limit session fetches ending after)
    {source : String} (assembled : assembly.AssembledFrom source) :
    ∀ notice ∈ Fetch.notices fetches, notice.Unbroken := by
  obtain ⟨limits, name, log, _, loaded⟩ := assembled
  intro notice member
  obtain ⟨fetch, inTrail, shown⟩ := List.mem_filterMap.1 member
  have inProgram : fetch.code ∈ assembly.program.toList :=
    Array.mem_toList_iff.2 (Array.mem_of_getElem? (trail.fetched fetch inTrail))
  exact Instruction.unbroken_of_notice? (Assembly.writable_of_ofSource loaded _ inProgram) shown

/-- The panel tells what a program has done. Notices whose names have no blanks can be told from
their texts after one another. The names that programs get from sources have none; and so, whatever
programs two runs carry out, on whatever machines, under whatever limits, and wherever their output
goes as long as it does not fail: if both add the same to the output, they have given the same
commands with the same values and waited for the same times up to the same totals, all in the same
order, and one has carried out a halt just if the other has. -/
theorem output_tells_commands :
    (∀ notices others : List Notice, (∀ notice ∈ notices, notice.Unbroken) →
      (∀ notice ∈ others, notice.Unbroken) →
      Notice.texts notices = Notice.texts others → notices = others) ∧
    ∀ (first second : Assembly) (source sourceOther : String),
      first.AssembledFrom source → second.AssembledFrom sourceOther →
      (∀ code ∈ first.program.toList, ∀ actuator, code.instruction = .emit actuator →
        Text.Unbroken actuator) ∧
      ∀ limit limitOther session sessionOther ending endingOther after afterOther fetches others,
        Trail first limit session fetches ending after →
        Trail second limitOther sessionOther others endingOther afterOther →
        ending ≠ .sinkFull → endingOther ≠ .sinkFull →
        ∀ output, after.sink.written = session.sink.written ++ output →
          afterOther.sink.written = sessionOther.sink.written ++ output →
          output = (Notice.texts (Fetch.notices fetches)).toByteArray ∧
          Fetch.notices fetches = Fetch.notices others ∧
          ((∃ fetch ∈ fetches, fetch.code.instruction = .halt) ↔
            ∃ fetch ∈ others, fetch.code.instruction = .halt) := by
  refine ⟨fun notices others => Notice.eq_of_texts, ?_⟩
  intro first second source sourceOther assembled assembledOther
  refine ⟨?_, ?_⟩
  · obtain ⟨limits, name, log, _, loaded⟩ := assembled
    intro code member actuator command
    have writable := Assembly.writable_of_ofSource loaded code member
    rw [command] at writable
    exact Text.Plain.unbroken writable
  · intro limit limitOther session sessionOther ending endingOther after afterOther fetches others
      trail trailOther unfailed unfailedOther output added addedOther
    have said : output = (Notice.texts (Fetch.notices fetches)).toByteArray :=
      ByteArray.append_right_inj _ |>.1 (added.symm.trans (trail.written unfailed))
    have saidOther : output = (Notice.texts (Fetch.notices others)).toByteArray :=
      ByteArray.append_right_inj _ |>.1 (addedOther.symm.trans (trailOther.written unfailedOther))
    have same : Fetch.notices fetches = Fetch.notices others :=
      Notice.eq_of_texts (trail.unbroken_notices assembled)
        (trailOther.unbroken_notices assembledOther)
        (String.toByteArray_inj.1 (said.symm.trans saidOther))
    refine ⟨said, same, ?_⟩
    rw [← Fetch.halted_mem_notices_iff, ← Fetch.halted_mem_notices_iff, same]

/-- A command without a name and one to a name that looks like a part of a notice. Another program
that gives them too has done nothing else that the panel shows. -/
theorem output_tells_commands_odd_names :
    ∃ (first second : Assembly) (fetches others : List Fetch) (after afterOther : Session),
      first.AssembledFrom "EMIT\nEMIT =\nHALT\n" ∧
      second.AssembledFrom "EMIT\nALLOC x\nEMIT =\nHALT\n" ∧
      Trail first none (start (.initial {}) (.empty none) #[]) fetches .normal after ∧
      Trail second (some 9) (start (.initial {}) (.empty none) #[]) others .normal afterOther ∧
      fetches.length = 3 ∧ others.length = 4 ∧ after.sink.written = afterOther.sink.written ∧
      Fetch.notices fetches = Fetch.notices others := by
  let output := String.toByteArray <| "[EMIT]  = 0\n  -> Actuator '': 0\n" ++
    "[EMIT] = = 0\n  -> Actuator '=': 0\n" ++ "[HALT] program finished\n"
  obtain ⟨first, fetches, after, assembled, trail, length, written⟩ :
      ∃ first fetches after, Assembly.AssembledFrom first "EMIT\nEMIT =\nHALT\n" ∧
        Trail first none (start (.initial {}) (.empty none) #[]) fetches .normal after ∧
        fetches.length = 3 ∧ after.sink.written = output :=
    ⟨⟨"first", #[⟨.emit "", 1⟩, ⟨.emit "=", 2⟩, ⟨.halt, 3⟩], .empty⟩, _, _,
      ⟨{}, _, #[], #[], rfl⟩, .next rfl (.next rfl (.last rfl)), rfl, rfl⟩
  obtain ⟨second, others, afterOther, assembledOther, trailOther, lengthOther, writtenOther⟩ :
      ∃ second others after, Assembly.AssembledFrom second "EMIT\nALLOC x\nEMIT =\nHALT\n" ∧
        Trail second (some 9) (start (.initial {}) (.empty none) #[]) others .normal after ∧
        others.length = 4 ∧ after.sink.written = output :=
    ⟨⟨"second", #[⟨.emit "", 1⟩, ⟨.alloc "x", 2⟩, ⟨.emit "=", 3⟩, ⟨.halt, 4⟩], .empty⟩, _, _,
      ⟨{}, _, #[], #[], rfl⟩, .next rfl (.next rfl (.next rfl (.last rfl))), rfl, rfl⟩
  obtain ⟨-, tells⟩ := output_tells_commands.2 first second _ _ assembled assembledOther
  have all (bytes : ByteArray) : bytes = (Sink.empty none).written ++ bytes :=
    ByteArray.empty_append.symm
  obtain ⟨-, same, -⟩ := tells _ _ _ _ _ _ _ _ _ _ trail trailOther (by decide) (by decide) output
    (written.trans (all output)) (writtenOther.trans (all output))
  exact ⟨first, second, fetches, others, after, afterOther, assembled, assembledOther, trail,
    trailOther, length, lengthOther, written.trans writtenOther.symm, same⟩

end Session

end WashController
