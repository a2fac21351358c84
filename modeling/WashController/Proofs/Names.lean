import WashController.Proofs.Causes
import WashController.Proofs.Concatenation
import WashController.Proofs.Literals
import WashController.Proofs.Reassembly
import WashController.Proofs.Trail

/-!
# Names of labels

A name is read in two places, and in two ways: a label line declares the first word before its
first colon, and a jump goes to the second word of a line that has no colon at all. The names that
can be declared are the same in every source (`SourceLine.Declarable`): no line declares any other
(`declarable_of_declares`), and each of them has a line that declares it (`declares_declaration`)
and a line that jumps to it (`spelled_jumpLine`). This goes for the empty name too. A jump can be
written to one kind of name more, for a number sign makes no comment of a line that it stands inside
of. Nobody can declare such a name, and a jump to it is a fault when it is taken.
-/

namespace WashController

/-- Nothing is trimmed from a text without blanks. -/
theorem Text.trim_of_no_blank {text : List Char} (visible : ∀ char ∈ text, isBlank char = false) :
    trim text = text := by
  have kept {text : List Char} (visible : ∀ char ∈ text, isBlank char = false) :
      text.dropWhile isBlank = text :=
    dropWhile_append_of_run (List.forall_mem_nil _)
      fun char first => visible char (List.mem_of_mem_head? first)
  have reversed : ∀ char ∈ text.reverse, isBlank char = false :=
    fun char member => visible char (List.mem_reverse.1 member)
  rw [trim, kept visible, kept reversed, List.reverse_reverse]

namespace SourceLine

/-- Whether a text can be the name of a label: it has no blanks and no colons, and does not start
with a number sign. It may be empty. -/
def Declarable (name : String) : Prop :=
  Text.Plain name ∧ name.toList.head? ≠ some '#'

instance (name : String) : Decidable (Declarable name) :=
  inferInstanceAs (Decidable (_ ∧ _))

/-- The line that declares a name and has nothing else on it. -/
def declaration (name : String) : List Char :=
  name.toList ++ [':']

/-- The line of a jump to a name. Nothing follows the opcode if the name is empty. -/
def jumpLine (name : String) : List Char :=
  if name = "" then "JMP".toList else "JMP ".toList ++ name.toList

variable {name : String}

/-- Whatever a line declares can be declared. -/
theorem declarable_of_declares {line : List Char} (declared : Declares line name) :
    Declarable name := by
  refine ⟨plain_of_declares declared, ?_⟩
  obtain ⟨notComment, colon, rfl⟩ := declared
  cases trimmed : Text.trim line with
  | nil =>
      rw [trimmed] at colon
      cases colon
  | cons first rest =>
      rw [trimmed, List.head?_cons] at notComment
      by_cases isColon : first = ':'
      · -- There is no word before a colon at the start.
        simp [isColon, Text.wordAt]
      · -- The name starts as the line does.
        rw [List.takeWhile_cons_of_pos (by simpa using isColon)]
        obtain ⟨word, more, words⟩ := Text.words_cons_of_visible
          (Text.isBlank_of_trim_eq_cons trimmed) (rest.takeWhile (· ≠ ':'))
        rw [words]
        simpa [Text.wordAt] using notComment

/-- A name that can be declared is declared by the line made for it. -/
theorem declares_declaration (declarable : Declarable name) :
    Declares (declaration name) name := by
  obtain ⟨plain, notComment⟩ := declarable
  have visible : ∀ char ∈ declaration name, Text.isBlank char = false := by
    intro char member
    rcases List.mem_append.1 member with inName | mark
    · exact (plain char inName).1
    · obtain rfl := List.mem_singleton.1 mark
      decide
  have before : (declaration name).takeWhile (· ≠ ':') = name.toList :=
    Text.takeWhile_append_of_run (fun char member => by simpa using (plain char member).2)
      (fun char mark => by cases mark; rfl)
  have words : Text.words name.toList = if name.toList.isEmpty then [] else [name.toList] :=
    Text.words_of_no_blank fun char member => (plain char member).1
  refine ⟨?_, ?_, ?_⟩
  · rw [Text.trim_of_no_blank visible, declaration]
    cases chars : name.toList with
    | nil => simp
    | cons first rest => simpa [chars] using notComment
  · rw [Text.trim_of_no_blank visible]
    exact List.mem_append_right _ List.mem_cons_self
  · rw [Text.trim_of_no_blank visible, before, words]
    by_cases unnamed : name = ""
    · subst unnamed
      rfl
    · simp [Text.wordAt, unnamed]

/-- A jump to a plain name can be written, on a line of its own. -/
theorem spelled_jumpLine (plain : Text.Plain name) :
    HoldsCode (jumpLine name) ∧ spelled (jumpLine name) = .jump .always name := by
  by_cases unnamed : name = ""
  · subst unnamed
    exact ⟨by decide, by decide⟩
  · have text : (Instruction.jump .always name).text.toList = jumpLine name := by
      simp [jumpLine, unnamed, Instruction.toList_text, Instruction.tokens, Condition.mnemonic]
    have writable : (Instruction.jump .always name).Writable := plain
    rw [← text]
    exact ⟨Instruction.holdsCode_text writable,
      Instruction.spelled_text_of_named writable (by simp)⟩

end SourceLine

namespace Assembly

variable {limits : Limits} {title source name : String} {log after : Log} {assembly : Assembly}

/-- The names of labels can all be declared. -/
theorem declarable_of_get? (loaded : ofSource limits title source log = .ok assembly after)
    {address : Nat} (found : assembly.labels.get? name = some address) :
    SourceLine.Declarable name := by
  obtain ⟨line, -, declared⟩ := exists_declares_of_get? loaded found
  exact SourceLine.declarable_of_declares declared

/-- A name that can be declared is a label of the program that has no line but its declaration. -/
theorem exists_ofSource_of_declarable (declarable : SourceLine.Declarable name) :
    ∃ assembly after, ofSource {} name (name ++ ":") #[] = .ok assembly after ∧
      ∃ address, assembly.labels.get? name = some address := by
  have oneLine : Text.lines (SourceLine.declaration name) = [SourceLine.declaration name] := by
    have noFeed : '\n' ∉ SourceLine.declaration name := by
      intro feed
      rcases List.mem_append.1 feed with inName | mark
      · exact absurd (declarable.1 _ inName).1 (by decide)
      · cases List.mem_singleton.1 mark
    have whole := Text.lines_intercalate (List.forall_mem_singleton.2
      ⟨noFeed, by simp [SourceLine.declaration], by simp [SourceLine.declaration]⟩)
    rwa [List.intercalate_singleton] at whole
  have said : SourceLine.ofSource (name ++ ":") = [.label name] := by
    have text : (name ++ ":").toList = SourceLine.declaration name := String.toList_append
    rw [SourceLine.ofSource, text, oneLine, List.map_singleton,
      SourceLine.ofText_eq_label_iff.2 (SourceLine.declares_declaration declarable)]
  have fits : SourceLine.Fits {} [.label name] := by
    have names : SourceLine.labelNames [.label name] = {name} := by
      ext other
      simp [eq_comm]
    refine ⟨Nat.zero_le _, ?_⟩
    rw [names, Finset.card_singleton]
    decide
  obtain ⟨assembly, loaded⟩ := exists_ofLines fits name #[]
  exact ⟨assembly, _, by rw [ofSource, said]; exact loaded,
    (exists_get?_iff loaded).2 List.mem_cons_self⟩

/-- In a source with the declaration of a name and with the line of a jump to it, both get to the
program. -/
theorem get?_and_fetch?_of_declarable (declarable : SourceLine.Declarable name)
    (loaded : ofSource limits title source log = .ok assembly after)
    (declared : SourceLine.declaration name ∈ Text.lines source.toList)
    {earlier later : List (List Char)}
    (split : Text.lines source.toList = earlier ++ SourceLine.jumpLine name :: later) :
    (∃ target, assembly.labels.get? name = some target) ∧
      ∃ address, assembly.fetch? address = some ⟨.jump .always name, earlier.length + 1⟩ := by
  obtain ⟨holds, spelled⟩ := SourceLine.spelled_jumpLine declarable.1
  refine ⟨(exists_get?_iff loaded).2 (label_mem_ofSource_iff.2 ?_), ?_⟩
  · exact ⟨_, declared, SourceLine.declares_declaration declarable⟩
  · have next := (fetch?_codeCount loaded split).2 [] _ later rfl (by simp) holds
    rw [spelled, List.length_nil, Nat.add_zero, Nat.add_comm] at next
    exact ⟨_, next⟩

/-- A jump in a program goes to a plain name. -/
theorem plain_of_fetch? (loaded : ofSource limits title source log = .ok assembly after)
    {address line : Nat} {condition : Condition}
    (fetched : assembly.fetch? address = some ⟨.jump condition name, line⟩) :
    Text.Plain name := by
  have member : ⟨.jump condition name, line⟩ ∈ assembly.program.toList :=
    Array.mem_toList_iff.2 (Array.mem_of_getElem? fetched)
  exact writable_of_ofSource loaded _ member

/-- A jump that is taken to a name which cannot be declared ends the run. -/
theorem endsWith_of_not_declarable
    (loaded : ofSource limits title source log = .ok assembly after)
    (undeclarable : ¬ SourceLine.Declarable name) {limit : Option Nat} {session : Session}
    {condition : Condition} {line : Nat}
    (fetched : assembly.fetch? session.machine.counter = some ⟨.jump condition name, line⟩)
    (within : session.limitReached? assembly limit = none)
    (met : condition.Met session.machine.registers.r0) :
    ∃ last, Session.EndsWith assembly limit session (.fault (.undefinedLabel name)) last := by
  have missing : assembly.labels.get? name = none := by
    cases found : assembly.labels.get? name with
    | none => rfl
    | some address => exact absurd (declarable_of_get? loaded found) undeclarable
  have faulted : step assembly session.machine = .error (.undefinedLabel name) session.machine :=
    step_eq_error_iff_lacks.2 ⟨rfl, _, fetched, .label met missing⟩
  exact ⟨_, Session.endsWith_of_turn_eq_error (Session.turn_of_fault within fetched faulted)⟩

/-- Names are the same where they are declared and where they are used. A text is a label of some
program just if it has no blanks and no colons and does not start with a number sign. For each such
name there is a line that declares it, and a line that is decoded to a jump to it; and in a program
with both, wherever a jump to the name is taken, it gets to where the label points. In the other
direction, a jump in a program has a name without blanks and colons. If that name starts with a
number sign, no line of any source declares it, and a run in which the jump is taken ends with a
fault. -/
theorem names_agree (name : String) :
    ((∃ limits title source log assembly after,
        ofSource limits title source log = .ok assembly after ∧
        ∃ address, assembly.labels.get? name = some address) ↔ SourceLine.Declarable name) ∧
    (SourceLine.Declarable name →
      SourceLine.Declares (SourceLine.declaration name) name ∧
      SourceLine.HoldsCode (SourceLine.jumpLine name) ∧
      SourceLine.spelled (SourceLine.jumpLine name) = .jump .always name) ∧
    ∀ limits title source log assembly after,
      ofSource limits title source log = .ok assembly after →
      (SourceLine.Declarable name →
        SourceLine.declaration name ∈ Text.lines source.toList →
        ∀ earlier later, Text.lines source.toList = earlier ++ SourceLine.jumpLine name :: later →
        ∃ target, assembly.labels.get? name = some target ∧
          (∃ address,
            assembly.fetch? address = some ⟨.jump .always name, earlier.length + 1⟩) ∧
          ∀ (machine : Machine Word) condition line,
            assembly.fetch? machine.counter = some ⟨.jump condition name, line⟩ →
            condition.Met machine.registers.r0 →
            step assembly machine = .ok (.jumped target) { machine with counter := target }) ∧
      ∀ address condition line,
        assembly.fetch? address = some ⟨.jump condition name, line⟩ →
        Text.Plain name ∧
        (name.toList.head? = some '#' →
          (∀ text, ¬ SourceLine.Declares text name) ∧
          ∀ limit turns first session,
            Session.advance assembly limit turns first = .ok () session →
            session.machine.counter = address →
            session.limitReached? assembly limit = none →
            condition.Met session.machine.registers.r0 →
            ∃ last,
              Session.EndsWith assembly limit first (.fault (.undefinedLabel name)) last) := by
  refine ⟨⟨?_, ?_⟩, ?_, ?_⟩
  · rintro ⟨limits, title, source, log, assembly, after, loaded, address, found⟩
    exact declarable_of_get? loaded found
  · intro declarable
    obtain ⟨assembly, after, loaded, found⟩ := exists_ofSource_of_declarable declarable
    exact ⟨_, _, _, _, assembly, after, loaded, found⟩
  · intro declarable
    exact ⟨SourceLine.declares_declaration declarable, SourceLine.spelled_jumpLine declarable.1⟩
  · intro limits title source log assembly after loaded
    refine ⟨?_, ?_⟩
    · intro declarable declared earlier later split
      obtain ⟨⟨target, found⟩, jump⟩ :=
        get?_and_fetch?_of_declarable declarable loaded declared split
      refine ⟨target, found, jump, fun machine condition line fetched met => ?_⟩
      exact step_eq_ok_iff.2
        (.inr ⟨_, _, fetched, .jump (Condition.holds_sign_iff.2 met) found, rfl⟩)
    · intro address condition line fetched
      refine ⟨plain_of_fetch? loaded fetched, fun comment => ?_⟩
      have undeclarable : ¬ SourceLine.Declarable name := fun declarable => declarable.2 comment
      refine ⟨fun text declared => undeclarable (SourceLine.declarable_of_declares declared), ?_⟩
      rintro limit turns first session onward rfl within met
      obtain ⟨last, ends⟩ := endsWith_of_not_declarable loaded undeclarable fetched within met
      exact ⟨last, Session.endsWith_of_advance onward ends⟩

/-- The empty name, which is declared and jumped to, and a name that looks like a comment. -/
theorem names_agree_unusual :
    (∃ assembly after target, ofSource {} "empty" ":\nJMP\n" #[] = .ok assembly after ∧
      assembly.labels.get? "" = some target ∧
      step assembly (Machine.initial {} : Machine Word) =
        .ok (.jumped target) { (Machine.initial {} : Machine Word) with counter := target }) ∧
    ∃ assembly after last, ofSource {} "comment" "JMP #x\n" #[] = .ok assembly after ∧
      Session.EndsWith assembly none (.start (.initial {}) (.empty none) #[])
        (.fault (.undefinedLabel "#x")) last := by
  refine ⟨?_, ?_⟩
  · obtain ⟨assembly, after, loaded, fetched⟩ : ∃ assembly after,
        ofSource {} "empty" ":\nJMP\n" #[] = .ok assembly after ∧
          assembly.fetch? 0 = some ⟨.jump .always "", 2⟩ := ⟨_, _, rfl, rfl⟩
    obtain ⟨target, found, -, lands⟩ := ((names_agree "").2.2 _ _ _ _ _ _ loaded).1 (by decide)
      (by decide) [":".toList] [] (by decide)
    exact ⟨assembly, after, target, loaded, found, lands (.initial {}) _ _ fetched trivial⟩
  · obtain ⟨assembly, after, loaded, fetched⟩ : ∃ assembly after,
        ofSource {} "comment" "JMP #x\n" #[] = .ok assembly after ∧
          assembly.fetch? 0 = some ⟨.jump .always "#x", 1⟩ := ⟨_, _, rfl, rfl⟩
    obtain ⟨-, faults⟩ := ((names_agree "#x").2.2 _ _ _ _ _ _ loaded).2 0 _ _ fetched
    let session : Session := .start (.initial {}) (.empty none) #[]
    obtain ⟨last, ends⟩ := (faults (by decide)).2 none 0 session session rfl rfl rfl trivial
    exact ⟨assembly, after, last, loaded, ends⟩

end Assembly

end WashController
