import WashController.Proofs.Entries
import WashController.Proofs.Reassembly

/-!
# Listings can be read

What an assembly is can be told from its listing and its name. A listing has the text of its
entries after one another, and an entry whose names could stand in a source is `Legible`: it is a
line (`exists_toList_text_eq`), and it can be told from every other entry (`eq_of_text`). For that,
the line of a label goes on with something visible after its first space, and the line of an
instruction does not; its address ends at the first bracket, and its last space stands before the
number of its source line. Between the two is the text of the instruction, and the blanks that fill
up its column make no difference to its words. So the entries can be read off (`eq_of_join_text`),
and with them the program and the labels (`listing_determines`).
-/

namespace WashController

namespace Text

/-! ## Cuts -/

variable {mark : Char} {before after other rest : List Char}

/-- The first place of a character can be told. -/
theorem cut_at_first (absent : mark ∉ before) (absentOther : mark ∉ other)
    (same : before ++ mark :: after = other ++ mark :: rest) : before = other ∧ after = rest := by
  induction before generalizing other with
  | nil =>
      cases other with
      | nil => exact ⟨rfl, List.tail_eq_of_cons_eq same⟩
      | cons char other =>
          exact absurd (List.head_eq_of_cons_eq same ▸ List.mem_cons_self) absentOther
  | cons char before ih =>
      cases other with
      | nil => exact absurd (List.head_eq_of_cons_eq same ▸ List.mem_cons_self) absent
      | cons first other =>
          obtain ⟨rfl, tails⟩ := List.cons.inj same
          obtain ⟨rfl, rfl⟩ := ih (List.not_mem_of_not_mem_cons absent)
            (List.not_mem_of_not_mem_cons absentOther) tails
          exact ⟨rfl, rfl⟩

/-- The last place of a character can be told. -/
theorem cut_at_last (absent : mark ∉ after) (absentRest : mark ∉ rest)
    (same : before ++ mark :: after = other ++ mark :: rest) : before = other ∧ after = rest := by
  have reversed :
      after.reverse ++ mark :: before.reverse = rest.reverse ++ mark :: other.reverse := by
    simpa using congrArg List.reverse same
  obtain ⟨later, earlier⟩ := cut_at_first (mt List.mem_reverse.1 absent)
    (mt List.mem_reverse.1 absentRest) reversed
  exact ⟨List.reverse_inj.1 earlier, List.reverse_inj.1 later⟩

/-! ## Columns -/

theorem not_mem_repr (noDigit : mark.isDigit = false) (number : Nat) :
    mark ∉ number.repr.toList := by
  intro member
  rw [isDigit_of_mem_repr member] at noDigit
  cases noDigit

theorem not_mem_index (noDigit : mark.isDigit = false) (position : Nat) :
    mark ∉ (index position).toList := by
  rw [index, padLeft, String.toList_ofList, List.leftpad, List.mem_append]
  rintro (filled | member)
  · rw [List.eq_of_mem_replicate filled] at noDigit
    cases noDigit
  · exact not_mem_repr noDigit position member

/-- Zeros in front make no difference to a number. -/
theorem index_inj {position next : Nat} : index position = index next ↔ position = next := by
  have value (number : Nat) : Nat.ofDigitChars 10 (index number).toList 0 = number := by
    simp [index, padLeft, List.leftpad, Nat.ofDigitChars_append, Nat.ofDigitChars_replicate_zero]
  refine ⟨fun same => ?_, congrArg index⟩
  rw [← value position, same, value]

/-- The spaces that fill up a column are not part of any word. -/
theorem words_padRight (width : Nat) (text : String) :
    words (padRight width text).toList = words text.toList := by
  rw [padRight, String.toList_ofList, List.rightpad]
  induction width - text.toList.length with
  | zero => simp
  | succ more ih =>
      rw [List.replicate_succ', ← List.append_assoc, words_append_blank _ [] (by decide), ih,
        words_nil, List.append_nil]

theorem not_mem_padRight {width : Nat} {text : String} (visible : mark ≠ ' ')
    (absent : mark ∉ text.toList) : mark ∉ (padRight width text).toList := by
  rw [padRight, String.toList_ofList, List.rightpad, List.mem_append]
  rintro (member | filled)
  · exact absent member
  · exact visible (List.eq_of_mem_replicate filled)

end Text

namespace Assembly

/-! ## Entries -/

theorem toList_labelRow (name : String) :
    (labelRow name).toList = ' ' :: (name.toList ++ [':']) ++ ['\n'] := by
  simp [labelRow]

theorem toList_codeRow (address : Nat) (line : CodeLine) :
    (codeRow address line).toList =
      [' ', ' ', '['] ++ ((Text.index address).toList ++ ']' ::
        (' ' :: (Text.padRight 24 line.instruction.text).toList ++ " ; line".toList ++ ' ' ::
          line.line.repr.toList)) ++ ['\n'] := by
  simp [codeRow]

theorem labelRow_ne_codeRow {name : String} (plain : Text.Plain name) (address : Nat)
    (line : CodeLine) : labelRow name ≠ codeRow address line := by
  intro same
  have chars := congrArg String.toList same
  rw [toList_labelRow, toList_codeRow] at chars
  -- The character after the first space is the one that differs.
  cases name_eq : name.toList with
  | nil =>
      rw [name_eq] at chars
      cases List.head_eq_of_cons_eq (List.tail_eq_of_cons_eq chars)
  | cons first rest =>
      rw [name_eq] at chars
      obtain rfl : first = ' ' := List.head_eq_of_cons_eq (List.tail_eq_of_cons_eq chars)
      cases (plain ' ' (by simp [name_eq])).1

theorem codeRow_inj {address other : Nat} {line another : CodeLine}
    (writable : line.instruction.Writable) (writableOther : another.instruction.Writable)
    (same : codeRow address line = codeRow other another) : address = other ∧ line = another := by
  have chars := congrArg String.toList same
  rw [toList_codeRow, toList_codeRow, List.append_cancel_right_eq,
    List.append_cancel_left_eq] at chars
  -- What is between the two cuts may hold brackets, spaces and semicolons of its own.
  obtain ⟨addresses, chars⟩ :=
    Text.cut_at_first (Text.not_mem_index rfl address) (Text.not_mem_index rfl other) chars
  obtain ⟨columns, numbers⟩ :=
    Text.cut_at_last (Text.not_mem_repr rfl line.line) (Text.not_mem_repr rfl another.line) chars
  have texts : Text.padRight 24 line.instruction.text =
      Text.padRight 24 another.instruction.text :=
    String.toList_inj.1 (List.tail_eq_of_cons_eq (List.append_cancel_right columns))
  have instructions : line.instruction = another.instruction := by
    refine Instruction.eq_of_words_text writable writableOther ?_
    rw [← Text.words_padRight 24, texts, Text.words_padRight]
  have lines : line.line = another.line := Text.repr_inj.1 (String.toList_inj.1 numbers)
  refine ⟨Text.index_inj.1 (String.toList_inj.1 addresses), ?_⟩
  cases line
  cases another
  cases instructions
  cases lines
  rfl

namespace Entry

/-- Whether what an entry names could stand in a source. -/
def Legible : Entry → Prop
  | label name => Text.Plain name
  | code _ line => line.instruction.Writable

variable {entry another : Entry}

/-- An entry is a line. -/
theorem exists_toList_text_eq (legible : entry.Legible) :
    ∃ line, '\n' ∉ line ∧ entry.text.toList = line ++ ['\n'] := by
  cases entry with
  | label name =>
      refine ⟨_, ?_, toList_labelRow name⟩
      have absent : '\n' ∉ name.toList := fun member => by
        cases (legible '\n' member).1
      simp [absent]
  | code address line =>
      refine ⟨_, ?_, toList_codeRow address line⟩
      have inAddress : '\n' ∉ (Text.index address).toList := Text.not_mem_index rfl address
      have inText : '\n' ∉ line.instruction.text.toList :=
        Instruction.not_mem_text legible (by decide) (by decide)
      have inColumn : '\n' ∉ (Text.padRight 24 line.instruction.text).toList :=
        Text.not_mem_padRight (by decide) inText
      have inNumber : '\n' ∉ line.line.repr.toList := Text.not_mem_repr rfl line.line
      simpa [inAddress, inColumn] using inNumber

/-- An entry can be told from its text. -/
theorem eq_of_text (legible : entry.Legible) (legibleOther : another.Legible)
    (same : entry.text = another.text) : entry = another := by
  cases entry with
  | label name =>
      cases another with
      | label other => exact congrArg label (by simpa [text, labelRow] using same)
      | code => exact absurd same (labelRow_ne_codeRow legible _ _)
  | code address line =>
      cases another with
      | label => exact absurd same.symm (labelRow_ne_codeRow legibleOther _ _)
      | code =>
          obtain ⟨rfl, rfl⟩ := codeRow_inj legible legibleOther same
          rfl

/-- Entries can be told from their texts after one another. -/
theorem eq_of_join_text {entries others : List Entry} (legible : ∀ entry ∈ entries, entry.Legible)
    (legibleOthers : ∀ entry ∈ others, entry.Legible)
    (same : String.join (entries.map text) = String.join (others.map text)) : entries = others := by
  have written {entry : Entry} {line : List Char} (ended : entry.text.toList = line ++ ['\n'])
      (rest : List Entry) : (String.join ((entry :: rest).map text)).toList =
        line ++ '\n' :: (String.join (rest.map text)).toList := by
    rw [List.map_cons, String.join_cons, String.toList_append, ended, List.append_assoc]
    rfl
  induction entries generalizing others with
  | nil =>
      cases others with
      | nil => rfl
      | cons other others =>
          obtain ⟨line, -, ended⟩ :=
            exists_toList_text_eq (legibleOthers other List.mem_cons_self)
          have chars := congrArg String.toList same
          rw [written ended] at chars
          simp at chars
  | cons entry entries ih =>
      obtain ⟨legibleEntry, legible⟩ := List.forall_mem_cons.1 legible
      obtain ⟨line, oneLine, ended⟩ := exists_toList_text_eq legibleEntry
      have chars := congrArg String.toList same
      rw [written ended] at chars
      cases others with
      | nil => simp at chars
      | cons other others =>
          obtain ⟨legibleOther, legibleOthers⟩ := List.forall_mem_cons.1 legibleOthers
          obtain ⟨otherLine, otherOneLine, otherEnded⟩ := exists_toList_text_eq legibleOther
          rw [written otherEnded] at chars
          obtain ⟨rfl, rests⟩ := Text.cut_at_first oneLine otherOneLine chars
          have first : entry = other := eq_of_text legibleEntry legibleOther
            (String.toList_inj.1 (ended.trans otherEnded.symm))
          rw [first, ih legible legibleOthers (String.toList_inj.1 rests)]

end Entry

/-! ## Assemblies -/

variable {limits limitsOther : Limits} {name nameOther source sourceOther : String}
  {log after logOther afterOther : Log} {assembly first second : Assembly}

/-- The name of a label that a source declares could stand in a source. -/
theorem plain_of_get? (loaded : ofSource limits name source log = .ok assembly after)
    {label : String} {address : Nat} (found : assembly.labels.get? label = some address) :
    Text.Plain label := by
  obtain ⟨line, -, declared⟩ := exists_declares_of_get? loaded found
  exact SourceLine.plain_of_declares declared

theorem legible_of_ofSource (loaded : ofSource limits name source log = .ok assembly after) :
    ∀ entry ∈ assembly.entries, entry.Legible := by
  intro entry member
  cases entry with
  | label label =>
      obtain ⟨place, placed⟩ := Entry.exists_mem_places 0 member
      rw [places_entries] at placed
      obtain ⟨⟨label, offset⟩, sorted, same⟩ := List.mem_map.1 placed
      cases same
      exact plain_of_get? loaded (LabelTable.mem_sorted.1 sorted)
  | code address line =>
      have inProgram : line ∈ assembly.program.toList := by
        rw [← codes_entries]
        exact List.mem_filterMap.2 ⟨_, member, rfl⟩
      exact writable_of_ofSource loaded line inProgram

/-- What is below the head of a listing. -/
theorem toList_listing (assembly : Assembly) :
    assembly.listing.toList = ("Assembly '" ++ assembly.name ++ "' - ").toList ++
      (assembly.size.repr.toList ++ ' ' ::
        ("instructions:\n".toList ++ (String.join assembly.rows).toList)) := by
  simp [listing]

/-- Labels within a program stand in its listing at what they point at. -/
theorem places_of_ofSource (loaded : ofSource limits name source log = .ok assembly after) :
    Entry.places 0 assembly.entries = assembly.labels.sorted := by
  rw [places_entries]
  refine (List.map_congr_left fun label member => ?_).trans (List.map_id _)
  have within := le_size_of_get? loaded (LabelTable.mem_sorted.1 member)
  simp [within]

/-- A listing tells everything. Two assemblies of one name that are read from sources, whatever
these are and whatever limits they keep to, have the same listing only if they have the same
instructions, from the same lines, and the same labels at the same addresses. -/
theorem listing_determines (loaded : ofSource limits name source log = .ok first after)
    (loadedOther : ofSource limitsOther nameOther sourceOther logOther = .ok second afterOther)
    (sameName : first.name = second.name) (same : first.listing = second.listing) :
    first.program = second.program ∧ first.labels = second.labels := by
  have rows : String.join first.rows = String.join second.rows := by
    have chars := congrArg String.toList same
    rw [toList_listing, toList_listing, sameName, List.append_cancel_left_eq] at chars
    obtain ⟨-, below⟩ := Text.cut_at_first (Text.not_mem_repr rfl _) (Text.not_mem_repr rfl _) chars
    exact String.toList_inj.1 (List.append_cancel_left below)
  rw [rows_eq, rows_eq] at rows
  have entries : first.entries = second.entries :=
    Entry.eq_of_join_text (legible_of_ofSource loaded) (legible_of_ofSource loadedOther) rows
  refine ⟨?_, LabelTable.ext fun label => Option.ext fun address => ?_⟩
  · rw [← Array.toList_inj, ← codes_entries, entries, codes_entries]
  · rw [← LabelTable.mem_sorted, ← LabelTable.mem_sorted, ← places_of_ofSource loaded, entries,
      places_of_ofSource loadedOther]

/-- A label that looks like an address, and spaces, signs and further words that are not shown. -/
theorem listing_determines_bracket_name :
    ∃ first second : Assembly,
      ofSource {} "odd" "[1];:\nPUSHI 1\nJMP [1];\nend:\n" #[] = .ok first #[] ∧
      ofSource { maxLabels := 2 } "odd" "  [1]; : loop\n PUSHI\t+1 one\nJMP  [1]; ;\nend :" #[] =
        .ok second #[] ∧
      first.listing = second.listing ∧
      first.program = second.program ∧ first.labels = second.labels := by
  let shown : Assembly :=
    ⟨"odd", #[⟨.pushLiteral 1, 2⟩, ⟨.jump .always "[1];", 3⟩], ⟨{("end", 2), ("[1];", 0)}⟩⟩
  have loaded : ofSource {} "odd" "[1];:\nPUSHI 1\nJMP [1];\nend:\n" #[] = .ok shown #[] := rfl
  have loadedOther : ofSource { maxLabels := 2 } "odd"
      "  [1]; : loop\n PUSHI\t+1 one\nJMP  [1]; ;\nend :" #[] = .ok shown #[] := rfl
  exact ⟨shown, shown, loaded, loadedOther, rfl, listing_determines loaded loadedOther rfl rfl⟩

end Assembly

end WashController
