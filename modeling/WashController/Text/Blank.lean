/-!
# Blanks and words

A blank is any character with the Unicode property White_Space; a word is a longest run of other
characters. A blank is a clean cut (`words_append_blank`): the words of a text are the words before
it and the words after it. So trimming loses no word (`words_trim`), and what is left of a text
after trimming has a word unless nothing is left (`words_eq_nil_iff`, `trim_eq_nil_iff`).
-/

namespace WashController.Text

/-- The characters with the Unicode property White_Space, as closed ranges of code points. -/
def blankRanges : List (Nat × Nat) :=
  [(0x9, 0xD), (0x20, 0x20), (0x85, 0x85), (0xA0, 0xA0), (0x1680, 0x1680), (0x2000, 0x200A),
    (0x2028, 0x2029), (0x202F, 0x202F), (0x205F, 0x205F), (0x3000, 0x3000)]

/-- Blanks separate words. Zero-width characters and the information separators are no blanks. -/
def isBlank (char : Char) : Bool :=
  blankRanges.any fun range => range.1 ≤ char.toNat && char.toNat ≤ range.2

/-- The property holds of 25 characters. -/
example : (blankRanges.map fun range => range.2 - range.1 + 1).sum = 25 := by decide

/-- The longest runs of characters that are not blank, in order. -/
def words (text : List Char) : List (List Char) :=
  (text.splitOnP isBlank).filter (! ·.isEmpty)

@[simp]
theorem words_nil : words [] = [] := rfl

/-- A blank cuts a text into two texts whose words are independent. -/
theorem words_append_blank (before after : List Char) {blank : Char}
    (isBlank : isBlank blank = true) :
    words (before ++ blank :: after) = words before ++ words after := by
  simp [words, List.splitOnP_append_cons before after isBlank]

/-- A text without blanks is one word, or none if it is empty. -/
theorem words_of_no_blank {text : List Char} (noBlank : ∀ char ∈ text, isBlank char = false) :
    words text = if text.isEmpty then [] else [text] := by
  rw [words, List.splitOnP_eq_singleton noBlank]
  cases text <;> simp

/-- A text that starts with a character that is not blank has a word that starts with it. -/
theorem words_cons_of_visible {char : Char} (visible : isBlank char = false) (text : List Char) :
    ∃ rest more, words (char :: text) = (char :: rest) :: more := by
  rw [words, List.splitOnP_cons_eq_if_modifyHead]
  cases pieces : text.splitOnP isBlank with
  | nil => exact absurd pieces (List.splitOnP_ne_nil isBlank text)
  | cons piece rest => simp [visible]

/-- Only blanks hold no word. -/
theorem words_eq_nil_iff {text : List Char} :
    words text = [] ↔ ∀ char ∈ text, isBlank char = true := by
  induction text with
  | nil => simp
  | cons char text ih =>
    cases visible : isBlank char with
    | true => simpa [visible, ih] using congrArg (· = []) (words_append_blank [] text visible)
    | false =>
        obtain ⟨rest, more, some⟩ := words_cons_of_visible visible text
        simp [some, visible]

theorem of_mem_splitOnP {text piece : List Char} (member : piece ∈ text.splitOnP isBlank) :
    ∀ char ∈ piece, char ∈ text ∧ isBlank char = false := by
  induction text generalizing piece with
  | nil =>
      obtain rfl : piece = [] := by simpa using member
      simp
  | cons first text ih =>
      have later {other : List Char} (member : other ∈ text.splitOnP isBlank) :
          ∀ char ∈ other, char ∈ first :: text ∧ isBlank char = false :=
        fun char inPiece => ⟨List.mem_cons_of_mem first (ih member char inPiece).1,
          (ih member char inPiece).2⟩
      rw [List.splitOnP_cons_eq_if_modifyHead] at member
      cases visible : isBlank first with
      | true =>
          rw [if_pos visible] at member
          rcases List.mem_cons.1 member with rfl | member
          · simp
          · exact later member
      | false =>
          obtain ⟨piece, pieces, split⟩ :=
            List.exists_cons_of_ne_nil (List.splitOnP_ne_nil isBlank text)
          rw [if_neg (by simp [visible]), split, List.modifyHead_cons] at member
          rcases List.mem_cons.1 member with rfl | member
          · rw [List.forall_mem_cons]
            exact ⟨⟨List.mem_cons_self, visible⟩, later (split ▸ List.mem_cons_self)⟩
          · exact later (split ▸ List.mem_cons_of_mem piece member)

/-- A word is a part of the text, is not empty, and has no blanks. -/
theorem of_mem_words {text word : List Char} (member : word ∈ words text) :
    word ≠ [] ∧ ∀ char ∈ word, char ∈ text ∧ isBlank char = false := by
  obtain ⟨piece, nonempty⟩ := List.mem_filter.1 member
  exact ⟨by simpa using nonempty, of_mem_splitOnP piece⟩

/-- Tokens with a blank between each two are the words of the text, except for empty tokens. -/
theorem words_intercalate {blank : Char} (blank_isBlank : isBlank blank = true)
    {tokens : List (List Char)}
    (visible : ∀ token ∈ tokens, ∀ char ∈ token, isBlank char = false) :
    words ([blank].intercalate tokens) = tokens.filter (! ·.isEmpty) := by
  induction tokens with
  | nil => simp
  | cons token tokens ih =>
      obtain ⟨first, rest⟩ := List.forall_mem_cons.1 visible
      have alone : words token = [token].filter (! ·.isEmpty) := by
        rw [words_of_no_blank first]
        cases token <;> rfl
      cases tokens with
      | nil => rw [List.intercalate_singleton, alone]
      | cons second tokens =>
          rw [List.intercalate_cons_cons, List.append_assoc, List.singleton_append,
            words_append_blank token _ blank_isBlank, ih rest, alone, ← List.filter_append,
            List.singleton_append]

/-! ## Trimming -/

/-- A text without the blanks at either end. -/
def trim (text : List Char) : List Char :=
  ((text.dropWhile isBlank).reverse.dropWhile isBlank).reverse

theorem words_dropWhile (text : List Char) : words (text.dropWhile isBlank) = words text := by
  induction text with
  | nil => rfl
  | cons char text ih =>
    cases blank : isBlank char with
    | true => simpa [blank, ih] using (words_append_blank [] text blank).symm
    | false => simp [blank]

theorem words_reverse_dropWhile (text : List Char) :
    words (text.dropWhile isBlank).reverse = words text.reverse := by
  induction text with
  | nil => rfl
  | cons char text ih =>
    cases blank : isBlank char with
    | true => simpa [blank, ih] using (words_append_blank text.reverse [] blank).symm
    | false => simp [blank]

/-- Blanks at the ends of a text make no difference to its words. -/
theorem words_trim (text : List Char) : words (trim text) = words text := by
  rw [trim, words_reverse_dropWhile, List.reverse_reverse, words_dropWhile]

/-- Nothing is left of a text of blanks, and something of any other text. -/
theorem trim_eq_nil_iff {text : List Char} :
    trim text = [] ↔ ∀ char ∈ text, isBlank char = true := by
  refine ⟨fun empty => ?_, fun blank => ?_⟩
  · rw [← words_eq_nil_iff, ← words_trim, empty, words_nil]
  · have dropped : (text ++ []).dropWhile isBlank = [].dropWhile isBlank :=
      List.dropWhile_append_of_pos blank
    rw [trim, ← List.append_nil text, dropped]
    rfl

/-- Trimming takes characters away at the ends only. -/
theorem prefix_trim (text : List Char) : trim text <+: text.dropWhile isBlank := by
  rw [trim, ← List.reverse_suffix, List.reverse_reverse]
  exact List.dropWhile_suffix isBlank

theorem mem_of_mem_trim {text : List Char} {char : Char} (member : char ∈ trim text) :
    char ∈ text :=
  (List.dropWhile_sublist isBlank).subset ((prefix_trim text).subset member)

/-- A trimmed text starts with a character that is not blank. -/
theorem isBlank_of_trim_eq_cons {text rest : List Char} {char : Char}
    (trimmed : trim text = char :: rest) : isBlank char = false := by
  obtain ⟨more, dropped⟩ := trimmed ▸ prefix_trim text
  have first := List.head?_dropWhile_not isBlank text
  rwa [← dropped] at first

/-- What a text starts with stays, if it is not blank. -/
theorem trim_cons_of_visible {char : Char} (visible : isBlank char = false) (text : List Char) :
    ∃ rest, trim (char :: text) = char :: rest := by
  have kept := prefix_trim (char :: text)
  rw [List.dropWhile_cons_of_neg (by simp [visible])] at kept
  cases trimmed : trim (char :: text) with
  | nil =>
      have blank := trim_eq_nil_iff.1 trimmed char List.mem_cons_self
      rw [visible] at blank
      cases blank
  | cons first rest =>
      rw [trimmed, List.cons_prefix_cons] at kept
      exact ⟨rest, by rw [kept.1]⟩

/-! ## Single words -/

/-- The word at a position, or the empty text where there are not so many words. -/
def wordAt (words : List (List Char)) (position : Nat) : String :=
  String.ofList (words.getD position [])

end WashController.Text
