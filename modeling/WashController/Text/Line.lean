/-!
# Lines

A line ends at a line feed, or at a carriage return that a line feed follows; the end is not part
of the line. Text after the last line feed is a line only if there is any. Text that ends in a line
feed can be put in front of any other text without touching that text's lines
(`lines_append_feed`), and then the lines of both are just the lines of the one and of the other
(`lines_append_of_feed`).
-/

namespace WashController.Text

/-- A line without the carriage return that belongs to its end. -/
def dropReturn (line : List Char) : List Char :=
  if line.getLast? = some '\r' then line.dropLast else line

/-- The lines of a text, without their ends. A carriage return that no line feed follows stays part
of its line. -/
def lines (text : List Char) : List (List Char) :=
  let pieces := text.splitOn '\n'
  let ended := pieces.dropLast.map dropReturn
  match pieces.getLast? with
  | some [] | none => ended
  | some last => ended ++ [last]

@[simp]
theorem lines_nil : lines [] = [] := rfl

/-- What stands before a line feed has its own lines, whatever follows. -/
theorem lines_append_feed (before after : List Char) :
    lines (before ++ '\n' :: after) = (before.splitOn '\n').map dropReturn ++ lines after := by
  have nonempty : after.splitOn '\n' ≠ [] := List.splitOn_ne_nil '\n' after
  simp only [lines, List.splitOn_append_cons_self, List.getLast?_append,
    List.dropLast_append_of_ne_nil nonempty, List.map_append]
  cases last : (after.splitOn '\n').getLast? with
  | none => exact absurd (List.getLast?_eq_none_iff.1 last) nonempty
  | some line =>
    cases line with
    | nil => simp
    | cons => simp

/-- A text that ends in a line feed ends in the end of a line. -/
theorem lines_append_of_feed (before after : List Char) :
    lines (before ++ '\n' :: after) = lines (before ++ ['\n']) ++ lines after := by
  rw [lines_append_feed, lines_append_feed before [], lines_nil, List.append_nil]

/-- Texts with a line feed between each two are the lines of the whole, if they do not contain line
feeds, do not end in carriage returns and are not empty. -/
theorem lines_intercalate {texts : List (List Char)}
    (whole : ∀ text ∈ texts, '\n' ∉ text ∧ text.getLast? ≠ some '\r' ∧ text ≠ []) :
    lines (['\n'].intercalate texts) = texts := by
  rcases List.eq_nil_or_concat texts with rfl | ⟨earlier, last, rfl⟩
  · rfl
  · rw [List.concat_eq_append] at whole ⊢
    have split : (['\n'].intercalate (earlier ++ [last])).splitOn '\n' = earlier ++ [last] :=
      List.splitOn_intercalate '\n' (fun text member => (whole text member).1) (by simp)
    have kept : earlier.map dropReturn = earlier := by
      refine (List.map_congr_left fun text member => ?_).trans (List.map_id earlier)
      exact if_neg (whole text (List.mem_append_left [last] member)).2.1
    have nonempty : last ≠ [] :=
      (whole last (List.mem_append_right earlier List.mem_cons_self)).2.2
    simp only [lines, split, List.dropLast_concat, kept, List.getLast?_concat]

end WashController.Text
