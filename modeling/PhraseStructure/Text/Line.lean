/-! The lines of a text.  A line ends at a line feed, and one carriage return directly before that
line feed belongs to the line's end.  Every other carriage return stays in its line, the last
character of a text without a final line feed included. -/

namespace PhraseStructure.Text

/-- The lines of a text, without their ends.  A final line feed starts no further line. -/
def lines : List Char → List (List Char)
  | [] => []
  | '\n' :: rest => [] :: lines rest
  | '\r' :: '\n' :: rest => [] :: lines rest
  | c :: rest =>
    match lines rest with
    | [] => [[c]]
    | line :: more => (c :: line) :: more

@[simp] theorem lines_nil : lines [] = [] := rfl

@[simp] theorem lines_feed (rest : List Char) : lines ('\n' :: rest) = [] :: lines rest := rfl

@[simp] theorem lines_return_feed (rest : List Char) :
    lines ('\r' :: '\n' :: rest) = [] :: lines rest := rfl

/-- Any other character stands at the beginning of the line that follows it. -/
theorem lines_char {c : Char} {rest : List Char} (hfeed : c ≠ '\n')
    (hreturn : ∀ more, c = '\r' → rest ≠ '\n' :: more) :
    lines (c :: rest) =
      match lines rest with
      | [] => [[c]]
      | line :: more => (c :: line) :: more := by
  rw [lines]
  · exact hfeed
  · exact fun more hc hrest => hreturn more hc hrest

/-- A text with a character in it has a line. -/
theorem lines_ne_nil {cs : List Char} (h : cs ≠ []) : lines cs ≠ [] := by
  unfold lines
  split
  · exact absurd rfl h
  · simp
  · simp
  · split <;> simp

theorem eq_nil_of_lines_eq_nil {cs : List Char} (h : lines cs = []) : cs = [] :=
  Decidable.not_not.mp fun hne => lines_ne_nil hne h

theorem ne_nil_of_lines_eq_cons {cs line : List Char} {more : List (List Char)}
    (h : lines cs = line :: more) : cs ≠ [] := by
  rintro rfl
  simp at h

end PhraseStructure.Text
