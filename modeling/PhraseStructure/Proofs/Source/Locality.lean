import PhraseStructure.Proofs.Source.Print

/-! Reading is local.  The lines of a text that has ended, followed by any other text, are the lines
of the one and then those of the other.  So what the two texts say together is told from what each
of them says, a malformed line of the second is the same line further down, and the first malformed
line of all is the one reported, whatever comes after it. -/

namespace PhraseStructure

/-! ### Lines of two texts -/

namespace Text

/-- The text is empty or a line feed ends it. -/
def Ended (text : List Char) : Prop := text = [] ∨ text.getLast? = some '\n'

instance : DecidablePred Ended := fun text =>
  inferInstanceAs (Decidable (text = [] ∨ text.getLast? = some '\n'))

variable {text : List Char} {c : Char}

theorem Ended.eq_nil_or_exists (h : Ended text) : text = [] ∨ ∃ front, text = front ++ ['\n'] :=
  h.imp_right List.getLast?_eq_some_iff.mp

theorem lines_append (h : Ended text) (rest : List Char) :
    lines (text ++ rest) = lines text ++ lines rest := by
  rcases h.eq_nil_or_exists with rfl | ⟨front, rfl⟩
  · rfl
  · rw [List.append_assoc, List.singleton_append, lines_append_feed]

theorem length_lines_append_feed (text : List Char) :
    (lines (text ++ ['\n'])).length = text.count '\n' + 1 := by
  fun_induction lines text with
  | case1 => rfl
  | case2 text ih => simp [ih]
  | case3 text ih => simp [ih]
  | case4 c text hfeed _ hlines _ =>
    obtain rfl := eq_nil_of_lines_eq_nil hlines
    by_cases hc : c = '\r'
    · subst hc
      rfl
    · rw [List.singleton_append, lines_char hfeed fun _ h => absurd h hc,
        List.count_cons_of_ne hfeed]
      rfl
  | case5 c text hfeed hreturn line more hlines ih =>
    have hne := ne_nil_of_lines_eq_cons hlines
    rw [List.cons_append, lines_char_append hfeed hreturn hne, List.count_cons_of_ne hfeed, ← ih]
    cases hl : lines (text ++ ['\n']) with
    | nil => exact absurd hl (lines_ne_nil (by simp))
    | cons line more => rfl

/-- Every line of a text that has ended has a line feed of its own. -/
theorem length_lines (h : Ended text) : (lines text).length = text.count '\n' := by
  rcases h.eq_nil_or_exists with rfl | ⟨front, rfl⟩
  · rfl
  · rw [length_lines_append_feed]
    simp

/-- A line feed behind an unfinished line starts no further one.  It takes nothing from the line
but a carriage return. -/
theorem lines_append_singleton_feed (hlast : text.getLast? = some c) (hfeed : c ≠ '\n')
    (hreturn : c ≠ '\r') : lines (text ++ ['\n']) = lines text := by
  fun_induction lines text with
  | case1 => simp at hlast
  | case2 text ih =>
    cases text with
    | nil => exact absurd (Option.some.inj hlast).symm hfeed
    | cons d text => rw [List.cons_append, lines_feed, ih hlast]
  | case3 text ih =>
    cases text with
    | nil => exact absurd (Option.some.inj hlast).symm hfeed
    | cons d text => rw [List.cons_append, List.cons_append, lines_return_feed, ih hlast]
  | case4 d text _ _ hlines _ =>
    obtain rfl := eq_nil_of_lines_eq_nil hlines
    obtain rfl : d = c := Option.some.inj hlast
    rw [List.singleton_append, lines_char hfeed fun _ h => absurd h hreturn]
    rfl
  | case5 d text hd hreturn' line more hlines ih =>
    have hne := ne_nil_of_lines_eq_cons hlines
    obtain ⟨e, text, rfl⟩ := List.exists_cons_of_ne_nil hne
    rw [List.cons_append, lines_char_append hd hreturn' hne, ih hlast, hlines]

end Text

/-! ### What two texts say -/

/-- The same line further down in a text. -/
def MalformedLine.below (offset : Nat) (malformed : MalformedLine) : MalformedLine :=
  { malformed with number := malformed.number + offset }

namespace Source

variable {lines : List (List Char)} {number : Nat} {malformed : MalformedLine}

theorem append_eq (first second : Source) :
    first ++ second = ⟨second.start.or first.start, first.rules ++ second.rules⟩ := rfl

theorem append_assoc (first second third : Source) :
    first ++ second ++ third = first ++ (second ++ third) := by
  simp only [append_eq, Option.or_assoc, List.append_assoc]

/-- The lines behind others are read if those are, and from their own number on. -/
theorem readLines_append (number : Nat) (first second : List (List Char)) :
    readLines number (first ++ second) =
      (readLines number first).bind fun source =>
        (readLines (number + first.length) second).map (source ++ ·) := by
  induction first generalizing number with
  | nil =>
    show readLines number second = (readLines number second).map fun source => ⟨none, []⟩ ++ source
    cases readLines number second with
    | error malformed => rfl
    | ok source => simp [Except.map, append_eq]
  | cons line first ih =>
    rw [List.cons_append, readLines, readLines]
    cases readLine line with
    | error cause => rfl
    | ok said =>
      have hnumber : number + (line :: first).length = number + 1 + first.length := by
        rw [List.length_cons]
        omega
      dsimp only
      rw [ih, hnumber]
      cases readLines (number + 1) first with
      | error malformed => rfl
      | ok source =>
        show ((readLines (number + 1 + first.length) second).map (source ++ ·)).map _ =
          (readLines (number + 1 + first.length) second).map _
        cases readLines (number + 1 + first.length) second with
        | error malformed => rfl
        | ok rest => exact congrArg Except.ok (append_assoc _ _ _).symm

/-- The number of the first line has no part in what is read. -/
theorem readLines_add (number offset : Nat) (lines : List (List Char)) :
    readLines (number + offset) lines = (readLines number lines).mapError (·.below offset) := by
  induction lines generalizing number with
  | nil => rfl
  | cons line lines ih =>
    rw [readLines, readLines]
    cases readLine line with
    | error cause => rfl
    | ok said =>
      dsimp only
      rw [Nat.add_right_comm, ih]
      cases readLines (number + 1) lines <;> rfl

/-- What two texts say together, the first of which has ended. -/
theorem read_append {first : String} (h : Text.Ended first.toList) (second : String) :
    read (first ++ second) = (read first).bind fun source =>
      ((read second).mapError (·.below (first.toList.count '\n'))).map (source ++ ·) := by
  simp only [read]
  rw [String.toList_append, Text.lines_append h, readLines_append, Text.length_lines h,
    readLines_add]

/-! ### The first malformed line -/

/-- Of the lines, this one is in no form of the format, while all in front of it are in one. -/
def FirstMalformed (lines : List (List Char)) (malformed : MalformedLine) : Prop :=
  ∃ before line after, lines = before ++ line :: after ∧ malformed.number = before.length + 1 ∧
    (∀ earlier ∈ before, ∃ said, Written earlier said) ∧ (∀ said, ¬Written line said) ∧
    readLine line = .error malformed.cause

theorem not_written_of_readLine {line : List Char} {cause : SyntaxError}
    (h : readLine line = .error cause) (said : Line) : ¬Written line said := by
  intro hsaid
  rw [readLine_of_written hsaid] at h
  simp at h

theorem readLines_eq_error : readLines number lines = .error malformed ↔
    ∃ before line after, lines = before ++ line :: after ∧
      malformed.number = number + before.length ∧
      (∀ earlier ∈ before, ∃ said, Written earlier said) ∧
      readLine line = .error malformed.cause := by
  induction lines generalizing number with
  | nil => simp [readLines]
  | cons first lines ih =>
    rw [readLines]
    constructor
    · intro h
      cases hfirst : readLine first with
      | error cause =>
        rw [hfirst] at h
        obtain rfl := Except.error.inj h
        exact ⟨[], first, lines, rfl, rfl, by simp, hfirst⟩
      | ok said =>
        rw [hfirst] at h
        obtain ⟨before, line, after, rfl, hnumber, hbefore, hline⟩ := ih.mp (map_eq_error.mp h)
        refine ⟨first :: before, line, after, rfl, ?_, ?_, hline⟩
        · rw [hnumber, List.length_cons]
          omega
        · exact List.forall_mem_cons.mpr ⟨⟨said, readLine_eq_ok.mp hfirst⟩, hbefore⟩
    · rintro ⟨before, line, after, heq, hnumber, hbefore, hline⟩
      cases before with
      | nil =>
        obtain ⟨rfl, rfl⟩ := List.cons.inj heq
        obtain ⟨_, cause⟩ := malformed
        obtain rfl := hnumber
        rw [hline]
      | cons other before =>
        obtain ⟨rfl, rfl⟩ := List.cons.inj heq
        obtain ⟨⟨said, hsaid⟩, hbefore⟩ := List.forall_mem_cons.mp hbefore
        have hrest : readLines (number + 1) (before ++ line :: after) = .error malformed := by
          refine ih.mpr ⟨before, line, after, rfl, ?_, hbefore, hline⟩
          rw [hnumber, List.length_cons]
          omega
        rw [readLine_eq_ok.mpr hsaid]
        exact map_eq_error.mpr hrest

variable {text : String}

theorem read_eq_error :
    read text = .error malformed ↔ FirstMalformed (Text.lines text.toList) malformed := by
  rw [read, readLines_eq_error]
  constructor
  · rintro ⟨before, line, after, hlines, hnumber, hbefore, hline⟩
    exact ⟨before, line, after, hlines, by omega, hbefore, not_written_of_readLine hline, hline⟩
  · rintro ⟨before, line, after, hlines, hnumber, hbefore, -, hline⟩
    exact ⟨before, line, after, hlines, by omega, hbefore, hline⟩

theorem read_append_of_error {first : String} (h : Text.Ended first.toList)
    (hfirst : read first = .error malformed) (second : String) :
    read (first ++ second) = .error malformed := by
  rw [read_append h, hfirst]
  rfl

/-- What comes after the malformed line is not read. -/
theorem read_append_of_le {front rest : String} (h : Text.Ended front.toList)
    (hread : read (front ++ rest) = .error malformed)
    (hnumber : malformed.number ≤ front.toList.count '\n') (other : String) :
    read (front ++ other) = .error malformed := by
  cases hfront : read front with
  | error found =>
    rw [read_append_of_error h hfront] at hread
    rw [← Except.error.inj hread]
    exact read_append_of_error h hfront other
  | ok source =>
    -- The malformed line would be one of `rest`, and those have higher numbers.
    rw [read_append h, hfront] at hread
    cases hrest : read rest with
    | error found =>
      rw [hrest] at hread
      obtain rfl := Except.error.inj hread
      obtain ⟨_, _, _, -, hfound, -⟩ := read_eq_error.mp hrest
      simp only [MalformedLine.below] at hnumber
      omega
    | ok said =>
      rw [hrest] at hread
      simp [Except.bind, Except.mapError, Except.map] at hread

/-- A malformed line at the end of a text stays what it is when it is ended and others follow. -/
theorem read_append_feed (hread : read text = .error malformed)
    (hreturn : '\r' ∉ text.toList.getLast?) (other : String) :
    read (text ++ "\n" ++ other) = .error malformed := by
  by_cases hended : Text.Ended text.toList
  · rw [String.append_assoc]
    exact read_append_of_error hended hread _
  · obtain ⟨hne, hfeed⟩ := not_or.mp hended
    cases hlast : text.toList.getLast? with
    | none => exact absurd (List.getLast?_eq_none_iff.mp hlast) hne
    | some c =>
      rw [hlast] at hfeed hreturn
      have hlines : Text.lines (text ++ "\n").toList = Text.lines text.toList := by
        rw [String.toList_append]
        exact Text.lines_append_singleton_feed hlast (fun hc => hfeed (congrArg some hc))
          fun hc => hreturn (congrArg some hc)
      refine read_append_of_error (.inr ?_) ?_ other
      · rw [String.toList_append, List.getLast?_append]
        rfl
      · rw [read, hlines]
        exact hread

/-- Reading is local.  When a text that has ended is followed by another, a malformed line of it is
the one reported.  If it can be read, a malformed line of what follows is reported as many lines
further down as there are line feeds in front of it, and if both can be read, the rules of the one
stand before those of the other, whose start symbol takes precedence.  So the line that is reported
is always the first malformed one, and it does not change with what comes after it. -/
theorem read_append_local :
    (∀ first second : String, Text.Ended first.toList →
      (∀ malformed, read first = .error malformed → read (first ++ second) = .error malformed) ∧
      (∀ source number cause, read first = .ok source → read second = .error ⟨number, cause⟩ →
        read (first ++ second) = .error ⟨number + first.toList.count '\n', cause⟩) ∧
      ∀ source said, read first = .ok source → read second = .ok said →
        read (first ++ second) = .ok ⟨said.start.or source.start, source.rules ++ said.rules⟩) ∧
    ∀ (text : String) (malformed : MalformedLine),
      (read text = .error malformed ↔ FirstMalformed (Text.lines text.toList) malformed) ∧
      (read text = .error malformed →
        (∀ front rest, text = front ++ rest → Text.Ended front.toList →
          malformed.number ≤ front.toList.count '\n' →
            ∀ other, read (front ++ other) = .error malformed) ∧
        ('\r' ∉ text.toList.getLast? →
          ∀ other, read (text ++ "\n" ++ other) = .error malformed)) := by
  refine ⟨fun first second h => ⟨fun malformed hfirst => read_append_of_error h hfirst second,
    fun source number cause hfirst hsecond => ?_, fun source said hfirst hsecond => ?_⟩,
    fun text malformed => ⟨read_eq_error, fun hread => ⟨?_, read_append_feed hread⟩⟩⟩
  · rw [read_append h, hfirst, hsecond]
    rfl
  · rw [read_append h, hfirst, hsecond]
    rfl
  · rintro front rest rfl hended hnumber other
    exact read_append_of_le hended hread hnumber other

/-- A start line that ends in a carriage return and a line feed, a blank line and a rule. -/
def opening : String := "%start S\r\n\nS -> A\n"

/-- A comment, and a line with the wrong arrow. -/
def wrongArrow : String := "# x\nA => B\r"

/-- Another start line, without a line feed. -/
def restart : String := "%start A"

theorem read_append_local_opening : Text.Ended opening.toList ∧
    read opening = .ok ⟨some "S", [⟨"S", [.nonterminal "A"]⟩]⟩ ∧
    read (wrongArrow ++ "\n") = .error ⟨2, .missingArrow "=> B"⟩ ∧
    read (wrongArrow ++ "\n" ++ opening) = .error ⟨2, .missingArrow "=> B"⟩ ∧
    read (opening ++ (wrongArrow ++ "\n")) = .error ⟨5, .missingArrow "=> B"⟩ ∧
    read "A =>" = .error ⟨1, .missingArrow "=>"⟩ ∧
    read ("A =>" ++ "\n" ++ opening) = .error ⟨1, .missingArrow "=>"⟩ ∧
    read restart = .ok ⟨some "A", []⟩ ∧
    read (opening ++ restart) = .ok ⟨some "A", [⟨"S", [.nonterminal "A"]⟩]⟩ := by
  obtain ⟨hparts, hfirst⟩ := read_append_local
  have hended : Text.Ended opening.toList := by decide
  have hopening : read opening = .ok ⟨some "S", [⟨"S", [.nonterminal "A"]⟩]⟩ := by decide +kernel
  have hwrong : read (wrongArrow ++ "\n") = .error ⟨2, .missingArrow "=> B"⟩ := by decide +kernel
  have hunfinished : read "A =>" = .error ⟨1, .missingArrow "=>"⟩ := by decide +kernel
  have hrestart : read restart = .ok ⟨some "A", []⟩ := by decide +kernel
  obtain ⟨-, hmalformed, -⟩ := hparts opening (wrongArrow ++ "\n") hended
  obtain ⟨-, -, hsaid⟩ := hparts opening restart hended
  obtain ⟨-, hbehind⟩ := hfirst (wrongArrow ++ "\n") ⟨2, .missingArrow "=> B"⟩
  obtain ⟨-, hunended⟩ := hfirst "A =>" ⟨1, .missingArrow "=>"⟩
  exact ⟨hended, hopening, hwrong,
    (hbehind hwrong).1 _ "" rfl (by decide) (by decide) opening,
    hmalformed _ 2 _ hopening hwrong, hunfinished, (hunended hunfinished).2 (by decide) opening,
    hrestart, hsaid _ _ hopening hrestart⟩

/-- A carriage return at the end of a text is part of its last line until a line feed follows. -/
example : read wrongArrow = .error ⟨2, .missingArrow "=> B\r"⟩ := by decide +kernel

end Source

end PhraseStructure
