import PhraseStructure.Grammar.Error
import PhraseStructure.Proofs.Source.Read

/-! Grammars written out and read back.  A start symbol and rules are written as a start line and
one line for each rule.  Where the names are names of the format and every word can stand between
double quotes on one line, the text says the start symbol and the rules again, so that it makes the
same grammar or shows the same defect. -/

namespace PhraseStructure

/-! ### Lines of a text -/

namespace Text

/-- A line that can be followed by a line feed and is the same line then: its last character is no
carriage return, which would belong to the line's end. -/
structure IsLine (line : List Char) : Prop where
  ne_nil : line ≠ []
  no_feed : '\n' ∉ line
  no_return : '\r' ∉ line.getLast?

variable {line ending : List Char}

/-- How a character begins its line does not depend on what is put behind the text after it. -/
theorem lines_char_append {c : Char} {text : List Char} (hfeed : c ≠ '\n')
    (hreturn : ∀ more, c = '\r' → text ≠ '\n' :: more) (hne : text ≠ []) (rest : List Char) :
    lines (c :: (text ++ rest)) =
      match lines (text ++ rest) with
      | [] => [[c]]
      | line :: more => (c :: line) :: more := by
  obtain ⟨d, text, rfl⟩ := List.exists_cons_of_ne_nil hne
  refine lines_char hfeed fun more hc heq => hreturn text hc ?_
  rw [(List.cons.inj heq).1]

/-- A line feed ends a line whatever comes before and after it. -/
theorem lines_append_feed (text rest : List Char) :
    lines (text ++ '\n' :: rest) = lines (text ++ ['\n']) ++ lines rest := by
  fun_induction lines text with
  | case1 => rfl
  | case2 text ih => simp [ih]
  | case3 text ih => simp [ih]
  | case4 c text hfeed hreturn hlines ih =>
    obtain rfl := eq_nil_of_lines_eq_nil hlines
    by_cases hc : c = '\r'
    · subst hc
      rfl
    · have hchar := fun rest => @lines_char c ('\n' :: rest) hfeed fun _ h => absurd h hc
      rw [List.singleton_append, List.singleton_append, hchar, hchar]
      simp
  | case5 c text hfeed hreturn line more hlines ih =>
    have hne := ne_nil_of_lines_eq_cons hlines
    rw [List.cons_append, List.cons_append, lines_char_append hfeed hreturn hne,
      lines_char_append hfeed hreturn hne, ih]
    cases hl : lines (text ++ ['\n']) with
    | nil => exact absurd hl (lines_ne_nil (by simp))
    | cons line more => simp

theorem lines_of_isLine (h : IsLine line) (hending : ending = [] ∨ ending = ['\n']) :
    lines (line ++ ending) = [line] := by
  induction line with
  | nil => exact absurd rfl h.ne_nil
  | cons c line ih =>
    have hfeed : c ≠ '\n' := fun hc => h.no_feed (hc ▸ List.mem_cons_self)
    cases line with
    | nil =>
      have hreturn : c ≠ '\r' := fun hc => h.no_return (by simp [hc])
      have hchar := @lines_char c ending hfeed fun _ hc => absurd hc hreturn
      rw [List.singleton_append, hchar]
      rcases hending with rfl | rfl <;> rfl
    | cons d more =>
      have hrest : IsLine (d :: more) :=
        ⟨by simp, fun hmem => h.no_feed (List.mem_cons_of_mem _ hmem),
          fun hlast => h.no_return (by rwa [List.getLast?_cons_cons])⟩
      have hchar := @lines_char c (d :: more ++ ending) hfeed fun _ _ heq =>
        hrest.no_feed (by rw [(List.cons.inj heq).1]; exact List.mem_cons_self)
      rw [List.cons_append, hchar, ih hrest]

/-- Lines with line feeds between them, the last of which may have one as well, are the lines of
their text. -/
theorem lines_intercalate {ls : List (List Char)} (hne : ls ≠ []) (h : ∀ line ∈ ls, IsLine line)
    (hending : ending = [] ∨ ending = ['\n']) : lines (['\n'].intercalate ls ++ ending) = ls := by
  induction ls with
  | nil => exact absurd rfl hne
  | cons line ls ih =>
    have hline := h line List.mem_cons_self
    cases ls with
    | nil => rw [List.intercalate_singleton, lines_of_isLine hline hending]
    | cons next ls =>
      have hrest := ih (by simp) fun l hl => h l (List.mem_cons_of_mem _ hl)
      rw [List.intercalate_cons_cons, List.append_assoc, List.append_assoc, List.singleton_append,
        lines_append_feed, lines_of_isLine hline (.inr rfl), hrest]
      rfl

end Text

/-! ### What is written -/

namespace Source

/-- The name has the form of the names in grammar texts. -/
def IsName (name : String) : Prop :=
  (∃ c ∈ name.toList.head?, BeginsName c) ∧ ∀ c ∈ name.toList, ContinuesName c

instance : DecidablePred IsName := fun name =>
  decidable_of_iff (name.toList.head?.any (BeginsName ·) ∧ name.toList.all (ContinuesName ·))
    (by simp [IsName, Option.any_eq_true])

/-- The word can stand between double quotes on one line. -/
def IsQuotable (word : String) : Prop := word ≠ "" ∧ '"' ∉ word.toList ∧ '\n' ∉ word.toList

instance : DecidablePred IsQuotable := fun word =>
  inferInstanceAs (Decidable (word ≠ "" ∧ '"' ∉ word.toList ∧ '\n' ∉ word.toList))

/-- The symbol can be written in a rule. -/
def IsWritable : Symbol → Prop
  | .terminal word => IsQuotable word
  | .nonterminal name => IsName name

instance : DecidablePred IsWritable
  | .terminal word => inferInstanceAs (Decidable (IsQuotable word))
  | .nonterminal name => inferInstanceAs (Decidable (IsName name))

/-- The rule can be written on a line. -/
def IsWritableRule (rule : Rule) : Prop := IsName rule.lhs ∧ ∀ symbol ∈ rule.rhs, IsWritable symbol

instance : DecidablePred IsWritableRule := fun rule =>
  inferInstanceAs (Decidable (IsName rule.lhs ∧ ∀ symbol ∈ rule.rhs, IsWritable symbol))

/-- The line that names the start symbol. -/
def startLine (start : String) : String := "%start " ++ start

/-- A start symbol and rules, each on a line of its own. -/
def print (start : String) (rules : List Rule) : String :=
  "\n".intercalate (startLine start :: rules.map Rule.text)

section Written

variable {name : String} {rule : Rule} {symbols : List Symbol}

theorem IsName.nameBefore (h : IsName name) {rest : List Char}
    (hrest : ∀ c ∈ rest.head?, ¬ContinuesName c) : NameBefore name.toList rest := by
  obtain ⟨⟨c, hc, hbegins⟩, hcontinues⟩ := h
  obtain ⟨more, hmore⟩ := List.head?_eq_some_iff.mp hc
  exact ⟨⟨c, more, hmore, hbegins⟩, hcontinues, hrest⟩

theorem IsName.not_mem (h : IsName name) {c : Char} (hc : ¬ContinuesName c) : c ∉ name.toList :=
  fun hmem => hc (h.2 c hmem)

theorem symbolsText_cons (symbol : Symbol) (rest : List Symbol) :
    (Rule.symbolsText (symbol :: rest)).toList =
      ' ' :: (symbol.text.toList ++ (Rule.symbolsText rest).toList) := by
  simp [Rule.symbolsText]

/-- No name goes on with what follows a symbol. -/
theorem not_continuesName_of_symbolsText :
    ∀ c ∈ (Rule.symbolsText symbols).toList.head?, ¬ContinuesName c := by
  cases symbols with
  | nil => simp [Rule.symbolsText]
  | cons symbol rest =>
    rw [symbolsText_cons]
    rintro c ⟨⟩
    decide

theorem alternative_symbolsText (h : ∀ symbol ∈ symbols, IsWritable symbol) :
    Alternative (Rule.symbolsText symbols).toList symbols := by
  induction symbols with
  | nil => exact .nil
  | cons symbol rest ih =>
    obtain ⟨hsymbol, hrest⟩ := List.forall_mem_cons.mp h
    rw [symbolsText_cons]
    refine .blank (.inl rfl) ?_
    cases symbol with
    | terminal word =>
      obtain ⟨hne, hquote, -⟩ := hsymbol
      have := Alternative.word (.inl rfl) (by simpa using hne) hquote (ih hrest)
      simpa [Symbol.text] using this
    | nonterminal name =>
      have := Alternative.name (hsymbol.nameBefore not_continuesName_of_symbolsText) (ih hrest)
      simpa [Symbol.text] using this

theorem written_startLine (h : IsName name) :
    Written (startLine name).toList (.start name) := by
  have : Written ([] ++ "%start".toList ++ [' '] ++ name.toList ++ [] ++ []) _ :=
    .start blanks_nil (by simp [Blanks]) (h.nameBefore (by simp)) blanks_nil (.inl rfl)
  simpa [startLine] using this

theorem written_text (h : IsWritableRule rule) : Written rule.text.toList (.rules [rule]) := by
  obtain ⟨hlhs, hrhs⟩ := h
  have hright : RightSide (Rule.symbolsText rule.rhs).toList [rule.rhs] :=
    ⟨[(Rule.symbolsText rule.rhs).toList], [], by simp, .inl rfl, by simp,
      .cons (alternative_symbolsText hrhs) .nil⟩
  have : Written ([] ++ rule.lhs.toList ++ [' '] ++ "->".toList ++ _) _ :=
    .rules blanks_nil (hlhs.nameBefore (by simp; decide)) (by simp [Blanks]) hright
  simpa [Rule.text] using this

/-! The lines stay lines when line feeds are put between them. -/

theorem not_mem_getLast?_append {c : Char} {xs ys : List Char} (hxs : c ∉ xs.getLast?)
    (hys : c ∉ ys.getLast?) : c ∉ (xs ++ ys).getLast? := by
  rw [List.getLast?_append]
  cases hlast : ys.getLast? with
  | none => rwa [Option.none_or]
  | some d => rwa [Option.some_or, ← hlast]

theorem IsName.no_return (h : IsName name) : '\r' ∉ name.toList.getLast? :=
  fun hlast => h.not_mem (by decide) (List.mem_of_getLast? hlast)

theorem no_feed_symbolsText (h : ∀ symbol ∈ symbols, IsWritable symbol) :
    '\n' ∉ (Rule.symbolsText symbols).toList := by
  induction symbols with
  | nil => simp [Rule.symbolsText]
  | cons symbol rest ih =>
    obtain ⟨hsymbol, hrest⟩ := List.forall_mem_cons.mp h
    have hrest := ih hrest
    rw [symbolsText_cons]
    cases symbol with
    | terminal word =>
      obtain ⟨-, -, hfeed⟩ := hsymbol
      simp [Symbol.text, hfeed, hrest]
    | nonterminal name =>
      have hfeed := hsymbol.not_mem (c := '\n') (by decide)
      simp [Symbol.text, hfeed, hrest]

theorem no_return_symbolsText (h : ∀ symbol ∈ symbols, IsWritable symbol) :
    '\r' ∉ (Rule.symbolsText symbols).toList.getLast? := by
  induction symbols with
  | nil => simp [Rule.symbolsText]
  | cons symbol rest ih =>
    obtain ⟨hsymbol, hrest⟩ := List.forall_mem_cons.mp h
    have htext : '\r' ∉ ([' '] ++ symbol.text.toList).getLast? := by
      refine not_mem_getLast?_append (by decide) ?_
      cases symbol with
      | terminal word =>
        rw [Symbol.text, String.toList_append, List.getLast?_append]
        rintro ⟨⟩
      | nonterminal name => exact hsymbol.no_return
    rw [symbolsText_cons]
    exact not_mem_getLast?_append htext (ih hrest)

theorem isLine_startLine (h : IsName name) : Text.IsLine (startLine name).toList where
  ne_nil := by simp [startLine]
  no_feed := by
    have hfeed := h.not_mem (c := '\n') (by decide)
    simp [startLine, hfeed]
  no_return := by
    rw [startLine, String.toList_append]
    exact not_mem_getLast?_append (by decide) h.no_return

theorem isLine_text (h : IsWritableRule rule) : Text.IsLine rule.text.toList where
  ne_nil := by simp [Rule.text]
  no_feed := by
    have hlhs := h.1.not_mem (c := '\n') (by decide)
    simp [Rule.text, hlhs, no_feed_symbolsText h.2]
  no_return := by
    rw [Rule.text, String.toList_append, String.toList_append]
    exact not_mem_getLast?_append (not_mem_getLast?_append h.1.no_return (by decide))
      (no_return_symbolsText h.2)

end Written

variable {start ending : String} {rules : List Rule}

theorem ofLines_rules (start : String) (rules : List Rule) :
    ofLines (.start start :: rules.map fun rule => .rules [rule]) = ⟨some start, rules⟩ := by
  simp [ofLines, ofLine, List.filterMap_map, List.flatMap_map]

theorem lines_print (hstart : IsName start) (hrules : ∀ rule ∈ rules, IsWritableRule rule)
    (hending : ending = "" ∨ ending = "\n") :
    Text.lines (print start rules ++ ending).toList =
      (startLine start).toList :: rules.map fun rule => rule.text.toList := by
  have hlines : ∀ line ∈ (startLine start).toList :: rules.map (fun rule => rule.text.toList),
      Text.IsLine line := by
    refine List.forall_mem_cons.mpr ⟨isLine_startLine hstart, fun line hline => ?_⟩
    obtain ⟨rule, hr, rfl⟩ := List.mem_map.mp hline
    exact isLine_text (hrules rule hr)
  have hprint : (print start rules).toList =
      ['\n'].intercalate ((startLine start).toList :: rules.map fun rule => rule.text.toList) := by
    rw [print, String.toList_intercalate, List.map_cons, List.map_map]
    rfl
  rw [String.toList_append, hprint]
  refine Text.lines_intercalate (by simp) hlines ?_
  rcases hending with rfl | rfl <;> simp

/-- What is written is read again. -/
theorem read_print (hstart : IsName start) (hrules : ∀ rule ∈ rules, IsWritableRule rule)
    (hending : ending = "" ∨ ending = "\n") :
    read (print start rules ++ ending) = .ok ⟨some start, rules⟩ := by
  have hsaid : List.Forall₂ Written (rules.map fun rule => rule.text.toList)
      (rules.map fun rule => .rules [rule]) := by
    rw [List.forall₂_map_left_iff, List.forall₂_map_right_iff, List.forall₂_same]
    exact fun rule hr => written_text (hrules rule hr)
  rw [read, lines_print hstart hrules hending]
  exact readLines_eq_ok.mpr
    ⟨_, .cons (written_startLine hstart) hsaid, (ofLines_rules start rules).symm⟩

end Source

namespace Grammar

open Source

/-- A grammar is determined by its start symbol and its rules. -/
theorem eq_of_start_of_rules {g h : Grammar} (hstart : g.start = h.start)
    (hrules : g.rules = h.rules) : g = h := by
  have hnullables : g.nullables = h.nullables := by
    rw [g.nullables_eq, h.nullables_eq, hrules]
  cases g
  cases h
  subst hstart hrules hnullables
  rfl

/-- A grammar is built again from its own start symbol and rules. -/
theorem ofRules_self (g : Grammar) : ofRules g.start g.rules = .ok g := by
  obtain ⟨h, hh⟩ := exists_ofRules g.start_mem g.closed
  obtain ⟨hstart, hrules⟩ := start_and_rules_of_ofRules hh
  rw [hh, eq_of_start_of_rules hstart (hrules.trans g.arranged)]

theorem ofText_of_read {text start : String} {rules : List Rule}
    (h : read text = .ok ⟨some start, rules⟩) :
    ofText text = (ofRules start rules).mapError .defective := by
  rw [ofText, h]
  dsimp only
  rw [ofSource, startSymbol?, Option.some_or]
  dsimp only
  cases ofRules start rules <;> rfl

/-- A start symbol and rules that are written out and read back make the grammar that they make by
themselves, or have the same defect.  So a grammar that was built from such rules comes back when it
is written out and read. -/
theorem ofText_print (start : String) (rules : List Rule) (hstart : IsName start)
    (hrules : ∀ rule ∈ rules, IsWritableRule rule) (ending : String)
    (hending : ending = "" ∨ ending = "\n") :
    ofText (print start rules ++ ending) = (ofRules start rules).mapError .defective ∧
      ∀ g, ofRules start rules = .ok g → ofText (print g.start g.rules ++ ending) = .ok g := by
  refine ⟨ofText_of_read (read_print hstart hrules hending), fun g hg => ?_⟩
  obtain ⟨hgstart, hgrules⟩ := start_and_rules_of_ofRules hg
  have hwritable : ∀ rule ∈ g.rules, IsWritableRule rule := by
    intro rule hr
    rw [hgrules, Table.mem_arrange] at hr
    exact hrules rule hr
  rw [ofText_of_read (read_print (hgstart ▸ hstart) hwritable hending), ofRules_self]
  rfl

/-- Rules with a name that ends in a hyphen, a word of signs that separate elsewhere, an empty
right-hand side and a rule that is given again. -/
def signs : List Rule :=
  [⟨"S-", [.terminal "# | 'a' ->\r", .nonterminal "_x-"]⟩, ⟨"_x-", []⟩, ⟨"S-", []⟩, ⟨"_x-", []⟩]

theorem ofText_print_signs : IsName "S-" ∧ (∀ rule ∈ signs, IsWritableRule rule) ∧
    ("\n" = "" ∨ "\n" = "\n") ∧
    ofText (print "S-" signs ++ "\n") = (ofRules "S-" signs).mapError .defective ∧
      ∀ g, ofRules "S-" signs = .ok g → ofText (print g.start g.rules ++ "\n") = .ok g :=
  ⟨by decide, by decide, .inr rfl,
    ofText_print "S-" signs (by decide) (by decide) "\n" (.inr rfl)⟩

end Grammar

end PhraseStructure
