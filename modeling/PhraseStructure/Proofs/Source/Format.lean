import Mathlib.Data.List.Forall2
import PhraseStructure.Grammar.Source

/-! The lines of a grammar text and what they say, told without reading them.  A line is blank, or
names the start symbol, or has a name, an arrow and alternatives between bars, each a row of names
and quoted words with blanks anywhere between them.  A name is as long as it can be: no character
that could go on with it follows.  Every kind of line may end in a comment. -/

namespace PhraseStructure.Source

/-- Spaces and tabs only. -/
def Blanks (cs : List Char) : Prop := ∀ c ∈ cs, c = ' ' ∨ c = '\t'

/-- A letter from a to z, small or capital. -/
def Letter (c : Char) : Prop := 'a' ≤ c ∧ c ≤ 'z' ∨ 'A' ≤ c ∧ c ≤ 'Z'

def Digit (c : Char) : Prop := '0' ≤ c ∧ c ≤ '9'

/-- A character with which a name can begin. -/
def BeginsName (c : Char) : Prop := Letter c ∨ c = '_'

/-- A character with which a name can go on. -/
def ContinuesName (c : Char) : Prop := BeginsName c ∨ Digit c ∨ c = '-'

instance : DecidablePred BeginsName := fun c =>
  inferInstanceAs (Decidable (('a' ≤ c ∧ c ≤ 'z' ∨ 'A' ≤ c ∧ c ≤ 'Z') ∨ c = '_'))

instance : DecidablePred ContinuesName := fun c =>
  inferInstanceAs (Decidable (BeginsName c ∨ ('0' ≤ c ∧ c ≤ '9') ∨ c = '-'))

/-- A name that goes as far as it can in front of the text `rest`. -/
structure NameBefore (name rest : List Char) : Prop where
  begins : ∃ c more, name = c :: more ∧ BeginsName c
  continues : ∀ c ∈ name, ContinuesName c
  ends : ∀ c ∈ rest.head?, ¬ContinuesName c

/-- Nothing, or a comment. -/
def EndOfLine (cs : List Char) : Prop := cs = [] ∨ ∃ comment, cs = '#' :: comment

/-- A row of names and quoted words, with blanks anywhere between them, and its symbols. -/
inductive Alternative : List Char → List Symbol → Prop
  | nil : Alternative [] []
  | blank {c : Char} {cs : List Char} {symbols : List Symbol} :
      c = ' ' ∨ c = '\t' → Alternative cs symbols → Alternative (c :: cs) symbols
  | name {name cs : List Char} {symbols : List Symbol} :
      NameBefore name cs → Alternative cs symbols →
      Alternative (name ++ cs) (.nonterminal (String.ofList name) :: symbols)
  | word {quote : Char} {word cs : List Char} {symbols : List Symbol} :
      quote = '"' ∨ quote = '\'' → word ≠ [] → quote ∉ word → Alternative cs symbols →
      Alternative (quote :: (word ++ quote :: cs)) (.terminal (String.ofList word) :: symbols)

/-- Alternatives with bars between them, up to the end of the line. -/
def RightSide (cs : List Char) (alternatives : List (List Symbol)) : Prop :=
  ∃ parts rest, cs = ['|'].intercalate parts ++ rest ∧ EndOfLine rest ∧ parts ≠ [] ∧
    List.Forall₂ Alternative parts alternatives

/-- A line and what it says. -/
inductive Written : List Char → Line → Prop
  | blank {before rest : List Char} : Blanks before → EndOfLine rest →
      Written (before ++ rest) .blank
  | start {before between name after rest : List Char} : Blanks before → Blanks between →
      NameBefore name (after ++ rest) → Blanks after → EndOfLine rest →
      Written (before ++ "%start".toList ++ between ++ name ++ after ++ rest)
        (.start (String.ofList name))
  | rules {before name between right : List Char} {alternatives : List (List Symbol)} :
      Blanks before → NameBefore name (between ++ "->".toList ++ right) → Blanks between →
      RightSide right alternatives →
      Written (before ++ name ++ between ++ "->".toList ++ right)
        (.rules (alternatives.map (⟨String.ofList name, ·⟩)))

/-- What lines say together: the start symbol that is named last, if any, and all rules in order. -/
def ofLines (said : List Line) : Source where
  start := (said.filterMap fun line => (ofLine line).start).getLast?
  rules := said.flatMap fun line => (ofLine line).rules

/-! ### The classes of characters -/

section Classes

variable {c : Char}

theorem isBlank_iff : isBlank c ↔ c = ' ' ∨ c = '\t' := by simp [isBlank]

theorem isQuote_iff : isQuote c ↔ c = '"' ∨ c = '\'' := by simp [isQuote]

theorem isAlpha_iff : c.isAlpha ↔ Letter c := by
  have hupper : c.isUpper ↔ 'A' ≤ c ∧ c ≤ 'Z' := decide_eq_true_iff
  have hlower : c.isLower ↔ 'a' ≤ c ∧ c ≤ 'z' := by
    show (decide ('a' ≤ c) && decide (c ≤ 'z')) ↔ _
    rw [Bool.and_eq_true, decide_eq_true_iff, decide_eq_true_iff]
  show (c.isUpper || c.isLower) ↔ _
  rw [Bool.or_eq_true, hupper, hlower, Letter, or_comm]

theorem Letter.toNat_lt (h : Letter c) : c.toNat < 0x80 := by
  rcases h with ⟨-, hle⟩ | ⟨-, hle⟩
  · have : c.toNat ≤ 0x7A := hle
    omega
  · have : c.toNat ≤ 0x5A := hle
    omega

theorem isNameStart_iff : isNameStart c ↔ BeginsName c := by
  rw [isNameStart, Bool.or_eq_true, isAlpha_iff, beq_iff_eq, BeginsName]

theorem isNameChar_iff : isNameChar c ↔ ContinuesName c := by
  have hdigit : c.isDigit ↔ Digit c := by simp [Char.isDigit, Digit, Char.le_def]
  simp only [isNameChar, Char.isAlphanum, Bool.or_eq_true, isAlpha_iff, hdigit, beq_iff_eq,
    ContinuesName, BeginsName]
  tauto

end Classes

theorem BeginsName.ne {c d : Char} (h : BeginsName c) (hd : ¬BeginsName d) : c ≠ d := by
  rintro rfl
  exact hd h

theorem BeginsName.not_blank {c : Char} (h : BeginsName c) : ¬(c = ' ' ∨ c = '\t') :=
  not_or.mpr ⟨h.ne (by decide), h.ne (by decide)⟩

theorem blanks_nil : Blanks [] := List.forall_mem_nil _

theorem NameBefore.ne_nil {name rest : List Char} (h : NameBefore name rest) : name ≠ [] := by
  obtain ⟨c, more, rfl, -⟩ := h.begins
  exact List.cons_ne_nil c more

/-! ### Right-hand sides from their beginning -/

theorem NameBefore.of_append {name part rest : List Char} (h : NameBefore name (part ++ rest)) :
    NameBefore name part := by
  refine ⟨h.begins, h.continues, fun c hc => h.ends c ?_⟩
  rw [Option.mem_def] at hc ⊢
  rw [List.head?_append, hc, Option.some_or]

theorem NameBefore.append {name part rest : List Char} (h : NameBefore name part)
    (hrest : ∀ c ∈ rest.head?, ¬ContinuesName c) : NameBefore name (part ++ rest) := by
  refine ⟨h.begins, h.continues, fun c hc => ?_⟩
  cases part with
  | nil => exact hrest c hc
  | cons d part => exact h.ends c hc

theorem rightSide_of_endOfLine {rest : List Char} (h : EndOfLine rest) : RightSide rest [[]] :=
  ⟨[[]], rest, by simp, h, by simp, .cons .nil .nil⟩

theorem RightSide.bar {cs : List Char} {alternatives : List (List Symbol)}
    (h : RightSide cs alternatives) : RightSide ('|' :: cs) ([] :: alternatives) := by
  obtain ⟨parts, rest, rfl, hrest, hne, hparts⟩ := h
  refine ⟨[] :: parts, rest, ?_, hrest, by simp, .cons .nil hparts⟩
  rw [List.intercalate_cons_of_ne_nil hne]
  rfl

/-- What can be put in front of the first alternative can be put in front of the right-hand side. -/
theorem RightSide.prepend {piece cs : List Char} {alternatives : List (List Symbol)}
    {more : List Symbol → List Symbol} (h : RightSide cs alternatives)
    (hpiece : ∀ part rest symbols, cs = part ++ rest → Alternative part symbols →
      Alternative (piece ++ part) (more symbols)) :
    RightSide (piece ++ cs) (alternatives.modifyHead more) := by
  obtain ⟨parts, rest, rfl, hrest, hne, hparts⟩ := h
  cases hparts with
  | nil => exact absurd rfl hne
  | @cons part symbols parts alternatives hpart hparts =>
    obtain ⟨others, hothers⟩ : ∃ others, ∀ first : List Char,
        ['|'].intercalate (first :: parts) = first ++ others := by
      cases parts with
      | nil => exact ⟨[], by simp⟩
      | cons next parts => exact ⟨['|'] ++ ['|'].intercalate (next :: parts), by simp⟩
    have hfirst := hpiece part (others ++ rest) symbols (by rw [hothers, List.append_assoc]) hpart
    refine ⟨(piece ++ part) :: parts, rest, ?_, hrest, by simp, .cons hfirst hparts⟩
    rw [hothers, hothers]
    simp only [List.append_assoc]

theorem RightSide.blanks {before cs : List Char} {alternatives : List (List Symbol)}
    (h : RightSide cs alternatives) (hbefore : Blanks before) :
    RightSide (before ++ cs) alternatives := by
  have hid : alternatives.modifyHead id = alternatives := by cases alternatives <;> rfl
  rw [← hid]
  refine h.prepend fun part rest symbols _ hpart => ?_
  induction before with
  | nil => exact hpart
  | cons c before ih =>
    obtain ⟨hc, hbefore⟩ := List.forall_mem_cons.mp hbefore
    exact .blank hc (ih hbefore)

theorem RightSide.name {name cs : List Char} {alternatives : List (List Symbol)}
    (h : RightSide cs alternatives) (hname : NameBefore name cs) :
    RightSide (name ++ cs)
      (alternatives.modifyHead (.nonterminal (String.ofList name) :: ·)) :=
  h.prepend fun _ _ _ hcs hpart => .name (hcs ▸ hname).of_append hpart

theorem RightSide.word {quote : Char} {word cs : List Char} {alternatives : List (List Symbol)}
    (h : RightSide cs alternatives) (hquote : quote = '"' ∨ quote = '\'') (hne : word ≠ [])
    (hword : quote ∉ word) :
    RightSide (quote :: (word ++ quote :: cs))
      (alternatives.modifyHead (.terminal (String.ofList word) :: ·)) := by
  have h' : RightSide (quote :: (word ++ [quote]) ++ cs)
      (alternatives.modifyHead (.terminal (String.ofList word) :: ·)) :=
    h.prepend fun part _ _ _ hpart => by simpa using Alternative.word hquote hne hword hpart
  simpa using h'

end PhraseStructure.Source
