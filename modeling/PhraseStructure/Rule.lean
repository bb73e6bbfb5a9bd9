/-! The rules of a grammar.  A rule lets a nonterminal stand for a sequence of symbols, each a word
of the sentence or a nonterminal.  The sequence may be empty. -/

namespace PhraseStructure

inductive Symbol where
  | terminal (word : String)
  | nonterminal (name : String)
deriving DecidableEq

/-- The symbol as it is written in a rule: words stand between double quotes. -/
def Symbol.text : Symbol → String
  | terminal word => "\"" ++ word ++ "\""
  | nonterminal name => name

/-- The word that the symbol stands for, if it is a terminal. -/
def Symbol.word? : Symbol → Option String
  | terminal word => some word
  | nonterminal _ => none

/-- The name of the symbol, if it is a nonterminal. -/
def Symbol.name? : Symbol → Option String
  | terminal _ => none
  | nonterminal name => some name

@[simp] theorem Symbol.word?_eq_some {s : Symbol} {word : String} :
    s.word? = some word ↔ s = .terminal word := by
  cases s <;> simp [Symbol.word?]

@[simp] theorem Symbol.name?_eq_some {s : Symbol} {name : String} :
    s.name? = some name ↔ s = .nonterminal name := by
  cases s <;> simp [Symbol.name?]

/-- A rule: the nonterminal `lhs` may stand for the symbols of `rhs`. -/
structure Rule where
  lhs : String
  rhs : List Symbol
deriving DecidableEq

namespace Rule

/-- The words in the right-hand side, in order. -/
def words (rule : Rule) : List String := rule.rhs.filterMap Symbol.word?

/-- The nonterminals in the right-hand side, in order. -/
def names (rule : Rule) : List String := rule.rhs.filterMap Symbol.name?

@[simp] theorem mem_words {rule : Rule} {word : String} :
    word ∈ rule.words ↔ .terminal word ∈ rule.rhs := by
  simp [words, List.mem_filterMap]

@[simp] theorem mem_names {rule : Rule} {name : String} :
    name ∈ rule.names ↔ .nonterminal name ∈ rule.rhs := by
  simp [names, List.mem_filterMap]

/-- The symbols, each with a blank before it. -/
def symbolsText (symbols : List Symbol) : String :=
  String.join (symbols.map fun s => " " ++ s.text)

/-- The rule on one line, in the form in which grammars are written. -/
def text (rule : Rule) : String := rule.lhs ++ " ->" ++ symbolsText rule.rhs

end Rule

end PhraseStructure
