import PhraseStructure.Chart.Build
import PhraseStructure.Forest.First

/-! Parsing a list of words: its chart, its forest and its trees.  A list of words can be parsed if
it is not empty and no word in it is.  A list that the grammar does not derive has no trees, which
is not an error. -/

namespace PhraseStructure

/-- Why a list of words cannot be parsed. -/
inductive InputError where
  | noWords
  | emptyWord (index : Nat)
deriving DecidableEq

def InputError.message : InputError → String
  | noWords => "cannot parse an empty sentence"
  | emptyWord index => "token " ++ toString index ++ " is an empty string"

/-- What keeps a list of words from being parsed, if anything does. -/
def inputError? (words : List String) : Option InputError :=
  if words = [] then some .noWords
  else (words.findIdx? (· == "")).map .emptyWord

namespace Grammar

def chart (g : Grammar) (words : List String) : Except InputError Chart :=
  match inputError? words with
  | some error => .error error
  | none => .ok (Chart.build g words)

def forest (g : Grammar) (words : List String) : Except InputError Forest :=
  (g.chart words).map fun chart => Forest.ofChart chart words

def parse (g : Grammar) (words : List String) : Except InputError (List Tree) :=
  (g.forest words).map fun forest => forest.trees g

/-- The words that no rule of the grammar has, in order. -/
def unknownWords (g : Grammar) (words : List String) : List String :=
  words.filter fun word => !g.knowsWord word

end Grammar

end PhraseStructure
