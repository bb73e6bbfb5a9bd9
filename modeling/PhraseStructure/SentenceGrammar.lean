import PhraseStructure.Grammar.Error

/-! A small grammar of English sentences, used when no other grammar is given. -/

namespace PhraseStructure.SentenceGrammar

/-- The grammar line by line.  A noun phrase may be empty. -/
def lines : List String := [
  "S -> NP VP | NP VP Conj VP",
  "AP -> Adj | Adj AP",
  "NP -> N | Det N | AP NP | Det AP NP | N PP |",
  "PP -> P NP | P NP PP",
  "VP -> V | V NP | V NP PP",
  "Adj -> 'country' | 'dreadful' | 'enigmatical' | 'little' | 'moist' | 'red'",
  "Adv -> 'down' | 'here' | 'never'",
  "Conj -> 'and' | 'until'",
  "Det -> 'a' | 'an' | 'his' | 'my' | 'the'",
  "N -> 'armchair' | 'companion' | 'day' | 'door' | 'hand' | 'he' | 'himself'",
  "N -> 'holmes' | 'home' | 'i' | 'mess' | 'paint' | 'palm' | 'pipe' | 'she'",
  "N -> 'smile' | 'thursday' | 'walk' | 'we' | 'word'",
  "P -> 'at' | 'before' | 'in' | 'of' | 'on' | 'to'",
  "V -> 'arrived' | 'came' | 'chuckled' | 'had' | 'lit' | 'said' | 'sat'",
  "V -> 'smiled' | 'tell' | 'were'"]

def text : String := String.join (lines.map (· ++ "\n"))

def grammar : Except GrammarError Grammar := Grammar.ofText text

end PhraseStructure.SentenceGrammar
