import PhraseStructure.Text.Lowercase
import PhraseStructure.Text.WordChar

/-! The words of a sentence.  A sentence is cut at every character that cannot stand in a word.  Of
the pieces, those that begin with one of the letters from a to z, small or capital, are the words.
They are written in small letters, each by itself. -/

namespace PhraseStructure.Sentence

/-- Whether a piece of a sentence counts as a word: whether a letter from a to z begins it. -/
def isWord : List Char → Bool
  | [] => false
  | c :: _ => c.isAlpha

/-- The words of a sentence as they are written in it. -/
def pieces (sentence : List Char) : List (List Char) :=
  (sentence.splitOnP fun c => !Text.isWordChar c).filter isWord

def words (sentence : String) : List String :=
  (pieces sentence.toList).map fun piece => String.ofList (Text.lowercase piece)

end PhraseStructure.Sentence
