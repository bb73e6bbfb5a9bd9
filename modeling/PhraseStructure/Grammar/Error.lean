import PhraseStructure.Grammar.Basic
import PhraseStructure.Grammar.Source
import PhraseStructure.Input.Error

/-! Grammars from texts and files, and what can be wrong with them: the file cannot be read, a line
is malformed, or the rules are not a grammar. -/

namespace PhraseStructure

/-- Why there is no grammar. -/
inductive GrammarError where
  | malformed (line : MalformedLine)
  | defective (defect : Defect)
  | unreadable (cause : ReadError)
deriving DecidableEq

namespace GrammarError

def message : GrammarError → String
  | malformed line => "line " ++ toString line.number ++ ": " ++ line.cause.message
  | defective .noRules => "empty ruleset"
  | defective (.undefinedStart start) => "start symbol " ++ start ++ " has no productions"
  | defective (.undefinedName name rule) =>
    "nonterminal " ++ name ++ " is used in \x60" ++ rule.text ++ "\x60 but never defined"
  | unreadable cause => "couldn't read grammar: " ++ cause.message

/-- The error with its fields. -/
def diagnostic : GrammarError → String
  | malformed line =>
    "Syntax \x7b line: " ++ toString line.number ++ ", message: " ++
      Text.quote line.cause.message ++ " \x7d"
  | defective .noRules => "Empty"
  | defective (.undefinedStart start) => "MissingStart(" ++ Text.quote start ++ ")"
  | defective (.undefinedName name rule) =>
    "UndefinedNonterminal \x7b symbol: " ++ Text.quote name ++ ", rule: " ++
      Text.quote rule.text ++ " \x7d"
  | unreadable cause => "Io(" ++ cause.diagnostic ++ ")"

end GrammarError

namespace Grammar

def ofSource (source : Source) : Except Defect Grammar :=
  match source.startSymbol? with
  | some start => ofRules start source.rules
  | none => .error .noRules

def ofText (text : String) : Except GrammarError Grammar :=
  match Source.read text with
  | .error line => .error (.malformed line)
  | .ok source =>
    match ofSource source with
    | .error defect => .error (.defective defect)
    | .ok g => .ok g

/-- The grammar in a file, of which the result of reading is given. -/
def ofFile (content : Except ReadError String) : Except GrammarError Grammar :=
  match content with
  | .error cause => .error (.unreadable cause)
  | .ok text => ofText text

end Grammar

end PhraseStructure
