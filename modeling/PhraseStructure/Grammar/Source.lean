import PhraseStructure.Grammar.Table
import PhraseStructure.Text.Line
import PhraseStructure.Text.Quoted

/-! Grammars as they are written, line by line.  A line is empty, or names the start symbol
(`%start S`), or gives alternatives for a nonterminal (`NP -> N | Det N | "it"`).  Names are made of
letters, digits, hyphens and underscores and do not begin with a digit or a hyphen.  Words stand
between quotes of either kind.  Spaces and tabs separate, and a number sign outside a quoted word
starts a comment.  A bar with nothing on one side leaves an empty alternative there.

`Source.read` reads a whole text.  Reading is local: a line means the same wherever it stands, a
later start line replaces an earlier one, and the first malformed line is the one reported. -/

namespace PhraseStructure

/-- Why a line cannot be read.  Each cause holds the unread rest of the line. -/
inductive SyntaxError where
  | unknownDirective (rest : String)
  | missingStartName (rest : String)
  | textAfterStart (rest : String)
  | missingRuleName (rest : String)
  | missingArrow (rest : String)
  | unexpectedSymbol (rest : String)
  | unclosedWord (rest : String)
  | emptyWord (rest : String)
deriving DecidableEq

namespace SyntaxError

/-- The message for text that does not begin as it should. -/
def noMatch (wanted rest : String) : String :=
  "couldn't match " ++ wanted ++ " at " ++ Text.quote rest

def noName (rest : String) : String := "name: " ++ noMatch "[a-zA-Z_][a-zA-Z0-9\\-_]*" rest

def message : SyntaxError → String
  | unknownDirective rest => "directive: " ++ noMatch "%start" rest
  | missingStartName rest => "start symbol: " ++ noName rest
  | textAfterStart rest => "trailing input after start symbol: " ++ Text.quote rest
  | missingRuleName rest => "rule symbol: " ++ noName rest
  | missingArrow rest => "rule arrow: " ++ noMatch "->" rest
  | unexpectedSymbol rest => "symbol: " ++ noName rest
  | unclosedWord rest => "unterminated literal at " ++ Text.quote rest
  | emptyWord rest => "empty terminal literal at " ++ Text.quote rest

end SyntaxError

namespace Source

def isBlank (c : Char) : Bool := c == ' ' || c == '\t'

/-- Quotes, of which a word has the same one on both sides. -/
def isQuote (c : Char) : Bool := c == '"' || c == '\''

/-- The characters that a name can begin with. -/
def isNameStart (c : Char) : Bool := c.isAlpha || c == '_'

/-- The characters that a name can go on with. -/
def isNameChar (c : Char) : Bool := c.isAlphanum || c == '-' || c == '_'

/-- The rest of the line from its next token on.  A comment has none. -/
def skipBlanks (cs : List Char) : List Char :=
  match cs.dropWhile isBlank with
  | '#' :: _ => []
  | rest => rest

theorem length_skipBlanks_le (cs : List Char) : (skipBlanks cs).length ≤ cs.length := by
  have := (List.dropWhile_suffix isBlank (l := cs)).length_le
  unfold skipBlanks
  split
  · simp
  · exact this

/-- The longest name at the beginning of the line, and what follows it. -/
def takeName? : List Char → Option (String × List Char)
  | [] => none
  | c :: rest =>
    if isNameStart c then
      some (String.ofList (c :: rest.takeWhile isNameChar), rest.dropWhile isNameChar)
    else
      none

theorem length_lt_of_takeName? {cs rest : List Char} {name : String}
    (h : takeName? cs = some (name, rest)) : rest.length < cs.length := by
  unfold takeName? at h
  split at h
  · simp at h
  · next c more =>
    split at h
    · have := (List.dropWhile_suffix isNameChar (l := more)).length_le
      simp only [Option.some.injEq, Prod.mk.injEq] at h
      rw [← h.2, List.length_cons]
      omega
    · simp at h

/-- What a quoted word at the beginning of the line is, and what follows it.  The line is the quote
followed by `rest`. -/
def takeWord (q : Char) (rest : List Char) : Except SyntaxError (String × List Char) :=
  match rest.dropWhile (· != q) with
  | [] => .error (.unclosedWord (String.ofList (q :: rest)))
  | _ :: more =>
    match rest.takeWhile (· != q) with
    | [] => .error (.emptyWord (String.ofList (q :: rest)))
    | word => .ok (String.ofList word, more)

theorem length_lt_of_takeWord {q : Char} {rest more : List Char} {word : String}
    (h : takeWord q rest = .ok (word, more)) : more.length < rest.length := by
  unfold takeWord at h
  have := (List.dropWhile_suffix (· != q) (l := rest)).length_le
  split at h
  · simp at h
  · next hd =>
    rw [hd] at this
    split at h
    · simp at h
    · simp only [Except.ok.injEq, Prod.mk.injEq] at h
      rw [h.2] at this
      exact this

/-- A token of a right-hand side: a symbol, or the bar between two alternatives. -/
inductive Token where
  | bar
  | symbol (symbol : Symbol)
deriving DecidableEq

/-- The first token of a line that is not empty, and what follows it. -/
def takeToken (c : Char) (rest : List Char) : Except SyntaxError (Token × List Char) :=
  if c = '|' then
    .ok (.bar, rest)
  else if isQuote c then
    (takeWord c rest).map fun taken => (.symbol (.terminal taken.1), taken.2)
  else
    match takeName? (c :: rest) with
    | some (name, more) => .ok (.symbol (.nonterminal name), more)
    | none => .error (.unexpectedSymbol (String.ofList (c :: rest)))

theorem length_le_of_takeToken {c : Char} {rest more : List Char} {token : Token}
    (h : takeToken c rest = .ok (token, more)) : more.length ≤ rest.length := by
  unfold takeToken at h
  split at h
  · simp_all
  · split at h
    · cases hw : takeWord c rest with
      | error e => simp [hw, Except.map] at h
      | ok taken =>
        have : taken.2.length < rest.length := length_lt_of_takeWord hw
        simp [hw, Except.map] at h
        rw [← h.2]
        omega
    · split at h
      · next ht =>
        have := length_lt_of_takeName? ht
        simp only [Except.ok.injEq, Prod.mk.injEq] at h
        rw [h.2, List.length_cons] at this
        omega
      · simp at h

def tokens (cs : List Char) : Except SyntaxError (List Token) :=
  match _hs : skipBlanks cs with
  | [] => .ok []
  | c :: rest =>
    match _ht : takeToken c rest with
    | .error e => .error e
    | .ok (token, more) => (tokens more).map (token :: ·)
termination_by cs.length
decreasing_by
  have h1 := length_skipBlanks_le cs
  have h2 := length_le_of_takeToken _ht
  rw [_hs, List.length_cons] at h1
  omega

/-- The alternatives of a right-hand side: the symbols between its bars. -/
def alternatives : List Token → List (List Symbol)
  | [] => [[]]
  | .bar :: rest => [] :: alternatives rest
  | .symbol s :: rest => (alternatives rest).modifyHead (s :: ·)

inductive Line where
  | blank
  | start (name : String)
  | rules (rules : List Rule)
deriving DecidableEq

/-- A line that begins with a percent sign. -/
def readDirective (cs : List Char) : Except SyntaxError Line :=
  match cs with
  | '%' :: 's' :: 't' :: 'a' :: 'r' :: 't' :: rest =>
    match takeName? (skipBlanks rest) with
    | none => .error (.missingStartName (String.ofList (skipBlanks rest)))
    | some (name, more) =>
      if skipBlanks more = [] then .ok (.start name)
      else .error (.textAfterStart (String.ofList more))
  | _ => .error (.unknownDirective (String.ofList cs))

/-- A line that gives the alternatives of a nonterminal. -/
def readRules (cs : List Char) : Except SyntaxError Line :=
  match takeName? cs with
  | none => .error (.missingRuleName (String.ofList cs))
  | some (name, more) =>
    match skipBlanks more with
    | '-' :: '>' :: rest => (tokens rest).map fun ts => .rules ((alternatives ts).map (⟨name, ·⟩))
    | rest => .error (.missingArrow (String.ofList rest))

/-- Any line. -/
def readLine (cs : List Char) : Except SyntaxError Line :=
  match skipBlanks cs with
  | [] => .ok .blank
  | '%' :: rest => readDirective ('%' :: rest)
  | rest => readRules rest

end Source

/-- What a grammar text says: the start symbol that it names, if any, and its rules in order. -/
structure Source where
  start : Option String
  rules : List Rule
deriving DecidableEq

/-- The first malformed line, counted from one, and what is wrong with it. -/
structure MalformedLine where
  number : Nat
  cause : SyntaxError
deriving DecidableEq

namespace Source

/-- What a line says by itself. -/
def ofLine : Line → Source
  | .blank => ⟨none, []⟩
  | .start name => ⟨some name, []⟩
  | .rules rules => ⟨none, rules⟩

/-- One source followed by another, whose start symbol takes precedence. -/
def append (first second : Source) : Source :=
  ⟨second.start.or first.start, first.rules ++ second.rules⟩

instance : Append Source := ⟨append⟩

/-- What the lines say, the first of which has the given number. -/
def readLines (number : Nat) : List (List Char) → Except MalformedLine Source
  | [] => .ok ⟨none, []⟩
  | line :: more =>
    match readLine line with
    | .error cause => .error ⟨number, cause⟩
    | .ok said => (readLines (number + 1) more).map (ofLine said ++ ·)

def read (text : String) : Except MalformedLine Source := readLines 1 (Text.lines text.toList)

/-- The start symbol: the one that is named, or else the left-hand side of the first rule. -/
def startSymbol? (source : Source) : Option String :=
  source.start.or (source.rules.head?.map Rule.lhs)

end Source

end PhraseStructure
