import PhraseStructure.Rule

/-! Items: rules of which a first part has been found.  A dot in the right-hand side stands after
the symbols that have been found, and the origin is the position in the sentence at which the first
of them begins.  A grammar has every rule once, so a rule stands for the one copy that the grammar
owns: to compare rules is the same as to compare which copy they are. -/

namespace PhraseStructure

/-- A rule with a dot in its right-hand side and the position at which it begins.  The rule stands
for the one copy of it in the grammar, so two items are the same when their rules are that copy and
their dots and origins agree. -/
structure Item where
  origin : Nat
  dot : Nat
  rule : Rule
deriving DecidableEq

namespace Item

/-- The item of a rule of which nothing has been found. -/
def atStart (rule : Rule) (origin : Nat) : Item := ⟨origin, 0, rule⟩

/-- The symbol after the dot. -/
def next? (item : Item) : Option Symbol := item.rule.rhs[item.dot]?

/-- Whether the dot is at the end of the rule, or past it. -/
def isComplete (item : Item) : Bool := item.rule.rhs.length ≤ item.dot

/-- The item with its dot one symbol further on. -/
def advance (item : Item) : Item := { item with dot := item.dot + 1 }

/-- The item with its dot one symbol further on, unless there is no symbol after the dot. -/
def advance? (item : Item) : Option Item :=
  if item.isComplete then none else some item.advance

/-- The item after the nonterminal `name` has been found, if it waits for it. -/
def afterName? (name : String) (item : Item) : Option Item :=
  if item.next? = some (.nonterminal name) then some item.advance else none

/-- The item after the word has been read, if it waits for it. -/
def afterWord? (word : String) (item : Item) : Option Item :=
  if item.next? = some (.terminal word) then some item.advance else none

theorem advance_injective {x y : Item} (h : x.advance = y.advance) : x = y := by
  cases x
  cases y
  simpa [advance] using h

theorem afterName?_eq_some {name : String} {item after : Item} :
    item.afterName? name = some after ↔
      item.next? = some (.nonterminal name) ∧ item.advance = after := by
  unfold afterName?
  split
  · next h => simp [h]
  · next h => simp [h]

theorem afterWord?_eq_some {word : String} {item after : Item} :
    item.afterWord? word = some after ↔
      item.next? = some (.terminal word) ∧ item.advance = after := by
  unfold afterWord?
  split
  · next h => simp [h]
  · next h => simp [h]

theorem next?_eq_none {item : Item} : item.next? = none ↔ item.isComplete := by
  simp [next?, isComplete]

/-- The rule with a dot before the symbol that is to be found next. -/
def text (item : Item) : String :=
  item.rule.lhs ++ " →" ++ Rule.symbolsText (item.rule.rhs.take item.dot) ++ " ・" ++
    Rule.symbolsText (item.rule.rhs.drop item.dot)

end Item

end PhraseStructure
