import PhraseStructure.Grammar.Table

/-! The nonterminals that derive the empty sequence.  They are found in passes over the rules: a
pass learns the left-hand side of every rule whose right-hand side has only nonterminals that are
known already, those learned earlier in the same pass included.  The passes end with the first
one that learns nothing. -/

namespace PhraseStructure.Nullable

/-- Whether the right-hand side has only nonterminals from `known`. -/
def vanishes (known : List String) (symbols : List Symbol) : Bool :=
  symbols.all fun
    | .terminal _ => false
    | .nonterminal name => known.contains name

/-- What one rule adds to the nonterminals known to be nullable. -/
def learn (known : List String) (rule : Rule) : List String :=
  if !known.contains rule.lhs && vanishes known rule.rhs then known ++ [rule.lhs] else known

def pass (rules : List Rule) (known : List String) : List String := rules.foldl learn known

/-- At most `count` passes, up to the first that learns nothing. -/
def passes (rules : List Rule) : Nat → List String → List String
  | 0, known => known
  | count + 1, known =>
    let next := pass rules known
    if next.length = known.length then known else passes rules count next

/-- The nullable nonterminals in the order in which they are learned.  Each pass but the last learns
a left-hand side, so there is at most one pass more than there are left-hand sides. -/
def names (rules : List Rule) : List String := passes rules ((Table.heads rules).length + 1) []

end PhraseStructure.Nullable
