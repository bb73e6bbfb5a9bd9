import PhraseStructure.Grammar.Basic

/-! The nonterminals that can appear in a derivation from the start symbol.  They are found by a
walk that keeps the names to visit on a stack.  A name that is visited for the first time puts the
nonterminals of its alternatives on the stack, the last of them on top. -/

namespace PhraseStructure.Grammar

/-- The nonterminals in the alternatives of a name, in order. -/
def uses (g : Grammar) (name : String) : List String := (g.rulesFor name).flatMap Rule.names

/-- How many names the alternatives of the names not yet seen can still put on the stack. -/
def unseenUses (g : Grammar) (seen : List String) : Nat :=
  ((g.rules.filter fun rule => !seen.contains rule.lhs).flatMap Rule.names).length

/-- A visit moves the uses of a name from the unseen ones to the stack. -/
theorem unseenUses_append (g : Grammar) {seen : List String} {name : String} (h : name ∉ seen) :
    g.unseenUses (seen ++ [name]) + (g.uses name).length = g.unseenUses seen := by
  simp only [unseenUses, uses, rulesFor]
  induction g.rules with
  | nil => rfl
  | cons rule rules ih =>
    by_cases hn : rule.lhs = name
    · subst hn
      simp [h] at ih ⊢
      omega
    · by_cases hs : rule.lhs ∈ seen <;> simp [hs, hn] at ih ⊢ <;> omega

/-- The names seen when the walk ends: those seen before it, and then those that it visits. -/
def walk (g : Grammar) (seen : List String) : List String → List String
  | [] => seen
  | name :: stack =>
    if name ∈ seen then
      g.walk seen stack
    else
      g.walk (seen ++ [name]) ((g.uses name).reverse ++ stack)
termination_by stack => g.unseenUses seen + stack.length
decreasing_by
  · simp
  · next hn =>
    have := g.unseenUses_append hn
    simp
    omega

/-- The nonterminals that can be reached from the start symbol, in the order of the walk. -/
def reachable (g : Grammar) : List String := g.walk [] [g.start]

/-- The nonterminals that cannot be reached, in the order of their first rules. -/
def unreachable (g : Grammar) : List String :=
  let seen := g.reachable
  g.nonterminals.filter fun name => !seen.contains name

end PhraseStructure.Grammar
