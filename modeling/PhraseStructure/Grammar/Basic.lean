import PhraseStructure.Grammar.Nullable

/-! Context-free grammars.  `Grammar.ofRules` builds a grammar from any list of rules, or names the
first defect: there are no rules, the start symbol has none, or a nonterminal is used but never
defined. -/

namespace PhraseStructure

/-- Why a list of rules with a start symbol is not a grammar. -/
inductive Defect where
  | noRules
  | undefinedStart (start : String)
  | undefinedName (name : String) (rule : Rule)
deriving DecidableEq

/-- A context-free grammar: a start symbol and arranged rules, in which the start symbol and every
nonterminal that is used have rules. -/
structure Grammar where
  start : String
  rules : List Rule
  nullables : List String
  arranged : Table.arrange rules = rules
  start_mem : start ∈ Table.heads rules
  closed : ∀ rule ∈ rules, ∀ name ∈ rule.names, name ∈ Table.heads rules
  nullables_eq : nullables = Nullable.names rules

namespace Grammar

/-- The first nonterminal in the right-hand sides, in order, for which there is no rule, and the
rule that uses it. -/
def undefinedUse? (rules : List Rule) : Option (String × Rule) :=
  let defined := Table.heads rules
  rules.findSome? fun rule =>
    (rule.names.find? fun name => !defined.contains name).map fun name => (name, rule)

theorem undefinedUse?_eq_none {rules : List Rule} :
    undefinedUse? rules = none ↔
      ∀ rule ∈ rules, ∀ name ∈ rule.names, name ∈ Table.heads rules := by
  simp [undefinedUse?, List.findSome?_eq_none_iff]

/-- The grammar with the given rules, arranged. -/
def ofRules (start : String) (given : List Rule) : Except Defect Grammar :=
  let rules := Table.arrange given
  if given = [] then
    .error .noRules
  else if hs : start ∈ Table.heads rules then
    match hu : undefinedUse? rules with
    | some (name, rule) => .error (.undefinedName name rule)
    | none => .ok {
        start
        rules
        nullables := Nullable.names rules
        arranged := Table.arrange_arrange given
        start_mem := hs
        closed := undefinedUse?_eq_none.mp hu
        nullables_eq := rfl }
  else
    .error (.undefinedStart start)

/-- A grammar has the start symbol and the rules that it was built from. -/
theorem start_and_rules_of_ofRules {start : String} {given : List Rule} {g : Grammar}
    (h : ofRules start given = .ok g) : g.start = start ∧ g.rules = Table.arrange given := by
  unfold ofRules at h
  dsimp only at h
  split at h
  · simp at h
  · split at h
    · split at h
      · simp at h
      · obtain rfl := Except.ok.inj h
        exact ⟨rfl, rfl⟩
    · simp at h

/-- Rules that define the start symbol and every nonterminal that they use make a grammar. -/
theorem exists_ofRules {start : String} {given : List Rule} (hstart : start ∈ Table.heads given)
    (hclosed : ∀ rule ∈ given, ∀ name ∈ rule.names, name ∈ Table.heads given) :
    ∃ g, ofRules start given = .ok g := by
  have hne : given ≠ [] := by
    rintro rfl
    simp at hstart
  have huse : undefinedUse? (Table.arrange given) = none := by
    rw [undefinedUse?_eq_none, Table.heads_arrange]
    exact fun rule hr => hclosed rule (Table.mem_arrange.mp hr)
  unfold ofRules
  dsimp only
  rw [if_neg hne, dif_pos (by rw [Table.heads_arrange]; exact hstart)]
  split
  · next hsome =>
    rw [huse] at hsome
    simp at hsome
  · exact ⟨_, rfl⟩

/-- The nonterminals, in the order of their first rules. -/
def nonterminals (g : Grammar) : List String := Table.heads g.rules

/-- The words of the rules, each once, in the order of their first appearance. -/
def terminals (g : Grammar) : List String := (g.rules.flatMap Rule.words).eraseDups

/-- The alternatives of a nonterminal.  Other names have none. -/
def rulesFor (g : Grammar) (name : String) : List Rule := g.rules.filter (·.lhs == name)

def startRules (g : Grammar) : List Rule := g.rulesFor g.start

/-- Whether the name derives the empty sequence. -/
def isNullable (g : Grammar) (name : String) : Bool := g.nullables.contains name

/-- Whether the name has rules. -/
def isNonterminal (g : Grammar) (name : String) : Bool := g.rules.any (·.lhs == name)

/-- Whether some rule has the word in its right-hand side. -/
def knowsWord (g : Grammar) (word : String) : Bool :=
  g.rules.any fun rule => rule.rhs.contains (.terminal word)

/-- The grammar as text: its start symbol and its nullable nonterminals, each on a line, and then
its rules. -/
def text (g : Grammar) : String :=
  "//** start: " ++ g.start ++ "\n" ++
  "//** nullables:" ++ String.join (g.nullables.map (" " ++ ·)) ++ "\n" ++
  String.join (g.rules.map fun rule => rule.text ++ "\n")

@[simp] theorem mem_rulesFor {g : Grammar} {name : String} {rule : Rule} :
    rule ∈ g.rulesFor name ↔ rule ∈ g.rules ∧ rule.lhs = name := by
  simp [rulesFor]

@[simp] theorem mem_terminals {g : Grammar} {word : String} :
    word ∈ g.terminals ↔ g.knowsWord word := by
  simp [terminals, knowsWord, List.mem_eraseDups]

@[simp] theorem mem_nonterminals {g : Grammar} {name : String} :
    name ∈ g.nonterminals ↔ g.isNonterminal name := by
  simp [nonterminals, isNonterminal]

theorem nodup_rules (g : Grammar) : g.rules.Nodup := g.arranged ▸ Table.nodup_arrange g.rules

end Grammar

end PhraseStructure
