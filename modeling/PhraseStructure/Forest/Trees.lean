import PhraseStructure.Forest.Basic
import PhraseStructure.Grammar.Basic
import PhraseStructure.Tree

/-! The trees of a forest.  The children of a constituent match the symbols of its rule and follow
one another from its start to its stop: a terminal is the word that stands there, a nonterminal is a
constituent with that left-hand side.  A constituent is taken out of the forest for the trees below
it, because a tree in which it lies inside itself says no more than the tree without the loop.  So a
path in a tree is no longer than the forest has constituents, and every sentence has a finite number
of trees.

The trees come in the order of their choices, the first and outermost choice varying slowest. -/

namespace PhraseStructure.Forest

/-- The positions up to `stop`, each once, at which a match of the symbol can end that begins at one
of `starts`. -/
def ends (f : Forest) (stop : Nat) (starts : List Nat) : Symbol → List Nat
  | .terminal word =>
    (starts.filter fun start => start < stop && f.words[start]? == some word).map (· + 1)
  | .nonterminal name =>
    (starts.flatMap fun start =>
      ((f.startingAt start).filter fun c => c.stop ≤ stop && c.rule.lhs == name).map
        Constituent.stop).eraseDups

/-- Whether constituents and words that match the symbols can follow one another from `start` to
`stop`. -/
def covers (f : Forest) (symbols : List Symbol) (start stop : Nat) : Bool :=
  (symbols.foldl (f.ends stop) [start]).contains stop

theorem mem_ends {f : Forest} {stop : Nat} {starts : List Nat} {symbol : Symbol} {p : Nat} :
    p ∈ f.ends stop starts symbol ↔ ∃ start ∈ starts, p ∈ f.ends stop [start] symbol := by
  cases symbol <;> simp [ends, List.mem_eraseDups, and_assoc]

/-- What several positions lead to is what each of them leads to. -/
theorem mem_foldl_ends {f : Forest} {stop : Nat} {symbols : List Symbol} {starts : List Nat}
    {p : Nat} :
    p ∈ symbols.foldl (f.ends stop) starts ↔
      ∃ start ∈ starts, p ∈ symbols.foldl (f.ends stop) [start] := by
  induction symbols generalizing starts with
  | nil => simp
  | cons symbol rest ih =>
    rw [List.foldl_cons, ih]
    constructor
    · rintro ⟨middle, hm, hp⟩
      obtain ⟨start, hs, hm⟩ := mem_ends.mp hm
      exact ⟨start, hs, by rw [List.foldl_cons]; exact ih.mpr ⟨middle, hm, hp⟩⟩
    · rintro ⟨start, hs, hp⟩
      rw [List.foldl_cons] at hp
      obtain ⟨middle, hm, hp⟩ := ih.mp hp
      exact ⟨middle, mem_ends.mpr ⟨start, hs, hm⟩, hp⟩

@[simp] theorem covers_nil {f : Forest} {start stop : Nat} :
    f.covers [] start stop ↔ start = stop := by
  simp [covers, eq_comm]

theorem covers_cons {f : Forest} {symbol : Symbol} {rest : List Symbol} {start stop : Nat} :
    f.covers (symbol :: rest) start stop ↔
      ∃ middle ∈ f.ends stop [start] symbol, f.covers rest middle stop := by
  simp only [covers, List.contains_iff_mem, List.foldl_cons]
  exact mem_foldl_ends

theorem covers_terminal {f : Forest} {word : String} {rest : List Symbol} {start stop : Nat} :
    f.covers (.terminal word :: rest) start stop ↔
      start < stop ∧ f.words[start]? = some word ∧ f.covers rest (start + 1) stop := by
  simp [covers_cons, ends, and_assoc]

theorem covers_nonterminal {f : Forest} {name : String} {rest : List Symbol}
    {start stop : Nat} :
    f.covers (.nonterminal name :: rest) start stop ↔
      ∃ c ∈ f.startingAt start, c.stop ≤ stop ∧ c.rule.lhs = name ∧ f.covers rest c.stop stop := by
  have hends : ∀ middle, middle ∈ f.ends stop [start] (.nonterminal name) ↔
      ∃ c ∈ f.startingAt start, (c.stop ≤ stop ∧ c.rule.lhs = name) ∧ c.stop = middle := by
    simp [ends, List.mem_eraseDups, and_assoc]
  rw [covers_cons]
  constructor
  · rintro ⟨middle, hm, hrest⟩
    obtain ⟨c, hc, ⟨hstop, hname⟩, rfl⟩ := (hends middle).mp hm
    exact ⟨c, hc, hstop, hname, hrest⟩
  · rintro ⟨c, hc, hstop, hname, hrest⟩
    exact ⟨c.stop, (hends c.stop).mpr ⟨c, hc, ⟨hstop, hname⟩, rfl⟩, hrest⟩

/-- The constituents that can stand for `name` at `start` and leave a part up to `stop` that the
symbols after it can cover. -/
def candidates (f : Forest) (name : String) (rest : List Symbol) (start stop : Nat) :
    List Constituent :=
  (f.startingAt start).filter fun c =>
    c.stop ≤ stop && c.rule.lhs == name && f.covers rest c.stop stop

/-- The sequences of trees that match the symbols and follow one another from `start` to `stop`,
where `subtrees` gives the trees of a constituent.  What follows a constituent is looked at only if
the constituent has a tree. -/
def sequences (f : Forest) (subtrees : Constituent → List Tree) :
    List Symbol → Nat → Nat → List (List Tree)
  | [], start, stop => if start = stop then [[]] else []
  | .terminal word :: rest, start, stop =>
    if start < stop ∧ f.words[start]? = some word then
      (f.sequences subtrees rest (start + 1) stop).map (.leaf word ⟨start, start + 1⟩ :: ·)
    else
      []
  | .nonterminal name :: rest, start, stop =>
    (f.candidates name rest start stop).flatMap fun c =>
      match subtrees c with
      | [] => []
      | trees =>
        let tails := f.sequences subtrees rest c.stop stop
        trees.flatMap fun tree => tails.map (tree :: ·)

/-- Every tree of the first constituent goes with every sequence after it. -/
theorem sequences_nonterminal (f : Forest) (subtrees : Constituent → List Tree) (name : String)
    (rest : List Symbol) (start stop : Nat) :
    f.sequences subtrees (.nonterminal name :: rest) start stop =
      (f.candidates name rest start stop).flatMap fun c =>
        (subtrees c).flatMap fun tree =>
          (f.sequences subtrees rest c.stop stop).map (tree :: ·) := by
  rw [sequences]
  congr 1
  funext c
  cases subtrees c <;> rfl

/-- The branch for a constituent with the given children. -/
def branch (c : Constituent) (children : List Tree) : Tree :=
  .branch c.rule.lhs ⟨c.start, c.stop⟩ children

/-- The trees of a constituent that have at most `depth` branches on a path. -/
def treesWithin (depth : Nat) (f : Forest) (c : Constituent) : List Tree :=
  match depth with
  | 0 => []
  | depth + 1 =>
    let below := f.without c
    (below.sequences (fun child => treesWithin depth below child)
      c.rule.rhs c.start c.stop).map (branch c)

/-- The trees of a constituent.  Each branch on a path takes a further constituent out of the
forest, so the forest's size bounds their number. -/
def treesOf (f : Forest) (c : Constituent) : List Tree := treesWithin (f.size + 1) f c

/-- The constituents for `name` that cover the whole sentence. -/
def roots (f : Forest) (name : String) : List Constituent :=
  (f.startingAt 0).filter fun c => c.stop == f.words.length && c.rule.lhs == name

/-- The trees of the whole sentence. -/
def trees (f : Forest) (g : Grammar) : List Tree := (f.roots g.start).flatMap f.treesOf

end PhraseStructure.Forest
