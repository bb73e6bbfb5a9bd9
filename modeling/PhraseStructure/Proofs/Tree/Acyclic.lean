import PhraseStructure.Proofs.Parse

/-! Grammars in which no nonterminal derives itself.  A branch that repeats the rule and the span of
a branch above it makes such a derivation: the symbols beside the path between the two derive no
words, so that the lower nonterminal is all that is left of what the upper one derives.  So without
such derivations no tree repeats a branch, and parsing lists every derivation tree. -/

namespace PhraseStructure

open Relation

/-- No nonterminal derives itself, alone, in one or more steps. -/
def Grammar.Acyclic (g : Grammar) : Prop :=
  ∀ name ∈ g.nonterminals,
    ¬TransGen (Produces g.rules) [.nonterminal name] [.nonterminal name]

theorem Spans.derives_nil {rules : List Rule} {words : List String} {symbols : List Symbol}
    {i : Nat} (h : Spans rules words symbols i i) : Derives rules symbols [] := by
  have hd := h.derives
  rw [extract_self] at hd
  exact hd

namespace Tree

variable {rules : List Rule} {words : List String} {t u : Tree}

/-- A child stands in what the symbol of its parent produces, and the symbols beside it derive the
words beside it. -/
theorem exists_produces_of_isChild (ht : t.WellBuilt (OfRules rules) words) (hu : IsChild u t) :
    ∃ left right, Produces rules [t.symbol] (left ++ u.symbol :: right) ∧
      Spans rules words left t.span.start u.span.start ∧
      Spans rules words right u.span.stop t.span.stop := by
  cases ht with
  | leaf => simp [IsChild, Tree.children] at hu
  | branch hrule htiles hchildren =>
    obtain ⟨left, right, hsymbols, hleft, hright⟩ := exists_spans_beside hchildren htiles hu
    have hstep := produces_rule hrule
    rw [hsymbols] at hstep
    exact ⟨left, right, hstep, hleft, hright⟩

theorem exists_produces_of_below (ht : t.WellBuilt (OfRules rules) words) (hu : Below u t) :
    ∃ left right, TransGen (Produces rules) [t.symbol] (left ++ u.symbol :: right) ∧
      Spans rules words left t.span.start u.span.start ∧
      Spans rules words right u.span.stop t.span.stop := by
  induction hu using TransGen.head_induction_on with
  | single hchild =>
    obtain ⟨left, right, hstep, hbeside⟩ := exists_produces_of_isChild ht hchild
    exact ⟨left, right, TransGen.single hstep, hbeside⟩
  | @head u v hchild hbelow ih =>
    obtain ⟨left, right, hsteps, hleft, hright⟩ := ih
    have hv := ht.of_within hbelow.to_reflTransGen
    obtain ⟨left', right', hstep, hleft', hright'⟩ := exists_produces_of_isChild hv hchild
    refine ⟨left ++ left', right' ++ right, ?_, hleft.append hleft', hright'.append hright⟩
    have hinner := hstep.append left right
    simp only [List.append_assoc, List.cons_append, List.nil_append] at hinner ⊢
    exact hsteps.tail hinner

/-- Where no left-hand side derives itself, no branch repeats one above it. -/
theorem WellBuilt.noRepeat (ht : t.WellBuilt (OfRules rules) words)
    (hrules : ∀ rule ∈ rules,
      ¬TransGen (Produces rules) [.nonterminal rule.lhs] [.nonterminal rule.lhs]) :
    t.NoRepeat := by
  intro upper hupper lower hlower heq
  cases upper with
  | leaf word span => exact noRepeat_leaf word span _ ReflTransGen.refl lower hlower heq
  | branch label span children =>
    have hbuilt := ht.of_within hupper
    obtain ⟨hsymbol, hspan⟩ := root_eq_of_constituent? heq
    obtain ⟨left, right, hsteps, hleft, hright⟩ := exists_produces_of_below hbuilt hlower
    -- The two branches have one span, so no words are left for the symbols beside the path.
    rw [hspan] at hleft hright
    have halone := (hleft.derives_nil.append_append (Derives.refl [lower.symbol])).append_append
      hright.derives_nil
    rw [List.append_assoc, hsymbol] at halone
    rw [hsymbol] at hsteps
    exact hrules _ (hbuilt.constituent rfl) (hsteps.trans_left halone)

end Tree

namespace Grammar

variable {g : Grammar}

/-- Parsing with an acyclic grammar lists every derivation tree of the words.  In none of them does
a branch repeat one above it, which is what parsing would leave out. -/
theorem mem_parse_iff_of_acyclic (g : Grammar) (hg : g.Acyclic) (words : List String)
    (hne : words ≠ []) (hwords : "" ∉ words) :
    ∃ trees, g.parse words = .ok trees ∧ (∀ t, t ∈ trees ↔ g.IsDerivationTree words t) ∧
      ∀ t, g.IsDerivationTree words t → t.NoRepeat := by
  have hno : ∀ t, g.IsDerivationTree words t → t.NoRepeat := fun t ht =>
    ht.wellBuilt.noRepeat fun rule hr => hg rule.lhs (Table.mem_heads.mpr ⟨rule, hr, rfl⟩)
  refine ⟨_, parse_eq g hne hwords, fun t => ?_, hno⟩
  rw [mem_trees_build_iff]
  exact ⟨And.left, fun ht => ⟨ht, hno t ht⟩⟩

/-! ### A test for acyclic grammars -/

/-- There is a word among the symbols, or every nonterminal among them has a rank below `bound`. -/
def WordOrBelow (rank : String → Nat) (bound : Nat) (symbols : List Symbol) : Prop :=
  (∃ word, .terminal word ∈ symbols) ∨ ∀ name, .nonterminal name ∈ symbols → rank name < bound

variable {rank : String → Nat} {bound : Nat}

/-- Every rule without words leads to nonterminals of lower rank only. -/
def Descends (rank : String → Nat) (rules : List Rule) : Prop :=
  ∀ rule ∈ rules, rule.words = [] → ∀ name ∈ rule.names, rank name < rank rule.lhs

theorem Descends.wordOrBelow {rules : List Rule} (h : Descends rank rules) {rule : Rule}
    (hr : rule ∈ rules) (hbound : rank rule.lhs ≤ bound) : WordOrBelow rank bound rule.rhs := by
  by_cases hwords : rule.words = []
  · refine .inr fun name hname => ?_
    have := h rule hr hwords name (Rule.mem_names.mpr hname)
    omega
  · obtain ⟨word, hword⟩ := List.exists_mem_of_ne_nil _ hwords
    exact .inl ⟨word, Rule.mem_words.mp hword⟩

theorem WordOrBelow.produces {rules : List Rule} (h : Descends rank rules) {xs ys : List Symbol}
    (hxs : WordOrBelow rank bound xs) (hstep : Produces rules xs ys) :
    WordOrBelow rank bound ys := by
  obtain ⟨left, rule, right, hr, rfl, rfl⟩ := hstep
  rcases hxs with ⟨word, hword⟩ | hbelow
  · refine .inl ⟨word, ?_⟩
    simp only [List.mem_append, List.mem_cons, reduceCtorEq, false_or] at hword ⊢
    exact hword.imp .inl id
  · have hlhs : rank rule.lhs < bound := hbelow rule.lhs (by simp)
    rcases h.wordOrBelow hr (Nat.le_of_lt hlhs) with ⟨word, hword⟩ | hrhs
    · exact .inl ⟨word, by simp [hword]⟩
    · refine .inr fun name hname => ?_
      simp only [List.mem_append] at hname
      rcases hname with (hname | hname) | hname
      · exact hbelow name (by simp [hname])
      · exact hrhs name hname
      · exact hbelow name (by simp [hname])

/-- What comes after the first step from a name has a word in it, which stays, or nonterminals of
lower rank only. -/
theorem Descends.acyclic (h : Descends rank g.rules) : g.Acyclic := by
  intro name _ hcycle
  have key : ∀ ys, TransGen (Produces g.rules) [.nonterminal name] ys →
      WordOrBelow rank (rank name) ys := by
    intro ys hys
    induction hys with
    | single hstep =>
      obtain ⟨rule, hr, rfl, rfl⟩ := produces_nonterminal.mp hstep
      exact h.wordOrBelow hr (Nat.le_refl _)
    | tail _ hstep ih => exact ih.produces h hstep
  rcases key _ hcycle with ⟨word, hword⟩ | hbelow
  · simp at hword
  · exact Nat.lt_irrefl _ (hbelow name List.mem_cons_self)

/-- A grammar that is ambiguous and left-recursive and has a nullable start symbol, and in which no
name derives itself. -/
def pairs : Grammar where
  start := "S"
  rules := [⟨"S", [.nonterminal "S", .terminal "x"]⟩, ⟨"S", [.nonterminal "A", .nonterminal "A"]⟩,
    ⟨"A", [.terminal "y"]⟩, ⟨"A", []⟩]
  nullables := ["A", "S"]
  arranged := by decide
  start_mem := by decide
  closed := by decide
  nullables_eq := by decide

theorem acyclic_pairs : pairs.Acyclic := by
  have h : Descends (fun name => if name = "S" then 1 else 0) pairs.rules := by
    unfold Descends
    decide
  exact h.acyclic

theorem mem_parse_iff_of_acyclic_pairs : pairs.Acyclic ∧ ["y", "x"] ≠ [] ∧ "" ∉ ["y", "x"] ∧
    ∃ trees, pairs.parse ["y", "x"] = .ok trees ∧
      (∀ t, t ∈ trees ↔ pairs.IsDerivationTree ["y", "x"] t) ∧
      ∀ t, pairs.IsDerivationTree ["y", "x"] t → t.NoRepeat :=
  ⟨acyclic_pairs, by decide, by decide,
    mem_parse_iff_of_acyclic pairs acyclic_pairs ["y", "x"] (by decide) (by decide)⟩

end Grammar

end PhraseStructure
