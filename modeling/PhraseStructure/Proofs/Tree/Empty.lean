import PhraseStructure.Proofs.Nullable
import PhraseStructure.Proofs.Tree.Derivation

/-! Trees over no words.  Such a tree has no leaves, and a nonterminal has one exactly when it
derives the empty sequence.  These are the nonterminals that the passes over the rules of a grammar
find, and they do so in at most one pass more than there are nonterminals. -/

namespace PhraseStructure

namespace Tree

variable {rules : List Rule} {name : String} {t : Tree}

theorem WellBuilt.leaves_eq_nil {allowed : Constituent → Prop} (h : t.WellBuilt allowed []) :
    t.leaves = [] := by
  induction h with
  | leaf hword => simp at hword
  | branch _ _ _ ih =>
    rw [leaves_branch, List.flatMap_eq_nil_iff]
    exact ih

/-- A nonterminal derives the empty sequence when it has a tree without leaves. -/
theorem derives_nil_iff_exists_tree : Derives rules [.nonterminal name] [] ↔
    ∃ t : Tree, t.label? = some name ∧ t.leaves = [] ∧ t.WellBuilt (OfRules rules) [] := by
  constructor
  · intro h
    have hspan : Spans rules [] [.nonterminal name] 0 0 := (spans_self_iff (Nat.le_refl 0)).mpr h
    obtain ⟨ts, hsymbols, -, hts⟩ := exists_trees_of_spans hspan
    obtain ⟨t, rfl, hsymbol⟩ := List.map_eq_singleton_iff.mp hsymbols
    have ht := hts t List.mem_cons_self
    obtain ⟨span, children, rfl⟩ := symbol_eq_nonterminal.mp hsymbol
    exact ⟨_, rfl, ht.leaves_eq_nil, ht⟩
  · rintro ⟨t, hlabel, -, ht⟩
    have hderives := ht.spans.derives
    cases t with
    | leaf word span => simp [label?] at hlabel
    | branch label span children =>
      obtain rfl : label = name := Option.some.inj hlabel
      simpa [symbol, sentence] using hderives

end Tree

namespace Nullable

/-- The passes over a table settle after at most one pass more than there are nonterminals.  The
names that they find, each once, are those that derive the empty sequence, which are those with a
tree without leaves.  In a grammar these names and no others are nullable, also among its words. -/
theorem settles_and_mem_names_iff (given : List Rule) :
    (∃ made ≤ (Table.heads (Table.arrange given)).length + 1,
      Settles (Table.arrange given) [] made (names (Table.arrange given))) ∧
    (names (Table.arrange given)).Nodup ∧
    (∀ name, name ∈ names (Table.arrange given) ↔
      Derives (Table.arrange given) [.nonterminal name] []) ∧
    (∀ name, name ∈ names (Table.arrange given) ↔ ∃ t : Tree, t.label? = some name ∧
      t.leaves = [] ∧ t.WellBuilt (OfRules (Table.arrange given)) []) ∧
    ∀ start g, Grammar.ofRules start given = .ok g →
      g.nullables = names (Table.arrange given) ∧
      ∀ name, g.isNullable name ↔ Derives (Table.arrange given) [.nonterminal name] [] := by
  obtain ⟨made, hmade, hsettles⟩ := exists_settles_names (Table.arrange given)
  refine ⟨⟨made, hmade, hsettles⟩, hsettles.nodup List.nodup_nil, fun _ => mem_names_iff,
    fun _ => mem_names_iff.trans Tree.derives_nil_iff_exists_tree, fun start g hg => ?_⟩
  have hrules := (Grammar.start_and_rules_of_ofRules hg).2
  refine ⟨hrules ▸ g.nullables_eq, fun name => ?_⟩
  rw [Grammar.isNullable_iff, hrules]

/-- Rules in which each nonterminal needs the ones defined after it to be nullable. -/
def chain : List Rule :=
  [⟨"S", [.nonterminal "A", .terminal "B"]⟩, ⟨"A", [.nonterminal "B", .nonterminal "B"]⟩,
    ⟨"B", [.nonterminal "C"]⟩, ⟨"C", []⟩, ⟨"C", [.nonterminal "S"]⟩]

theorem settles_and_mem_names_iff_chain : ∃ g, Grammar.ofRules "S" chain = .ok g ∧
    g.nullables = names (Table.arrange chain) ∧
    ∀ name, g.isNullable name ↔ Derives (Table.arrange chain) [.nonterminal name] [] := by
  have hg : Grammar.ofRules "S" chain = .ok _ := rfl
  exact ⟨_, hg, (settles_and_mem_names_iff chain).2.2.2.2 "S" _ hg⟩

example : names (Table.arrange chain) = ["C", "B", "A"] := by decide

end Nullable

end PhraseStructure
