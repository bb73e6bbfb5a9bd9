import PhraseStructure.Proofs.Derivation
import PhraseStructure.Proofs.Tree.WellBuilt

/-! Trees built from the rules of a grammar and derivations.  A tree shows that its root derives the
words that it covers, and whatever symbols derive a part of a sentence there are trees for. -/

namespace PhraseStructure

/-- The constituent has one of the rules. -/
def OfRules (rules : List Rule) (c : Constituent) : Prop := c.rule ∈ rules

namespace Tree

variable {rules : List Rule} {words : List String} {i j : Nat}

theorem spans_of_tiles {ts : List Tree}
    (hts : ∀ t ∈ ts, Spans rules words [t.symbol] t.span.start t.span.stop)
    (h : Tiles i (ts.map span) j) : Spans rules words (ts.map symbol) i j := by
  induction ts generalizing i with
  | nil =>
    obtain rfl : i = j := h
    exact .nil
  | cons t ts ih =>
    obtain ⟨rfl, hrest⟩ := h
    have htail := ih (fun u hu => hts u (List.mem_cons_of_mem _ hu)) hrest
    exact (hts t List.mem_cons_self).append htail

/-- The symbol of a tree derives the words that the tree covers. -/
theorem WellBuilt.spans {t : Tree} (h : t.WellBuilt (OfRules rules) words) :
    Spans rules words [t.symbol] t.span.start t.span.stop := by
  induction h with
  | leaf hword => exact spans_terminal.mpr ⟨hword, rfl⟩
  | branch hrule htiles _ ih =>
    exact spans_nonterminal.mpr ⟨_, hrule, rfl, spans_of_tiles ih htiles⟩

/-- The words beside a child are derived by the symbols beside it. -/
theorem exists_spans_beside {children : List Tree} {child : Tree}
    (hchildren : ∀ t ∈ children, t.WellBuilt (OfRules rules) words)
    (htiles : Tiles i (children.map span) j) (hchild : child ∈ children) :
    ∃ before after, children.map symbol = before ++ child.symbol :: after ∧
      Spans rules words before i child.span.start ∧ Spans rules words after child.span.stop j := by
  obtain ⟨left, right, rfl⟩ := List.append_of_mem hchild
  have hspans := fun t ht => (hchildren t ht).spans
  rw [List.map_append, tiles_append] at htiles
  obtain ⟨k, hleft, rfl, hright⟩ := htiles
  refine ⟨left.map symbol, right.map symbol, by simp, spans_of_tiles (fun t ht => ?_) hleft,
    spans_of_tiles (fun t ht => ?_) hright⟩
  · exact hspans t (List.mem_append_left _ ht)
  · exact hspans t (List.mem_append_right _ (List.mem_cons_of_mem _ ht))

/-- Symbols that derive a part of the sentence have trees that tile it. -/
theorem exists_trees_of_spans {symbols : List Symbol} (h : Spans rules words symbols i j) :
    ∃ ts : List Tree, ts.map symbol = symbols ∧ Tiles i (ts.map span) j ∧
      ∀ t ∈ ts, t.WellBuilt (OfRules rules) words := by
  induction h with
  | nil => exact ⟨[], rfl, rfl, by simp⟩
  | @terminal word rest start stop hword _ ih =>
    obtain ⟨ts, hsymbols, htiles, hts⟩ := ih
    refine ⟨.leaf word ⟨start, start + 1⟩ :: ts, ?_, ⟨rfl, htiles⟩, ?_⟩
    · rw [List.map_cons, hsymbols]
      rfl
    · intro t ht
      rcases List.mem_cons.mp ht with rfl | ht
      · exact .leaf hword
      · exact hts t ht
  | @nonterminal rule rest start middle stop hr _ _ ih1 ih2 =>
    obtain ⟨children, hsymbols, htiles, hchildren⟩ := ih1
    obtain ⟨ts, htsSymbols, htsTiles, hts⟩ := ih2
    refine ⟨.branch rule.lhs ⟨start, middle⟩ children :: ts, ?_, ⟨rfl, htsTiles⟩, ?_⟩
    · rw [List.map_cons, htsSymbols]
      rfl
    · intro t ht
      rcases List.mem_cons.mp ht with rfl | ht
      · exact .branch (by rw [hsymbols]; exact hr) htiles hchildren
      · exact hts t ht

end Tree

end PhraseStructure
