import PhraseStructure.Proofs.Chart.Exact
import PhraseStructure.Proofs.Forest.OfChart
import PhraseStructure.Proofs.Tree.Derivation

/-! Parsing and derivations.  The rules that the chart of a sentence has complete are those that a
derivation from the start symbol can use, so that the trees listed are the derivation trees without
repetition, and there is one for every constituent of the forest. -/

namespace PhraseStructure

namespace Chart

variable {g : Grammar} {words : List String} {c : Constituent}

theorem inBounds_build (g : Grammar) (words : List String) : (build g words).InBounds := by
  intro items hitems item hi
  obtain ⟨k, hk, rfl⟩ := List.mem_iff_getElem.mp hitems
  have hitem := (mem_build_iff (List.getElem?_eq_getElem hk)).mp hi
  exact ⟨hitem.dot_le, Nat.lt_of_le_of_lt hitem.spans.le hk⟩

/-- The chart has a rule complete where it can be expected and derives the words. -/
theorem completes_build_iff : (build g words).Completes c ↔
    c.rule ∈ g.rules ∧ Expected g.rules words g.start c.rule.lhs c.start ∧
      Spans g.rules words c.rule.rhs c.start c.stop := by
  constructor
  · rintro ⟨items, hset, item, hi, hcomplete, horigin, hrule⟩
    have hitem := (mem_build_iff hset).mp hi
    rw [← hrule, ← horigin]
    exact ⟨hitem.rule_mem, hitem.expected, hitem.spans_rhs hcomplete⟩
  · rintro ⟨hr, hexpected, hspan⟩
    have hstop := hspan.le_length hexpected.le_length
    have hset := List.getElem?_eq_getElem (l := (build g words).sets) (i := c.stop)
      (by rw [length_sets_build]; omega)
    exact ⟨_, hset, _, (mem_build_iff hset).mpr (Item.holds_atEnd hr hexpected hspan),
      Item.isComplete_atEnd _ _, rfl, rfl⟩

/-- A tree of the grammar whose root can be expected at its place is built from what the chart has
complete. -/
theorem wellBuilt_completes {t : Tree} (h : t.WellBuilt (OfRules g.rules) words)
    (hroot : ∀ c, t.constituent? = some c → Expected g.rules words g.start c.rule.lhs c.start) :
    t.WellBuilt (build g words).Completes words := by
  induction h with
  | leaf hword => exact .leaf hword
  | @branch label span children hrule htiles hchildren ih =>
    have hexpected := hroot _ rfl
    have hspan := Tree.spans_of_tiles (fun t ht => (hchildren t ht).spans) htiles
    refine .branch (completes_build_iff.mpr ⟨hrule, hexpected, hspan⟩) htiles fun child hchild => ?_
    refine ih child hchild fun c hc => ?_
    obtain ⟨before, after, hrhs, hbefore, -⟩ := Tree.exists_spans_beside hchildren htiles hchild
    obtain ⟨_, rfl, -⟩ := Tree.constituent?_eq_some.mp hc
    exact hexpected.next hrule rfl hrhs hbefore

theorem wellBuilt_of_completes {t : Tree} (h : t.WellBuilt (build g words).Completes words) :
    t.WellBuilt (OfRules g.rules) words :=
  h.mono fun _ hc => (completes_build_iff.mp hc).1

end Chart

namespace Grammar

/-- The tree derives the words from the start symbol: its root is for the start symbol and covers
all words, every branch is for a rule of the grammar, and every leaf is the word at its place. -/
structure IsDerivationTree (g : Grammar) (words : List String) (t : Tree) : Prop where
  label : t.label? = some g.start
  span : t.span = ⟨0, words.length⟩
  wellBuilt : t.WellBuilt (OfRules g.rules) words

variable {g : Grammar} {words : List String} {t : Tree}

/-- A derivation tree is built from what the chart has complete. -/
theorem IsDerivationTree.wellBuilt_completes (h : g.IsDerivationTree words t) :
    t.WellBuilt (Chart.build g words).Completes words := by
  refine Chart.wellBuilt_completes h.wellBuilt fun c hc => ?_
  obtain ⟨children, rfl, -⟩ := Tree.constituent?_eq_some.mp hc
  have hlabel : c.rule.lhs = g.start := Option.some.inj h.label
  have hstart : c.start = 0 := congrArg Span.start h.span
  rw [hlabel, hstart]
  exact expected_start

/-- There is a derivation tree exactly when the start symbol derives the words. -/
theorem exists_derivationTree_iff : (∃ t, g.IsDerivationTree words t) ↔
    Derives g.rules [.nonterminal g.start] (sentence words) := by
  rw [← spans_all_iff]
  constructor
  · rintro ⟨t, h⟩
    have hspans := h.wellBuilt.spans
    cases t with
    | leaf => simpa [Tree.label?] using h.label
    | branch label span children =>
      obtain rfl : label = g.start := Option.some.inj h.label
      obtain rfl : span = ⟨0, words.length⟩ := h.span
      exact hspans
  · intro h
    obtain ⟨rule, hr, hlhs, hspan⟩ := spans_nonterminal.mp h
    obtain ⟨children, hsymbols, htiles, hchildren⟩ := Tree.exists_trees_of_spans hspan
    refine ⟨.branch rule.lhs ⟨0, words.length⟩ children, congrArg some hlhs, rfl, ?_⟩
    exact .branch (by rw [hsymbols]; exact hr) htiles hchildren

/-- The trees of the forest are the derivation trees without repetition. -/
theorem mem_trees_build_iff : t ∈ (Forest.ofChart (Chart.build g words) words).trees g ↔
    g.IsDerivationTree words t ∧ t.NoRepeat := by
  rw [Forest.mem_trees (Forest.aligned_ofChart _ _),
    Forest.has_ofChart (Chart.inBounds_build g words)]
  constructor
  · rintro ⟨hlabel, hspan, hbuilt, hno⟩
    exact ⟨⟨hlabel, hspan, Chart.wellBuilt_of_completes hbuilt⟩, hno⟩
  · rintro ⟨h, hno⟩
    exact ⟨h.label, h.span, h.wellBuilt_completes, hno⟩

/-- Every derivation tree can be cut to one without repetition. -/
theorem IsDerivationTree.exists_noRepeat (h : g.IsDerivationTree words t) :
    ∃ u, g.IsDerivationTree words u ∧ u.NoRepeat := by
  obtain ⟨u, hbuilt, hno, hconst, hsymbol, hspan⟩ := Tree.exists_noRepeat h.wellBuilt
  refine ⟨u, ⟨?_, hspan.trans h.span, hbuilt⟩, hno⟩
  have hlabel := h.label
  cases t with
  | leaf => simp [Tree.label?] at hlabel
  | branch label span children =>
    obtain ⟨_, _, rfl⟩ := Tree.symbol_eq_nonterminal.mp hsymbol
    exact hlabel

/-- The forest of the words has a tree exactly when the start symbol derives them. -/
theorem trees_build_ne_nil_iff :
    (Forest.ofChart (Chart.build g words) words).trees g ≠ [] ↔
      Derives g.rules [.nonterminal g.start] (sentence words) := by
  rw [← exists_derivationTree_iff]
  constructor
  · intro h
    obtain ⟨t, ht⟩ := List.exists_mem_of_ne_nil _ h
    exact ⟨t, (mem_trees_build_iff.mp ht).1⟩
  · rintro ⟨t, h⟩
    obtain ⟨u, hu⟩ := h.exists_noRepeat
    exact List.ne_nil_of_mem (mem_trees_build_iff.mpr hu)

theorem forest_eq (g : Grammar) (hne : words ≠ []) (hwords : "" ∉ words) :
    g.forest words = .ok (Forest.ofChart (Chart.build g words) words) := by
  rw [forest, chart_eq g hne hwords]
  rfl

theorem parse_eq (g : Grammar) (hne : words ≠ []) (hwords : "" ∉ words) :
    g.parse words = .ok ((Forest.ofChart (Chart.build g words) words).trees g) := by
  rw [parse, forest_eq g hne hwords]
  rfl

/-- Every constituent of the forest has a tree. -/
theorem treesOf_build_ne_nil {c : Constituent}
    (hc : (Forest.ofChart (Chart.build g words) words).Has c) :
    (Forest.ofChart (Chart.build g words) words).treesOf c ≠ [] := by
  have hcompletes := hc
  rw [Forest.has_ofChart (Chart.inBounds_build g words)] at hcompletes
  obtain ⟨hr, hexpected, hspan⟩ := Chart.completes_build_iff.mp hcompletes
  obtain ⟨children, hsymbols, htiles, hchildren⟩ := Tree.exists_trees_of_spans hspan
  have hconst : (Forest.branch c children).constituent? = some c :=
    Tree.constituent?_eq_some.mpr ⟨children, rfl, hsymbols⟩
  have htree : (Forest.branch c children).WellBuilt (OfRules g.rules) words :=
    .branch (by rw [hsymbols]; exact hr) htiles hchildren
  have hbuilt := Chart.wellBuilt_completes htree fun x hx => by
    obtain rfl := Option.some.inj (hx.symm.trans hconst)
    exact hexpected
  obtain ⟨u, hu, hno, huconst, -, -⟩ := Tree.exists_noRepeat hbuilt
  rw [← Forest.has_ofChart (Chart.inBounds_build g words) words] at hu
  exact List.ne_nil_of_mem
    ((Forest.mem_treesOf (Forest.aligned_ofChart _ _) hc).mpr ⟨huconst.trans hconst, hu, hno⟩)

/-- Parsing lists exactly the derivation trees of the words in which no branch has the rule and the
span of a branch above it, each once. -/
theorem mem_parse_iff (g : Grammar) (words : List String) (hne : words ≠ []) (hwords : "" ∉ words) :
    ∃ trees, g.parse words = .ok trees ∧ trees.Nodup ∧
      ∀ t, t ∈ trees ↔ g.IsDerivationTree words t ∧ t.NoRepeat :=
  ⟨_, parse_eq g hne hwords,
    Forest.nodup_trees (Forest.nodup_startingAt_ofChart (Chart.inBounds_build g words)) g,
    fun _ => mem_trees_build_iff⟩

theorem mem_parse_iff_looping : ["x", "x"] ≠ [] ∧ "" ∉ ["x", "x"] ∧
    ∃ trees, looping.parse ["x", "x"] = .ok trees ∧ trees.Nodup ∧
      ∀ t, t ∈ trees ↔ looping.IsDerivationTree ["x", "x"] t ∧ t.NoRepeat :=
  ⟨by decide, by decide, mem_parse_iff looping ["x", "x"] (by decide) (by decide)⟩

/-- Every constituent of the forest has a tree, and the words have a tree exactly when the chart
accepts the start symbol and exactly when this derives them. -/
theorem accepts_iff_parse_ne_nil (g : Grammar) (words : List String) (hne : words ≠ [])
    (hwords : "" ∉ words) :
    ∃ chart forest trees, g.chart words = .ok chart ∧ g.forest words = .ok forest ∧
      g.parse words = .ok trees ∧
      (∀ start, ∀ c ∈ forest.startingAt start, forest.treesOf c ≠ []) ∧
      (chart.accepts g.start ↔ trees ≠ []) ∧
      (trees ≠ [] ↔ Derives g.rules [.nonterminal g.start] (sentence words)) := by
  refine ⟨_, _, _, chart_eq g hne hwords, forest_eq g hne hwords, parse_eq g hne hwords,
    fun start c hc => ?_, ?_, trees_build_ne_nil_iff⟩
  · exact treesOf_build_ne_nil ((Forest.aligned_ofChart _ _).has hc)
  · rw [Chart.accepts_build_iff, trees_build_ne_nil_iff, spans_all_iff]
    exact ⟨And.right, fun h => ⟨expected_start, h⟩⟩

theorem accepts_iff_parse_ne_nil_looping : ["x", "x"] ≠ [] ∧ "" ∉ ["x", "x"] ∧
    ∃ chart forest trees, looping.chart ["x", "x"] = .ok chart ∧
      looping.forest ["x", "x"] = .ok forest ∧ looping.parse ["x", "x"] = .ok trees ∧
      (∀ start, ∀ c ∈ forest.startingAt start, forest.treesOf c ≠ []) ∧
      (chart.accepts "S" ↔ trees ≠ []) ∧
      (trees ≠ [] ↔ Derives looping.rules [.nonterminal "S"] (sentence ["x", "x"])) :=
  ⟨by decide, by decide, accepts_iff_parse_ne_nil looping ["x", "x"] (by decide) (by decide)⟩

end Grammar

end PhraseStructure
