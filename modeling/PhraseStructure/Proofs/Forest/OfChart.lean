import PhraseStructure.Proofs.Forest.Enumeration
import PhraseStructure.Proofs.Nullable

/-! The forest of a chart and the trees that it lists.  The chart need not be one that was built for
the words: all that counts is which rules it has complete over which spans. -/

namespace PhraseStructure

/-- The chart has the rule of the constituent complete over its span. -/
def Chart.Completes (chart : Chart) (c : Constituent) : Prop :=
  ∃ items, chart.sets[c.stop]? = some items ∧
    ∃ item ∈ items, item.isComplete ∧ item.origin = c.start ∧ item.rule = c.rule

/-- No dot of the chart stands past the end of its rule, and every item begins in the chart. -/
def Chart.InBounds (chart : Chart) : Prop :=
  ∀ items ∈ chart.sets, ∀ item ∈ items,
    item.dot ≤ item.rule.rhs.length ∧ item.origin < chart.length

instance (chart : Chart) : Decidable chart.InBounds :=
  inferInstanceAs (Decidable (∀ items ∈ chart.sets, ∀ item ∈ items,
    item.dot ≤ item.rule.rhs.length ∧ item.origin < chart.length))

namespace Forest

variable {chart : Chart} {words : List String} {c : Constituent} {origin k : Nat}

theorem constituent?_eq_some {item : Item} : constituent? origin k item = some c ↔
    (item.isComplete ∧ item.origin = origin) ∧ c = ⟨origin, k, item.rule⟩ := by
  unfold constituent?
  split
  · next h => simp [h, eq_comm]
  · next h => simp [h]

theorem mem_row : c ∈ row chart origin ↔ c.start = origin ∧ chart.Completes c := by
  simp only [row, List.mem_flatMap, List.mem_filterMap, constituent?_eq_some, Prod.exists,
    List.mem_zipIdx_iff_getElem?, Chart.Completes]
  constructor
  · rintro ⟨items, k, hset, item, hi, ⟨hcomplete, horigin⟩, rfl⟩
    exact ⟨rfl, items, hset, item, hi, hcomplete, horigin, rfl⟩
  · rintro ⟨rfl, items, hset, item, hi, hcomplete, horigin, hrule⟩
    exact ⟨items, c.stop, hset, item, hi, ⟨hcomplete, horigin⟩, by rw [hrule]⟩

theorem startingAt_ofChart (chart : Chart) (words : List String) (origin : Nat) :
    (ofChart chart words).startingAt origin =
      if origin < chart.length then row chart origin else [] := by
  rw [startingAt, ofChart, List.getElem?_map]
  split
  · next h =>
    rw [List.getElem?_range h]
    rfl
  · next h =>
    rw [List.getElem?_eq_none (by rw [List.length_range]; omega)]
    rfl

theorem mem_startingAt_ofChart : c ∈ (ofChart chart words).startingAt origin ↔
    origin < chart.length ∧ c.start = origin ∧ chart.Completes c := by
  rw [startingAt_ofChart, ← mem_row]
  split
  · next h => simp [h]
  · next h => simp [h]

theorem aligned_ofChart (chart : Chart) (words : List String) : (ofChart chart words).Aligned :=
  fun _ _ hc => (mem_startingAt_ofChart.mp hc).2.1

theorem lt_length_of_completes (h : chart.InBounds) (hc : chart.Completes c) :
    c.start < chart.length := by
  obtain ⟨items, hset, item, hi, -, horigin, -⟩ := hc
  rw [← horigin]
  exact (h items (List.mem_of_getElem? hset) item hi).2

theorem has_ofChart (h : chart.InBounds) (words : List String) :
    (ofChart chart words).Has = chart.Completes := by
  funext c
  rw [Has, mem_startingAt_ofChart, eq_iff_iff]
  exact ⟨fun hc => hc.2.2, fun hc => ⟨lt_length_of_completes h hc, rfl, hc⟩⟩

/-- Where no dot stands past the end, the items of a position that are complete differ in more than
the dot. -/
theorem nodup_filterMap_constituent? {items : List Item} (hnodup : items.Nodup)
    (hdot : ∀ item ∈ items, item.dot ≤ item.rule.rhs.length) :
    (items.filterMap (constituent? origin k)).Nodup := by
  have hdots : items.Pairwise fun a b => a ≠ b ∧ a ∈ items ∧ b ∈ items :=
    List.Pairwise.and_mem.mp hnodup |>.imp fun h => ⟨h.2.2, h.1, h.2.1⟩
  rw [List.Nodup, List.pairwise_filterMap]
  refine hdots.imp ?_
  rintro a b ⟨hne, ha, hb⟩ x hx y hy rfl
  obtain ⟨⟨hacomplete, haorigin⟩, hax⟩ := constituent?_eq_some.mp hx
  obtain ⟨⟨hbcomplete, hborigin⟩, hbx⟩ := constituent?_eq_some.mp hy
  have hrule : a.rule = b.rule := congrArg Constituent.rule (hax.symm.trans hbx)
  have hadot := hdot a ha
  have hbdot := hdot b hb
  rw [Item.isComplete, decide_eq_true_iff] at hacomplete hbcomplete
  rw [hrule] at hacomplete hadot
  obtain ⟨aorigin, adot, arule⟩ := a
  obtain ⟨borigin, bdot, brule⟩ := b
  dsimp only at *
  obtain rfl : adot = bdot := by omega
  exact hne (by rw [hrule, haorigin, hborigin])

theorem nodup_row
    (hdot : ∀ items ∈ chart.sets, ∀ item ∈ items, item.dot ≤ item.rule.rhs.length)
    (origin : Nat) : (row chart origin).Nodup := by
  rw [row]
  refine nodup_flatMap_of_key Prod.snd Constituent.stop ?_ ?_ ?_
  · rw [List.zipIdx_map_snd]
    exact List.nodup_range'
  · rintro ⟨items, k⟩ - c hc
    obtain ⟨item, -, hc⟩ := List.mem_filterMap.mp hc
    rw [(constituent?_eq_some.mp hc).2]
  · rintro ⟨items, k⟩ hset
    have hset := List.mem_of_getElem? (List.mem_zipIdx_iff_getElem?.mp hset)
    exact nodup_filterMap_constituent? (chart.nodup items hset) (hdot items hset)

theorem nodup_startingAt_ofChart (h : chart.InBounds) (origin : Nat) :
    ((ofChart chart words).startingAt origin).Nodup := by
  rw [startingAt_ofChart]
  split
  · exact nodup_row (fun items hitems item hi => (h items hitems item hi).1) origin
  · exact List.nodup_nil

theorem ofChart?_eq_of_origins
    (h : ∀ items ∈ chart.sets, ∀ item ∈ items, item.origin < chart.length) (words : List String) :
    ofChart? chart words = .ok (ofChart chart words) := by
  have hstray : stray? chart = none := by
    rw [stray?, List.find?_eq_none]
    intro item hi
    obtain ⟨items, hitems, hi⟩ := List.mem_flatten.mp hi
    have := h items hitems item hi
    simp
    omega
  rw [ofChart?, hstray]

theorem ofChart?_eq (h : chart.InBounds) (words : List String) :
    ofChart? chart words = .ok (ofChart chart words) :=
  ofChart?_eq_of_origins (fun items hitems item hi => (h items hitems item hi).2) words

/-- From whatever chart, the forest lists exactly the trees without repetition that cover all words
under the start symbol and are built from the rules that the chart has complete, each once. -/
theorem mem_trees_ofChart_iff (g : Grammar) (chart : Chart) (h : chart.InBounds)
    (words : List String) :
    ∃ f, ofChart? chart words = .ok f ∧ (f.trees g).Nodup ∧
      ∀ t, t ∈ f.trees g ↔ t.label? = some g.start ∧ t.span = ⟨0, words.length⟩ ∧
        t.WellBuilt chart.Completes words ∧ t.NoRepeat := by
  refine ⟨ofChart chart words, ofChart?_eq h words, nodup_trees (nodup_startingAt_ofChart h) g,
    fun t => ?_⟩
  rw [mem_trees (aligned_ofChart chart words), has_ofChart h words]
  rfl

/-- A chart for `Grammar.looping` that no sentence has, with a rule complete over a span that runs
backwards, another over nothing and an item that waits. -/
def strayChart : Chart where
  sets := [[⟨1, 2, ⟨"S", [.nonterminal "S", .nonterminal "S"]⟩⟩, ⟨0, 0, ⟨"S", []⟩⟩],
    [⟨0, 1, ⟨"S", [.terminal "x"]⟩⟩, ⟨0, 2, ⟨"S", [.nonterminal "S", .nonterminal "S"]⟩⟩,
      ⟨1, 1, ⟨"S", [.nonterminal "S", .nonterminal "S"]⟩⟩], []]
  nodup := by decide

theorem mem_trees_ofChart_iff_stray : strayChart.InBounds ∧
    ∃ f, ofChart? strayChart ["x"] = .ok f ∧ (f.trees Grammar.looping).Nodup ∧
      ∀ t, t ∈ f.trees Grammar.looping ↔ t.label? = some "S" ∧ t.span = ⟨0, 1⟩ ∧
        t.WellBuilt strayChart.Completes ["x"] ∧ t.NoRepeat :=
  ⟨by decide, mem_trees_ofChart_iff Grammar.looping strayChart (by decide) ["x"]⟩

end Forest

end PhraseStructure
