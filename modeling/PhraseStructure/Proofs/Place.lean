import PhraseStructure.Proofs.Occurrence

/-! Rules known by their places.  No two rules of a grammar are equal, so that a parser need not
compare rules symbol by symbol: dotted rules, items and constituents that hold a rule by its place
among the rules of the grammar are equal when the rules, dots and positions that they stand for are.
Everything in a chart or a forest of the grammar can be held in this way. -/

namespace PhraseStructure.Grammar

variable {g : Grammar} {rule : Rule} {words : List String}

/-- The place of a rule in the order of the grammar. -/
abbrev Place (g : Grammar) := Fin g.rules.length

def ruleAt (g : Grammar) (place : g.Place) : Rule := g.rules[place]

/-- A rule with a dot, the rule known by its place. -/
structure PlacedDot (g : Grammar) where
  place : g.Place
  dot : Nat
deriving DecidableEq

/-- An item, its rule known by its place. -/
structure PlacedItem (g : Grammar) where
  dotted : g.PlacedDot
  origin : Nat
deriving DecidableEq

/-- A constituent, its rule known by its place. -/
structure PlacedConstituent (g : Grammar) where
  place : g.Place
  start : Nat
  stop : Nat
deriving DecidableEq

def PlacedDot.value (dotted : g.PlacedDot) : Rule × Nat := (g.ruleAt dotted.place, dotted.dot)

def PlacedItem.value (item : g.PlacedItem) : Item where
  origin := item.origin
  dot := item.dotted.value.2
  rule := item.dotted.value.1

def PlacedConstituent.value (c : g.PlacedConstituent) : Constituent where
  start := c.start
  stop := c.stop
  rule := g.ruleAt c.place

theorem ruleAt_inj {i j : g.Place} : g.ruleAt i = g.ruleAt j ↔ i = j := by
  rw [Fin.ext_iff]
  exact g.nodup_rules.getElem_inj_iff

theorem exists_ruleAt (h : rule ∈ g.rules) : ∃ place, g.ruleAt place = rule := by
  obtain ⟨i, hi, heq⟩ := List.mem_iff_getElem.mp h
  exact ⟨⟨i, hi⟩, heq⟩

theorem PlacedDot.value_inj {x y : g.PlacedDot} : x.value = y.value ↔ x = y := by
  cases x
  cases y
  simp [value, ruleAt_inj]

theorem PlacedItem.value_inj {x y : g.PlacedItem} : x.value = y.value ↔ x = y := by
  cases x
  cases y
  simp [value, ← PlacedDot.value_inj, Prod.ext_iff]
  tauto

theorem PlacedConstituent.value_inj {x y : g.PlacedConstituent} : x.value = y.value ↔ x = y := by
  cases x
  cases y
  simp [value, ruleAt_inj]
  tauto

/-- Each item of a chart can be held by the place of its rule. -/
theorem exists_placedItem {chart : Chart} (h : g.chart words = .ok chart) {items : List Item}
    (hitems : items ∈ chart.sets) {item : Item} (hitem : item ∈ items) :
    ∃ placed : g.PlacedItem, placed.value = item := by
  obtain ⟨place, hplace⟩ := exists_ruleAt (occurs_of_mem_chart h hitems hitem).1
  exact ⟨⟨⟨place, item.dot⟩, item.origin⟩, by simp [PlacedItem.value, PlacedDot.value, hplace]⟩

/-- Each constituent of a forest can be held by the place of its rule. -/
theorem exists_placedConstituent {forest : Forest} (h : g.forest words = .ok forest)
    {row : List Constituent} (hrow : row ∈ forest.rows) {c : Constituent} (hc : c ∈ row) :
    ∃ placed : g.PlacedConstituent, placed.value = c := by
  cases hchart : g.chart words with
  | error e => simp [Grammar.forest, hchart, Except.map] at h
  | ok chart =>
    rw [Grammar.forest, hchart] at h
    obtain rfl := Except.ok.inj h
    obtain ⟨origin, -, rfl⟩ := List.mem_map.mp hrow
    obtain ⟨items, hset, item, hitem, -, -, hrule⟩ := (Forest.mem_row.mp hc).2
    have hmem := (occurs_of_mem_chart hchart (List.mem_of_getElem? hset) hitem).1
    obtain ⟨place, hplace⟩ := exists_ruleAt (hrule ▸ hmem)
    exact ⟨⟨place, c.start, c.stop⟩, by rw [PlacedConstituent.value, hplace]⟩

end PhraseStructure.Grammar
