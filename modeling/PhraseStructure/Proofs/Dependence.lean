import PhraseStructure.Proofs.Parse
import PhraseStructure.Proofs.Reachable

/-! What a parse depends on.  The items of a position depend on the words to its left only: a longer
sentence adds positions and leaves those that are there.  Of a grammar, chart and trees depend on
the start symbol and on the alternatives of the names that it reaches.  Two grammars that agree on
these let the same items be added in the same order, though they may allow different numbers of
steps, since going on after the last item changes nothing. -/

namespace PhraseStructure

open Relation

/-! ### Words to the right -/

namespace Chart

theorem prefix_build (g : Grammar) (first second : List String) :
    (build g first).sets <+: (build g (first ++ second)).sets := by
  induction second using List.reverseRecOn with
  | nil => simp
  | append_singleton second word ih =>
    rw [← List.append_assoc, sets_build_append_word]
    exact ih.trans (List.prefix_append _ _)

end Chart

namespace Grammar

/-- Further words leave the items of all positions up to the end of the first ones as they are. -/
theorem sets_chart_append (g : Grammar) (first second : List String) (hne : first ≠ [])
    (hfirst : "" ∉ first) (hsecond : "" ∉ second) :
    ∃ short long, g.chart first = .ok short ∧ g.chart (first ++ second) = .ok long ∧
      ∀ k ≤ first.length, ∃ items, short.sets[k]? = some items ∧ long.sets[k]? = some items := by
  have hall : "" ∉ first ++ second := by simp [hfirst, hsecond]
  refine ⟨_, _, chart_eq g hne hfirst, chart_eq g (by simp [hne]) hall, fun k hk => ?_⟩
  have hlt : k < (Chart.build g first).sets.length := by
    rw [Chart.length_sets_build]
    omega
  obtain ⟨more, hmore⟩ := Chart.prefix_build g first second
  have hset := List.getElem?_eq_getElem hlt
  refine ⟨_, hset, ?_⟩
  rw [← hmore, List.getElem?_append_left hlt, hset]

theorem sets_chart_append_looping : ["x"] ≠ [] ∧ "" ∉ ["x"] ∧ "" ∉ ["x", "x"] ∧
    ∃ short long, looping.chart ["x"] = .ok short ∧ looping.chart ["x", "x", "x"] = .ok long ∧
      ∀ k ≤ 1, ∃ items, short.sets[k]? = some items ∧ long.sets[k]? = some items :=
  ⟨by decide, by decide, by decide,
    sets_chart_append looping ["x"] ["x", "x"] (by decide) (by decide) (by decide)⟩

end Grammar

/-! ### More steps than needed -/

namespace Chart

variable {g h : Grammar} {earlier : List (List Item)} {items : List Item} {words : List String}

theorem closeFrom_of_length_le {steps index : Nat} (hlen : items.length ≤ index) :
    closeFrom g earlier steps index items = items := by
  cases steps with
  | zero => rfl
  | succ steps => rw [closeFrom, List.getElem?_eq_none hlen]

theorem closeFrom_add (steps more index : Nat) (items : List Item) :
    closeFrom g earlier (steps + more) index items =
      closeFrom g earlier more (index + steps) (closeFrom g earlier steps index items) := by
  induction steps generalizing index items with
  | zero => rw [Nat.zero_add, Nat.add_zero, closeFrom]
  | succ steps ih =>
    rw [Nat.succ_add, closeFrom, closeFrom]
    cases hitem : items[index]? with
    | none =>
      have hlen := List.getElem?_eq_none_iff.mp hitem
      dsimp only
      rw [closeFrom_of_length_le (by omega)]
    | some item =>
      dsimp only
      rw [ih, show index + 1 + steps = index + (steps + 1) by omega]

/-- The number of steps does not matter when it is enough to go through all items. -/
theorem closeFrom_eq_closeFrom {m n : Nat} (hm : (closeFrom g earlier m 0 items).length ≤ m)
    (hn : (closeFrom g earlier n 0 items).length ≤ n) :
    closeFrom g earlier m 0 items = closeFrom g earlier n 0 items := by
  have key : ∀ {a b}, a ≤ b → (closeFrom g earlier a 0 items).length ≤ a →
      closeFrom g earlier b 0 items = closeFrom g earlier a 0 items := by
    intro a b hab ha
    obtain ⟨more, rfl⟩ := Nat.exists_eq_add_of_le hab
    rw [closeFrom_add, closeFrom_of_length_le (by omega)]
  rcases Nat.le_total m n with hmn | hnm
  · exact (key hmn hm).symm
  · exact key hnm hn

/-- The positions before the last one are exact, and the items of the last one hold there. -/
theorem exact_of_sets_build {closed : List Item}
    (hsets : (build g words).sets = earlier ++ [closed]) :
    Exact g words earlier ∧ ∀ item ∈ closed, item.Holds g words earlier.length := by
  have hexact : Exact g words (earlier ++ [closed]) := hsets ▸ exact_build List.prefix_rfl
  constructor
  · intro k set hset
    have hk := (List.getElem?_eq_some_iff.mp hset).1
    exact hexact k set (by rw [List.getElem?_append_left hk, hset])
  · intro item hi
    exact (hexact earlier.length closed (by simp) item).mp hi

end Chart

/-! ### Alternatives of names that are not reached -/

namespace Grammar

/-- The grammars begin with the same one of the names, and the alternatives of each name are the
same in both and lead to the names only. -/
structure AgreeOn (names : List String) (g h : Grammar) : Prop where
  start : g.start = h.start
  start_mem : g.start ∈ names
  rulesFor : ∀ name ∈ names, g.rulesFor name = h.rulesFor name
  closed : ∀ name ∈ names, ∀ use ∈ g.uses name, use ∈ names

namespace AgreeOn

variable {names : List String} {g h : Grammar}

theorem symm (H : AgreeOn names g h) : AgreeOn names h g where
  start := H.start.symm
  start_mem := H.start ▸ H.start_mem
  rulesFor name hname := (H.rulesFor name hname).symm
  closed name hname use huse := by
    rw [uses, ← H.rulesFor name hname] at huse
    exact H.closed name hname use huse

theorem rule_mem (H : AgreeOn names g h) {rule : Rule} (hr : rule ∈ g.rules)
    (hlhs : rule.lhs ∈ names) : rule ∈ h.rules := by
  have hmem := mem_rulesFor.mpr ⟨hr, rfl⟩
  rw [H.rulesFor _ hlhs] at hmem
  exact (mem_rulesFor.mp hmem).1

/-- What one grammar derives from the names the other one derives too. -/
theorem derives (H : AgreeOn names g h) {xs ys : List Symbol} (hxs : Over names xs)
    (hd : Derives g.rules xs ys) : Derives h.rules xs ys := by
  induction hd with
  | refl => exact Derives.refl _
  | tail hd hstep ih =>
    obtain ⟨left, rule, right, hr, rfl, rfl⟩ := hstep
    have hlhs : rule.lhs ∈ names := hxs.derives H.closed hd rule.lhs (by simp)
    exact ih.trans (ReflTransGen.single ⟨left, rule, right, H.rule_mem hr hlhs, rfl, rfl⟩)

theorem isNullable (H : AgreeOn names g h) {name : String} (hname : name ∈ names) :
    g.isNullable name = h.isNullable name := by
  have hover : Over names [.nonterminal name] := by simpa [Over] using hname
  rw [Bool.eq_iff_iff, isNullable_iff, isNullable_iff]
  exact ⟨H.derives hover, H.symm.derives hover⟩

/-- An item that holds adds the same items in both grammars. -/
theorem additions_eq (H : AgreeOn names g h) {words : List String} {k : Nat} {item : Item}
    (hitem : item.Holds g words k) (earlier : List (List Item)) (current : List Item) :
    Chart.additions g earlier current item = Chart.additions h earlier current item := by
  cases hnext : item.next? with
  | none => rw [Chart.additions, Chart.additions, hnext]
  | some symbol =>
    cases symbol with
    | terminal word => rw [Chart.additions, Chart.additions, hnext]
    | nonterminal name =>
      have hname : name ∈ names :=
        (Occurs.of_expected (hitem.expected_next hnext)).mem H.start_mem H.closed
      rw [Chart.additions, Chart.additions, hnext]
      dsimp only
      rw [H.rulesFor name hname, H.isNullable hname]

theorem closeFrom_eq (H : AgreeOn names g h) {words : List String} {earlier : List (List Item)}
    (hexact : Chart.Exact g words earlier) {items : List Item}
    (hitems : ∀ item ∈ items, item.Holds g words earlier.length) (steps index : Nat) :
    Chart.closeFrom g earlier steps index items = Chart.closeFrom h earlier steps index items := by
  induction steps generalizing index items with
  | zero => rfl
  | succ steps ih =>
    rw [Chart.closeFrom, Chart.closeFrom]
    cases hitem : items[index]? with
    | none => rfl
    | some item =>
      have hmem := List.mem_of_getElem? hitem
      dsimp only
      rw [← H.additions_eq (hitems item hmem)]
      refine ih (fun x hx => ?_) _
      rcases Chart.mem_insertAll.mp hx with hx | hx
      · exact hitems x hx
      · exact Chart.holds_of_mem_additions hexact hitems hmem hx

theorem close_eq (H : AgreeOn names g h) {words : List String} {earlier : List (List Item)}
    {items : List Item} (hnodup : items.Nodup)
    (hg : (Chart.build g words).sets = earlier ++ [Chart.close g earlier items])
    (hh : (Chart.build h words).sets = earlier ++ [Chart.close h earlier items]) :
    Chart.close g earlier items = Chart.close h earlier items := by
  obtain ⟨hexact, hgholds⟩ := Chart.exact_of_sets_build hg
  obtain ⟨-, hhholds⟩ := Chart.exact_of_sets_build hh
  -- With as many steps as the first grammar allows, both find the same items.  The second one may
  -- allow another number of steps, but it is enough too.
  have hsame := H.closeFrom_eq hexact fun item hi =>
    hgholds item ((Chart.prefix_closeFrom g earlier _ 0 items).subset hi)
  have hgsteps := Chart.length_le_maxItems (Chart.nodup_closeFrom g earlier hnodup _ _)
    fun item hi => (hgholds item hi).inRange
  have hhsteps := Chart.length_le_maxItems (Chart.nodup_closeFrom h earlier hnodup _ _)
    fun item hi => (hhholds item hi).inRange
  rw [← hsame] at hhsteps
  rw [Chart.close, Chart.close, ← hsame]
  exact Chart.closeFrom_eq_closeFrom hgsteps hhsteps

theorem build_eq (H : AgreeOn names g h) (words : List String) :
    Chart.build g words = Chart.build h words := by
  refine Chart.eq_of_sets_eq ?_
  induction words using List.reverseRecOn with
  | nil =>
    have hstart : Chart.startItems g = Chart.startItems h := by
      rw [Chart.startItems, Chart.startItems, startRules, startRules, ← H.start,
        H.rulesFor _ H.start_mem]
    have hh := Chart.sets_build_nil h
    rw [← hstart] at hh
    rw [hh, Chart.sets_build_nil, H.close_eq (Chart.nodup_startItems g) (Chart.sets_build_nil g) hh]
  | append_singleton words word ih =>
    have hg := Chart.sets_build_append_word g words word
    have hh := Chart.sets_build_append_word h words word
    rw [← ih] at hh
    rw [hg, hh, H.close_eq (Chart.nodup_scanned (Chart.build g words).nodup word) hg hh]

end AgreeOn

theorem rulesFor_of_ofRules {start : String} {given : List Rule} {g : Grammar}
    (h : ofRules start given = .ok g) (name : String) :
    g.rulesFor name = Table.alternatives given name := by
  rw [rulesFor, (start_and_rules_of_ofRules h).2, Table.filter_arrange]

/-- Two lists of rules that give each reachable name the same alternatives in the same order, those
given again left out, make grammars with the same charts and the same trees in the same order. -/
theorem parse_eq_of_alternatives (start : String) (first second : List Rule) (g h : Grammar)
    (hg : ofRules start first = .ok g) (hh : ofRules start second = .ok h)
    (hsame : ∀ name ∈ g.reachable, Table.alternatives first name = Table.alternatives second name)
    (words : List String) (hne : words ≠ []) (hwords : "" ∉ words) :
    ∃ chart trees, g.chart words = .ok chart ∧ h.chart words = .ok chart ∧
      g.parse words = .ok trees ∧ h.parse words = .ok trees := by
  have H : AgreeOn g.reachable g h := {
    start := (start_and_rules_of_ofRules hg).1.trans (start_and_rules_of_ofRules hh).1.symm
    start_mem := g.start_mem_reachable
    rulesFor := fun name hname => by
      rw [rulesFor_of_ofRules hg, rulesFor_of_ofRules hh, hsame name hname]
    closed := fun name hname use huse => mem_reachable_of_uses hname huse }
  have hchart := H.build_eq words
  refine ⟨_, _, chart_eq g hne hwords, ?_, parse_eq g hne hwords, ?_⟩
  · rw [chart_eq h hne hwords, hchart]
  · rw [parse_eq h hne hwords, ← hchart, Forest.trees, Forest.trees, H.start]

/-- Rules of which the second list below is a rearrangement as far as `S` reaches. -/
def ordered : List Rule :=
  [⟨"S", [.nonterminal "A", .nonterminal "S"]⟩, ⟨"S", [.terminal "x"]⟩, ⟨"A", []⟩,
    ⟨"A", [.terminal "y"]⟩]

/-- The same alternatives interleaved, one of them given again, with rules for a name `B` that `S`
does not reach. -/
def interleaved : List Rule :=
  [⟨"A", []⟩, ⟨"B", [.nonterminal "B", .nonterminal "A"]⟩,
    ⟨"S", [.nonterminal "A", .nonterminal "S"]⟩, ⟨"A", [.terminal "y"]⟩, ⟨"B", []⟩, ⟨"A", []⟩,
    ⟨"S", [.terminal "x"]⟩]

theorem parse_eq_of_alternatives_interleaved : ∃ g h, ofRules "S" ordered = .ok g ∧
    ofRules "S" interleaved = .ok h ∧
    (∀ name ∈ g.reachable,
      Table.alternatives ordered name = Table.alternatives interleaved name) ∧
    ["y", "x"] ≠ [] ∧ "" ∉ ["y", "x"] ∧
    ∃ chart trees, g.chart ["y", "x"] = .ok chart ∧ h.chart ["y", "x"] = .ok chart ∧
      g.parse ["y", "x"] = .ok trees ∧ h.parse ["y", "x"] = .ok trees := by
  have hg : ofRules "S" ordered = .ok _ := rfl
  have hh : ofRules "S" interleaved = .ok _ := rfl
  refine ⟨_, _, hg, hh, ?_, by decide, by decide,
    parse_eq_of_alternatives "S" ordered interleaved _ _ hg hh ?_ ["y", "x"] (by decide)
      (by decide)⟩
  · decide +kernel
  · decide +kernel

end Grammar

end PhraseStructure
