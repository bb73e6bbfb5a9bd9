import PhraseStructure.Proofs.Parse
import PhraseStructure.Proofs.Reachable

/-! The nonterminals that the walk from the start symbol sees are those that occur in what the start
symbol derives.  The walk is taken here step by step.  A step keeps the names seen apart from one
another and puts only names on the stack that occur, and no sequence of steps goes on forever.  A
rule that a chart or a tree uses is for a name that can be expected somewhere, which occurs. -/

namespace PhraseStructure.Grammar

open Relation

variable {g : Grammar} {name : String} {words : List String}

/-! ### Steps of the walk -/

/-- A step of the walk, which takes a name from the top of the stack.  The state has the names seen
and the stack, its top first. -/
inductive WalkStep (g : Grammar) : List String × List String → List String × List String → Prop
  | skip {seen stack : List String} {top : String} : top ∈ seen →
      WalkStep g (seen, top :: stack) (seen, stack)
  | visit {seen stack : List String} {top : String} : top ∉ seen →
      WalkStep g (seen, top :: stack) (seen ++ [top], (g.uses top).reverse ++ stack)

variable {seen stack : List String} {state after : List String × List String}

/-- There is no endless sequence of steps. -/
theorem wellFounded_walkStep (g : Grammar) :
    WellFounded fun after before => g.WalkStep before after := by
  apply Subrelation.wf (r := (measure fun state => g.unseenUses state.1 + state.2.length).rel)
  · intro after before hstep
    show g.unseenUses after.1 + after.2.length < g.unseenUses before.1 + before.2.length
    cases hstep with
    | skip => simp
    | visit hnew =>
      have := g.unseenUses_append hnew
      simp
      omega
  · exact (measure _).wf

theorem reflTransGen_walk (g : Grammar) (seen stack : List String) :
    ReflTransGen g.WalkStep (seen, stack) (g.walk seen stack, []) := by
  fun_induction walk with
  | case1 seen => exact ReflTransGen.refl
  | case2 seen top stack hseen ih => exact ReflTransGen.head (.skip hseen) ih
  | case3 seen top stack hnew ih => exact ReflTransGen.head (.visit hnew) ih

theorem WalkStep.walk_eq (h : g.WalkStep state after) :
    g.walk after.1 after.2 = g.walk state.1 state.2 := by
  cases h with
  | skip hseen => rw [walk, if_pos hseen]
  | visit hnew => rw [walk, if_neg hnew]

/-- Wherever the walk is, it goes on to the same names. -/
theorem reflTransGen_reachable (h : ReflTransGen g.WalkStep ([], [g.start]) state) :
    ReflTransGen g.WalkStep state (g.reachable, []) := by
  have hwalk : g.walk state.1 state.2 = g.reachable := by
    induction h with
    | refl => rfl
    | tail _ hstep ih => exact hstep.walk_eq.trans ih
  rw [← hwalk]
  exact reflTransGen_walk g state.1 state.2

/-! ### Names that occur -/

theorem occurs_start (g : Grammar) : g.Occurs g.start :=
  ⟨_, Derives.refl _, List.mem_singleton_self _⟩

theorem Occurs.of_uses {lower : String} (h : g.Occurs name) (hlower : lower ∈ g.uses name) :
    g.Occurs lower := by
  obtain ⟨symbols, hderives, hname⟩ := h
  obtain ⟨left, right, rfl⟩ := List.append_of_mem hname
  obtain ⟨rule, hr, rfl, hmem⟩ := mem_uses.mp hlower
  refine ⟨left ++ rule.rhs ++ right, hderives.tail ⟨left, rule, right, hr, rfl, rfl⟩, ?_⟩
  simp [hmem]

/-- No name has been seen twice, and all names seen or on the stack occur. -/
structure Walked (g : Grammar) (state : List String × List String) : Prop where
  nodup : state.1.Nodup
  seen : ∀ name ∈ state.1, g.Occurs name
  stack : ∀ name ∈ state.2, g.Occurs name

theorem Walked.step (h : g.Walked state) (hstep : g.WalkStep state after) : g.Walked after := by
  cases hstep with
  | skip => exact ⟨h.nodup, h.seen, fun name hname => h.stack name (List.mem_cons_of_mem _ hname)⟩
  | @visit seen stack top hnew =>
    have htop : g.Occurs top := h.stack top List.mem_cons_self
    have hnodup : (seen ++ [top]).Nodup := by
      rw [← List.concat_eq_append]
      exact h.nodup.concat hnew
    refine ⟨hnodup, fun name hname => ?_, fun name hname => ?_⟩
    · rcases List.mem_append.mp hname with hname | hname
      · exact h.seen name hname
      · rw [List.mem_singleton.mp hname]
        exact htop
    · rcases List.mem_append.mp hname with hname | hname
      · exact htop.of_uses (List.mem_reverse.mp hname)
      · exact h.stack name (List.mem_cons_of_mem _ hname)

theorem Walked.reflTransGen (h : g.Walked state) (hsteps : ReflTransGen g.WalkStep state after) :
    g.Walked after := by
  induction hsteps with
  | refl => exact h
  | tail _ hstep ih => exact ih.step hstep

theorem walked_reachable (g : Grammar) : g.Walked (g.reachable, []) := by
  have hstart : g.Walked ([], [g.start]) := ⟨List.nodup_nil, by simp, by simp [occurs_start]⟩
  exact hstart.reflTransGen (reflTransGen_reachable ReflTransGen.refl)

theorem mem_reachable_iff : name ∈ g.reachable ↔ g.Occurs name :=
  ⟨g.walked_reachable.seen name,
    fun h => h.mem g.start_mem_reachable fun _ hname _ huse => mem_reachable_of_uses hname huse⟩

/-- A nonterminal that occurs has rules. -/
theorem Occurs.mem_nonterminals (h : g.Occurs name) : name ∈ g.nonterminals := by
  refine h.mem g.start_mem fun upper _ use huse => ?_
  obtain ⟨rule, hr, -, hmem⟩ := mem_uses.mp huse
  exact g.closed rule hr use (Rule.mem_names.mpr hmem)

theorem mem_unreachable_iff : name ∈ g.unreachable ↔ name ∈ g.nonterminals ∧ ¬g.Occurs name := by
  rw [← mem_reachable_iff]
  simp [unreachable]

/-! ### Rules in charts and trees -/

theorem eq_build_of_chart {chart : Chart} (h : g.chart words = .ok chart) :
    chart = Chart.build g words := by
  unfold Grammar.chart at h
  split at h
  · simp at h
  · exact (Except.ok.inj h).symm

theorem eq_trees_of_parse {trees : List Tree} (h : g.parse words = .ok trees) :
    trees = (Forest.ofChart (Chart.build g words) words).trees g := by
  rw [parse, forest] at h
  cases hchart : g.chart words with
  | error e => simp [hchart, Except.map] at h
  | ok chart =>
    rw [hchart, eq_build_of_chart hchart] at h
    exact (Except.ok.inj h).symm

theorem occurs_of_mem_chart {chart : Chart} (h : g.chart words = .ok chart)
    {items : List Item} (hitems : items ∈ chart.sets) {item : Item} (hitem : item ∈ items) :
    item.rule ∈ g.rules ∧ g.Occurs item.rule.lhs := by
  rw [eq_build_of_chart h] at hitems
  obtain ⟨k, hk⟩ := List.mem_iff_getElem?.mp hitems
  have hholds := (Chart.mem_build_iff hk).mp hitem
  exact ⟨hholds.rule_mem, .of_expected hholds.expected⟩

theorem occurs_of_mem_parse {trees : List Tree} (h : g.parse words = .ok trees) {t u : Tree}
    (ht : t ∈ trees) (hu : u.Within t) {c : Constituent} (hc : u.constituent? = some c) :
    c.rule ∈ g.rules ∧ g.Occurs c.rule.lhs := by
  rw [eq_trees_of_parse h] at ht
  have htree := (mem_trees_build_iff.mp ht).1
  have hcompletes := (htree.wellBuilt_completes.of_within hu).constituent hc
  obtain ⟨hr, hexpected, -⟩ := Chart.completes_build_iff.mp hcompletes
  exact ⟨hr, .of_expected hexpected⟩

/-- The walk over the stack ends, wherever it begins, and from the start symbol it ends with each of
the names that occur in what the start symbol derives, once.  All of them have rules.  The other
names that have rules are listed as unreachable, in order.  Every rule in a chart or a tree is for a
name that the walk finds. -/
theorem walk_ends_with_occurring (g : Grammar) :
    (WellFounded fun after before => g.WalkStep before after) ∧
    (∀ state, ReflTransGen g.WalkStep ([], [g.start]) state →
      ReflTransGen g.WalkStep state (g.reachable, [])) ∧
    g.reachable.Nodup ∧
    (∀ name, name ∈ g.reachable ↔ ∃ symbols, Derives g.rules [.nonterminal g.start] symbols ∧
      .nonterminal name ∈ symbols) ∧
    (∀ name ∈ g.reachable, name ∈ g.nonterminals) ∧
    g.unreachable.Sublist g.nonterminals ∧ g.unreachable.Nodup ∧
    (∀ name, name ∈ g.unreachable ↔ name ∈ g.nonterminals ∧ name ∉ g.reachable) ∧
    ∀ words,
      (∀ chart, g.chart words = .ok chart → ∀ items ∈ chart.sets, ∀ item ∈ items,
        item.rule ∈ g.rules ∧ item.rule.lhs ∈ g.reachable) ∧
      ∀ trees, g.parse words = .ok trees → ∀ t ∈ trees, ∀ u : Tree, u.Within t →
        ∀ c, u.constituent? = some c → c.rule ∈ g.rules ∧ c.rule.lhs ∈ g.reachable := by
  simp only [mem_reachable_iff]
  refine ⟨g.wellFounded_walkStep, fun _ => reflTransGen_reachable, g.walked_reachable.nodup,
    fun _ => Iff.rfl, fun _ h => h.mem_nonterminals, List.filter_sublist,
    (Table.nodup_heads g.rules).filter _, fun _ => mem_unreachable_iff, fun words => ⟨?_, ?_⟩⟩
  · exact fun chart h items hitems item hitem => occurs_of_mem_chart h hitems hitem
  · exact fun trees h t ht u hu c hc => occurs_of_mem_parse h ht hu hc

/-- Rules in which `S` and `A` use one another and nothing uses `B`. -/
def stranded : List Rule :=
  [⟨"S", [.nonterminal "A", .terminal "x"]⟩, ⟨"B", [.nonterminal "S"]⟩,
    ⟨"A", [.nonterminal "S"]⟩, ⟨"A", []⟩]

theorem walk_ends_with_occurring_stranded : ∃ g chart trees, ofRules "S" stranded = .ok g ∧
    g.chart ["x"] = .ok chart ∧ g.parse ["x"] = .ok trees ∧
    (∀ items ∈ chart.sets, ∀ item ∈ items, item.rule ∈ g.rules ∧ item.rule.lhs ∈ g.reachable) ∧
    ∀ t ∈ trees, ∀ u : Tree, u.Within t →
      ∀ c, u.constituent? = some c → c.rule ∈ g.rules ∧ c.rule.lhs ∈ g.reachable := by
  obtain ⟨g, hg⟩ : ∃ g, ofRules "S" stranded = .ok g := ⟨_, rfl⟩
  have hwords : ["x"] ≠ [] ∧ "" ∉ ["x"] := by decide
  have hchart := g.chart_eq hwords.1 hwords.2
  have hparse := g.parse_eq hwords.1 hwords.2
  obtain ⟨-, -, -, -, -, -, -, -, huses⟩ := walk_ends_with_occurring g
  exact ⟨g, _, _, hg, hchart, hparse, (huses ["x"]).1 _ hchart, (huses ["x"]).2 _ hparse⟩

end PhraseStructure.Grammar
