import PhraseStructure.Parse
import PhraseStructure.Proofs.Chart.Closing
import PhraseStructure.Proofs.Nullable
import PhraseStructure.Proofs.Prediction

/-! What the items of a chart say.  An item holds at a position when its left-hand side can be
expected where it begins and the symbols before its dot derive the words up to the position.  The
items of a position are exactly those that hold there.  They hold because every addition does.  They
are all there because a derivation of the symbols before the dot can be followed from the beginning
of the item, one symbol at a time, through earlier positions, which are exact already, into a
settled one. -/

namespace PhraseStructure

open Relation

namespace Item

variable {g : Grammar} {words : List String} {item : Item} {k m : Nat}

theorem lt_of_next? {symbol : Symbol} (h : item.next? = some symbol) :
    item.dot < item.rule.rhs.length :=
  (List.getElem?_eq_some_iff.mp h).1

theorem drop_of_next? {symbol : Symbol} (h : item.next? = some symbol) :
    item.rule.rhs.drop item.dot = symbol :: item.rule.rhs.drop (item.dot + 1) := by
  obtain ⟨hlt, rfl⟩ := List.getElem?_eq_some_iff.mp h
  exact List.drop_eq_getElem_cons hlt

theorem take_advance {symbol : Symbol} (h : item.next? = some symbol) :
    item.advance.rule.rhs.take item.advance.dot = item.rule.rhs.take item.dot ++ [symbol] := by
  unfold next? at h
  rw [advance, List.take_add_one, h]
  rfl

theorem rhs_of_next? {symbol : Symbol} (h : item.next? = some symbol) :
    item.rule.rhs = item.rule.rhs.take item.dot ++ symbol :: item.rule.rhs.drop (item.dot + 1) := by
  rw [← drop_of_next? h, List.take_append_drop]

theorem next?_of_drop {symbol : Symbol} {rest : List Symbol}
    (h : item.rule.rhs.drop item.dot = symbol :: rest) : item.next? = some symbol := by
  rw [next?, ← List.head?_drop, h]
  rfl

theorem drop_advance {symbol : Symbol} {rest : List Symbol}
    (h : item.rule.rhs.drop item.dot = symbol :: rest) :
    item.advance.rule.rhs.drop item.advance.dot = rest := by
  rw [drop_of_next? (next?_of_drop h)] at h
  exact (List.cons.inj h).2

/-- What an item at position `k` says of the words: its left-hand side can be expected where it
begins, and the symbols before its dot derive the words from there up to `k`. -/
structure Holds (g : Grammar) (words : List String) (k : Nat) (item : Item) : Prop where
  rule_mem : item.rule ∈ g.rules
  dot_le : item.dot ≤ item.rule.rhs.length
  expected : Expected g.rules words g.start item.rule.lhs item.origin
  spans : Spans g.rules words (item.rule.rhs.take item.dot) item.origin k

theorem Holds.inRange (h : item.Holds g words k) : item.InRange g.rules k :=
  ⟨h.rule_mem, h.dot_le, h.spans.le⟩

theorem Holds.le_length (h : item.Holds g words k) : k ≤ words.length :=
  h.spans.le_length h.expected.le_length

theorem holds_atStart {rule : Rule} (hr : rule ∈ g.rules)
    (h : Expected g.rules words g.start rule.lhs k) : (atStart rule k).Holds g words k :=
  ⟨hr, Nat.zero_le _, h, .nil⟩

/-- A rule is found when its right-hand side derives the words. -/
theorem holds_atEnd {rule : Rule} {origin : Nat} (hr : rule ∈ g.rules)
    (h : Expected g.rules words g.start rule.lhs origin)
    (hspan : Spans g.rules words rule.rhs origin k) :
    (⟨origin, rule.rhs.length, rule⟩ : Item).Holds g words k := by
  refine ⟨hr, Nat.le_refl _, h, ?_⟩
  rw [List.take_length]
  exact hspan

theorem isComplete_atEnd (rule : Rule) (origin : Nat) :
    (⟨origin, rule.rhs.length, rule⟩ : Item).isComplete := by
  simp [isComplete]

theorem Holds.advance (h : item.Holds g words k) {symbol : Symbol}
    (hnext : item.next? = some symbol) (hspan : Spans g.rules words [symbol] k m) :
    item.advance.Holds g words m where
  rule_mem := h.rule_mem
  dot_le := lt_of_next? hnext
  expected := h.expected
  spans := by
    rw [take_advance hnext]
    exact h.spans.append hspan

theorem Holds.expected_next (h : item.Holds g words k) {name : String}
    (hnext : item.next? = some (.nonterminal name)) : Expected g.rules words g.start name k :=
  h.expected.next h.rule_mem rfl (rhs_of_next? hnext) h.spans

theorem Holds.spans_rhs (h : item.Holds g words k) (hcomplete : item.isComplete) :
    Spans g.rules words item.rule.rhs item.origin k := by
  have hspans := h.spans
  rw [isComplete, decide_eq_true_iff] at hcomplete
  rw [List.take_of_length_le hcomplete] at hspans
  exact hspans

/-- What an item at position `k` says of the words, in terms of derivations: the symbols before its
dot derive the words from its origin up to `k`, and the start symbol derives the words before the
origin with the left-hand side of the rule after them. -/
structure Derivable (g : Grammar) (words : List String) (k : Nat) (item : Item) : Prop where
  rule_mem : item.rule ∈ g.rules
  dot_le : item.dot ≤ item.rule.rhs.length
  origin_le : item.origin ≤ k
  found : Derives g.rules (item.rule.rhs.take item.dot) (sentence (words.extract item.origin k))
  awaited : ∃ after, Derives g.rules [.nonterminal g.start]
    (sentence (words.take item.origin) ++ .nonterminal item.rule.lhs :: after)

theorem holds_iff_derivable (hk : k ≤ words.length) :
    item.Holds g words k ↔ item.Derivable g words k := by
  constructor
  · intro h
    have hawaited := (expected_iff_derives.mp h.expected).2
    exact ⟨h.rule_mem, h.dot_le, h.spans.le, h.spans.derives, hawaited⟩
  · intro h
    have hle := Nat.le_trans h.origin_le hk
    exact ⟨h.rule_mem, h.dot_le, expected_iff_derives.mpr ⟨hle, h.awaited⟩,
      (spans_iff_derives hle).mpr ⟨h.origin_le, hk, h.found⟩⟩

end Item

namespace Chart

variable {g : Grammar} {words : List String} {earlier : List (List Item)} {items : List Item}

/-- At every position stand exactly the items that hold there. -/
def Exact (g : Grammar) (words : List String) (sets : List (List Item)) : Prop :=
  ∀ k set, sets[k]? = some set → ∀ item : Item, item ∈ set ↔ item.Holds g words k

theorem exact_append (hexact : Exact g words earlier)
    (h : ∀ item : Item, item ∈ items ↔ item.Holds g words earlier.length) :
    Exact g words (earlier ++ [items]) := by
  intro k set hset
  rcases Nat.lt_or_ge k earlier.length with hk | hk
  · rw [List.getElem?_append_left hk] at hset
    exact hexact k set hset
  · rw [List.getElem?_append_right hk, List.getElem?_singleton] at hset
    split at hset
    · obtain rfl := Option.some.inj hset
      obtain rfl : k = earlier.length := by omega
      exact h
    · simp at hset

/-! ### Every addition holds -/

/-- What stands at an earlier position or among the items so far holds there. -/
theorem holds_of_mem_position (hexact : Exact g words earlier)
    (hitems : ∀ item ∈ items, item.Holds g words earlier.length) {k : Nat}
    (hk : k ≤ earlier.length) {waiting : Item} (hw : waiting ∈ (earlier ++ [items])[k]?.getD []) :
    waiting.Holds g words k := by
  rcases Nat.lt_or_eq_of_le hk with hlt | rfl
  · rw [List.getElem?_append_left hlt, List.getElem?_eq_getElem hlt, Option.getD_some] at hw
    exact (hexact k _ (List.getElem?_eq_getElem hlt) waiting).mp hw
  · rw [List.getElem?_append_right (Nat.le_refl _), Nat.sub_self] at hw
    exact hitems waiting hw

theorem holds_of_mem_additions (hexact : Exact g words earlier)
    (hitems : ∀ item ∈ items, item.Holds g words earlier.length) {item x : Item}
    (hi : item ∈ items) (hx : x ∈ additions g earlier items item) :
    x.Holds g words earlier.length := by
  have hitem := hitems item hi
  cases hnext : item.next? with
  | none =>
    have hcomplete := Item.next?_eq_none.mp hnext
    have hspan := hitem.spans_rhs hcomplete
    obtain ⟨waiting, hw, hname, rfl⟩ := (mem_additions_complete hcomplete).mp hx
    have hwaits := holds_of_mem_position hexact hitems hspan.le hw
    exact hwaits.advance hname (spans_nonterminal.mpr ⟨item.rule, hitem.rule_mem, rfl, hspan⟩)
  | some symbol =>
    cases symbol with
    | terminal word => simp [additions_word hnext] at hx
    | nonterminal name =>
      rcases (mem_additions_name hnext).mp hx with ⟨rule, hr, rfl, rfl⟩ | ⟨hnull, rfl⟩
      · exact Item.holds_atStart hr (hitem.expected_next hnext)
      · have hempty := (spans_self_iff hitem.le_length).mpr (Grammar.isNullable_iff.mp hnull)
        exact hitem.advance hnext hempty

theorem holds_of_mem_close (hexact : Exact g words earlier)
    (hitems : ∀ item ∈ items, item.Holds g words earlier.length) :
    ∀ item ∈ close g earlier items, item.Holds g words earlier.length :=
  forall_mem_closeFrom (fun _ hcurrent _ hi _ hx => holds_of_mem_additions hexact hcurrent hi hx)
    hitems _ _

/-! ### Every item that holds is there -/

/-- What a set has that is to be complete at the position after those in `earlier`: the items that
begin the sentence, those that go on after the last word, and all that is added to them. -/
structure Saturated (g : Grammar) (words : List String) (earlier : List (List Item))
    (items : List Item) : Prop extends Settled g earlier items where
  start : earlier = [] → ∀ rule ∈ g.rules, rule.lhs = g.start → Item.atStart rule 0 ∈ items
  scan : ∀ k, k + 1 = earlier.length → ∀ item : Item, item.Holds g words k →
    ∀ word, words[k]? = some word → item.next? = some (.terminal word) → item.advance ∈ items

/-- The item is where it should be at position `k`: it holds there if the position is an earlier
one, and is in the set if it is the next one. -/
def Present (g : Grammar) (words : List String) (earlier : List (List Item)) (items : List Item)
    (k : Nat) (item : Item) : Prop :=
  (k < earlier.length → item.Holds g words k) ∧ (k = earlier.length → item ∈ items)

/-- A derivation of the symbols after the dot that ends at the next position takes the item along
into its set. -/
theorem mem_of_spans (hexact : Exact g words earlier) (h : Saturated g words earlier items)
    {symbols after : List Symbol} {i j : Nat} (hspan : Spans g.rules words symbols i j)
    (hj : j = earlier.length) (hlen : earlier.length ≤ words.length) (item : Item)
    (hrhs : item.rule.rhs.drop item.dot = symbols ++ after)
    (hitem : Present g words earlier items i item) :
    { item with dot := item.dot + symbols.length } ∈ items := by
  induction hspan generalizing item after with
  | nil => exact hitem.2 hj
  | @terminal word rest start stop hword hrest ih =>
    have hle := hrest.le
    have hnext := Item.next?_of_drop hrhs
    have hstart := hitem.1 (by omega)
    have hadvance : Present g words earlier items (start + 1) item.advance :=
      ⟨fun _ => hstart.advance hnext (spans_terminal.mpr ⟨hword, rfl⟩),
        fun hs => h.scan start hs item hstart word hword hnext⟩
    have := ih hj item.advance (Item.drop_advance hrhs) hadvance
    rw [Item.advance, Nat.add_assoc, Nat.add_comm 1] at this
    exact this
  | @nonterminal rule rest start middle stop hr hrule hrest ih1 ih2 =>
    have hle1 := hrule.le
    have hle2 := hrest.le
    have hnext := Item.next?_of_drop hrhs
    have hspan1 : Spans g.rules words [.nonterminal rule.lhs] start middle :=
      spans_nonterminal.mpr ⟨rule, hr, rfl, hrule⟩
    have hadvance : Present g words earlier items middle item.advance := by
      refine ⟨fun hm => (hitem.1 (by omega)).advance hnext hspan1, fun hm => ?_⟩
      rcases Nat.lt_or_ge start earlier.length with hs | hs
      · -- The rule began at an earlier position, and its completion finds the item there.
        have hstart := hitem.1 hs
        have hdone := ih1 hm (Item.atStart rule start) (List.append_nil _).symm
          ⟨fun _ => Item.holds_atStart hr (hstart.expected_next hnext), fun _ => by omega⟩
        have hset := List.getElem?_eq_getElem hs
        refine h.complete _ hdone ?_ _ hset item ((hexact _ _ hset item).mpr hstart) hnext
        simp [Item.isComplete, Item.atStart]
      · -- The rule begins and ends at the next position, so that its left-hand side is nullable.
        obtain rfl : start = middle := by omega
        refine h.skip item (hitem.2 hm) rule.lhs hnext (Grammar.isNullable_iff.mpr ?_)
        exact (spans_self_iff (by omega)).mp hspan1
    have := ih2 hj item.advance (Item.drop_advance hrhs) hadvance
    rw [Item.advance, Nat.add_assoc, Nat.add_comm 1] at this
    exact this

/-- The rules of a name that is expected at the next position begin in its set. -/
theorem atStart_mem (hexact : Exact g words earlier) (h : Saturated g words earlier items)
    (hlen : earlier.length ≤ words.length) {lower : String × Nat}
    (hleads : ReflTransGen (Leads g.rules words) (g.start, 0) lower)
    (hlower : lower.2 = earlier.length) {rule : Rule} (hr : rule ∈ g.rules)
    (hlhs : rule.lhs = lower.1) : Item.atStart rule earlier.length ∈ items := by
  induction hleads generalizing rule with
  | refl =>
    have hnil := List.length_eq_zero_iff.mp hlower.symm
    rw [← hlower]
    exact h.start hnil rule hr hlhs
  | @tail middle lower hleads hlead ih =>
    obtain ⟨upper, hu, hulhs, before, after, hrhs, hspan⟩ := hlead
    have hpresent : Present g words earlier items middle.2 (Item.atStart upper middle.2) :=
      ⟨fun _ => Item.holds_atStart hu (hulhs ▸ hleads), fun hm => hm ▸ ih hm hu hulhs⟩
    have hmem := mem_of_spans hexact h hspan hlower hlen (Item.atStart upper middle.2) hrhs hpresent
    refine h.predict _ hmem lower.1 ?_ rule hr hlhs
    simp [Item.next?, Item.atStart, hrhs]

theorem mem_of_holds (hexact : Exact g words earlier) (h : Saturated g words earlier items)
    {item : Item} (hitem : item.Holds g words earlier.length) : item ∈ items := by
  have hstart : Present g words earlier items item.origin (Item.atStart item.rule item.origin) :=
    ⟨fun _ => Item.holds_atStart hitem.rule_mem hitem.expected,
      fun ho => ho ▸ atStart_mem hexact h hitem.le_length hitem.expected ho hitem.rule_mem rfl⟩
  have := mem_of_spans hexact h hitem.spans rfl hitem.le_length _
    (List.take_append_drop item.dot _).symm hstart
  rw [List.length_take, Nat.min_eq_left hitem.dot_le] at this
  simpa [Item.atStart] using this

/-! ### The whole chart -/

theorem exact_close (hexact : Exact g words earlier) (hnodup : items.Nodup)
    (hitems : ∀ item ∈ items, item.Holds g words earlier.length)
    (hstart : earlier = [] → ∀ rule ∈ g.rules, rule.lhs = g.start → Item.atStart rule 0 ∈ items)
    (hscan : ∀ k, k + 1 = earlier.length → ∀ item : Item, item.Holds g words k →
      ∀ word, words[k]? = some word → item.next? = some (.terminal word) → item.advance ∈ items) :
    Exact g words (earlier ++ [close g earlier items]) := by
  have hholds := holds_of_mem_close hexact hitems
  have hsub : items ⊆ close g earlier items := (prefix_closeFrom g earlier _ 0 items).subset
  have hsettled := settled_close hnodup fun item hi => (hholds item hi).inRange
  have hsat : Saturated g words earlier (close g earlier items) := {
    hsettled with
    start := fun hnil rule hr hlhs => hsub (hstart hnil rule hr hlhs)
    scan := fun k hk item hi word hw hnext => hsub (hscan k hk item hi word hw hnext) }
  exact exact_append hexact fun item => ⟨hholds item, fun hi => mem_of_holds hexact hsat hi⟩

theorem mem_scanned {sets : List (List Item)} {set : List Item} (h : sets.getLast? = some set)
    {word : String} {x : Item} :
    x ∈ scanned sets word ↔
      ∃ item ∈ set, item.next? = some (.terminal word) ∧ item.advance = x := by
  simp only [scanned, h, Option.getD_some, List.mem_filterMap, Item.afterWord?_eq_some]

theorem mem_startItems {x : Item} :
    x ∈ startItems g ↔ ∃ rule ∈ g.rules, rule.lhs = g.start ∧ Item.atStart rule 0 = x := by
  simp [startItems, Grammar.startRules, and_assoc]

/-- The chart of the first words of a sentence is exact for the sentence. -/
theorem exact_build {first : List String} (hfirst : first <+: words) :
    Exact g words (build g first).sets := by
  induction first using List.reverseRecOn with
  | nil =>
    rw [sets_build_nil, ← List.nil_append [close g [] (startItems g)]]
    refine exact_close (fun k set hset => by simp at hset) (nodup_startItems g)
      (fun item hi => ?_) (fun _ rule hr hlhs => mem_startItems.mpr ⟨rule, hr, hlhs, rfl⟩)
      fun k hk => by simp at hk
    obtain ⟨rule, hr, hlhs, rfl⟩ := mem_startItems.mp hi
    exact Item.holds_atStart hr (hlhs ▸ expected_start)
  | append_singleton first word ih =>
    have hexact := ih ((List.prefix_append first [word]).trans hfirst)
    have hlength := length_sets_build g first
    have hword : words[first.length]? = some word := by
      obtain ⟨more, rfl⟩ := hfirst
      simp
    have hle : first.length < words.length := (List.getElem?_eq_some_iff.mp hword).1
    obtain ⟨set, hset⟩ : ∃ set, (build g first).sets[first.length]? = some set :=
      ⟨_, List.getElem?_eq_getElem (by omega)⟩
    have hlast : (build g first).sets.getLast? = some set := by
      rw [List.getLast?_eq_getElem?, hlength, Nat.add_sub_cancel, hset]
    rw [sets_build_append_word]
    refine exact_close hexact (nodup_scanned (build g first).nodup word) (fun x hx => ?_)
      (fun hnil => ?_) ?_
    · obtain ⟨item, hi, hnext, rfl⟩ := (mem_scanned hlast).mp hx
      rw [hlength]
      exact ((hexact _ set hset item).mp hi).advance hnext (spans_terminal.mpr ⟨hword, rfl⟩)
    · rw [hnil] at hlength
      simp at hlength
    · intro k hk item hitem word' hword' hnext
      obtain rfl : k = first.length := by omega
      obtain rfl : word' = word := Option.some.inj (hword'.symm.trans hword)
      exact (mem_scanned hlast).mpr ⟨item, (hexact _ set hset item).mpr hitem, hnext, rfl⟩

theorem mem_build_iff {k : Nat} {set : List Item} (hset : (build g words).sets[k]? = some set)
    {item : Item} : item ∈ set ↔ item.Holds g words k :=
  exact_build List.prefix_rfl k set hset item

/-- A name is accepted when one of its rules can begin the sentence and derives all of it. -/
theorem accepts_build_iff {name : String} :
    (build g words).accepts name ↔ Expected g.rules words g.start name 0 ∧
      Spans g.rules words [.nonterminal name] 0 words.length := by
  have hlength := length_sets_build g words
  obtain ⟨set, hset⟩ : ∃ set, (build g words).sets[words.length]? = some set :=
    ⟨_, List.getElem?_eq_getElem (by omega)⟩
  have hlast : (build g words).sets.getLast? = some set := by
    rw [List.getLast?_eq_getElem?, hlength, Nat.add_sub_cancel, hset]
  simp only [accepts, hlast, List.any_eq_true, Bool.and_eq_true, beq_iff_eq]
  constructor
  · rintro ⟨item, hi, ⟨horigin, hcomplete⟩, rfl⟩
    have hitem := (mem_build_iff hset).mp hi
    rw [← horigin]
    exact ⟨hitem.expected, spans_nonterminal.mpr
      ⟨item.rule, hitem.rule_mem, rfl, hitem.spans_rhs hcomplete⟩⟩
  · rintro ⟨hexpected, hspan⟩
    obtain ⟨rule, hr, rfl, hrhs⟩ := spans_nonterminal.mp hspan
    exact ⟨_, (mem_build_iff hset).mpr (Item.holds_atEnd hr hexpected hrhs),
      ⟨rfl, Item.isComplete_atEnd rule 0⟩, rfl⟩

end Chart

namespace Grammar

theorem inputError?_eq_none {words : List String} (hne : words ≠ []) (hwords : "" ∉ words) :
    inputError? words = none := by
  rw [inputError?, if_neg hne, Option.map_eq_none_iff, List.findIdx?_eq_none_iff]
  intro word hw
  rw [beq_eq_false_iff_ne]
  rintro rfl
  exact hwords hw

theorem chart_eq (g : Grammar) {words : List String} (hne : words ≠ []) (hwords : "" ∉ words) :
    g.chart words = .ok (Chart.build g words) := by
  rw [chart, inputError?_eq_none hne hwords]

/-- The chart of words has at each position exactly the items that derivations from the start symbol
give, none of them twice.  A name is accepted exactly when the start symbol derives it at the
beginning and it derives all words. -/
theorem mem_chart_iff_derivable (g : Grammar) (words : List String) (hne : words ≠ [])
    (hwords : "" ∉ words) :
    ∃ chart, g.chart words = .ok chart ∧ chart.length = words.length + 1 ∧
      (∀ items ∈ chart.sets, items.Nodup) ∧
      (∀ k items, chart.sets[k]? = some items →
        ∀ item : Item, item ∈ items ↔ item.Derivable g words k) ∧
      ∀ name, chart.accepts name ↔ name ∈ g.nonterminals ∧
        (∃ after, Derives g.rules [.nonterminal g.start] (.nonterminal name :: after)) ∧
        Derives g.rules [.nonterminal name] (sentence words) := by
  refine ⟨_, g.chart_eq hne hwords, Chart.length_sets_build g words,
    (Chart.build g words).nodup, fun k items hitems item => ?_, fun name => ?_⟩
  · have hk := (List.getElem?_eq_some_iff.mp hitems).1
    rw [Chart.length_sets_build] at hk
    rw [Chart.mem_build_iff hitems, Item.holds_iff_derivable (by omega)]
  · rw [Chart.accepts_build_iff, expected_iff_derives, spans_all_iff]
    constructor
    · rintro ⟨⟨-, hexpected⟩, hspan⟩
      obtain ⟨rule, hr, hlhs⟩ := exists_rule_of_derives hspan
      exact ⟨Table.mem_heads.mpr ⟨rule, hr, hlhs⟩, hexpected, hspan⟩
    · rintro ⟨-, hexpected, hspan⟩
      exact ⟨⟨Nat.zero_le _, hexpected⟩, hspan⟩

theorem mem_chart_iff_derivable_looping : ["x", "x"] ≠ [] ∧ "" ∉ ["x", "x"] ∧
    ∃ chart, looping.chart ["x", "x"] = .ok chart ∧ chart.length = 3 ∧
      (∀ items ∈ chart.sets, items.Nodup) ∧
      (∀ k items, chart.sets[k]? = some items →
        ∀ item : Item, item ∈ items ↔ item.Derivable looping ["x", "x"] k) ∧
      ∀ name, chart.accepts name ↔ name ∈ looping.nonterminals ∧
        (∃ after, Derives looping.rules [.nonterminal "S"] (.nonterminal name :: after)) ∧
        Derives looping.rules [.nonterminal name] (sentence ["x", "x"]) :=
  ⟨by decide, by decide, mem_chart_iff_derivable looping ["x", "x"] (by decide) (by decide)⟩

end Grammar

end PhraseStructure
