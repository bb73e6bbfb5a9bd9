import PhraseStructure.Proofs.Place
import PhraseStructure.Proofs.Source.Print
import PhraseStructure.Proofs.Table

/-! How rules and texts become grammars.  The outcomes of a list of rules are told one by one: there
are no rules, or the start symbol has none, or some nonterminal that is used has none, of which the
first in the order of the table is reported, or the rules make a grammar with their table.  Each
list has exactly one outcome, which is the one that is computed.  A text that can be read has the
outcome of its rules. -/

namespace PhraseStructure

/-! ### Uses without rules -/

/-- Some rule is for `name`. -/
def Defines (rules : List Rule) (name : String) : Prop := ∃ rule ∈ rules, rule.lhs = name

/-- In the order of the rules and of the symbols in each of them, the first nonterminal without
rules is `name`, in `rule`. -/
def FirstUndefined (rules : List Rule) (name : String) (rule : Rule) : Prop :=
  ∃ before after left right, rules = before ++ rule :: after ∧
    rule.rhs = left ++ .nonterminal name :: right ∧ ¬Defines rules name ∧
    (∀ earlier ∈ before, ∀ other, .nonterminal other ∈ earlier.rhs → Defines rules other) ∧
    ∀ other, .nonterminal other ∈ left → Defines rules other

variable {start name text : String} {given rules : List Rule} {rule : Rule}

theorem mem_heads_iff_defines : name ∈ Table.heads rules ↔ Defines rules name := Table.mem_heads

/-- The first name of a rule that passes a test has only names that fail it in front of it. -/
theorem Rule.find?_names_eq_some {p : String → Bool} : rule.names.find? p = some name ↔
    ∃ left right, rule.rhs = left ++ .nonterminal name :: right ∧ p name ∧
      ∀ other, .nonterminal other ∈ left → ¬p other := by
  rw [Rule.names, List.find?_filterMap, Option.bind_eq_some_iff]
  constructor
  · rintro ⟨symbol, hfind, hname⟩
    obtain rfl := Symbol.name?_eq_some.mp hname
    obtain ⟨hp, left, right, hrhs, hleft⟩ := List.find?_eq_some_iff_append.mp hfind
    refine ⟨left, right, hrhs, by simpa [Symbol.name?] using hp, fun other hother => ?_⟩
    simpa [Symbol.name?] using hleft _ hother
  · rintro ⟨left, right, hrhs, hp, hleft⟩
    refine ⟨_, List.find?_eq_some_iff_append.mpr ⟨?_, left, right, hrhs, ?_⟩, rfl⟩
    · simpa [Symbol.name?] using hp
    · intro symbol hsymbol
      cases symbol with
      | terminal word => rfl
      | nonterminal other => simpa [Symbol.name?] using hleft other hsymbol

namespace Grammar

theorem undefinedUse?_eq_some :
    undefinedUse? rules = some (name, rule) ↔ FirstUndefined rules name rule := by
  have hrule : ∀ r : Rule, (r.names.find? fun n => !(Table.heads rules).contains n) = none ↔
      ∀ other, .nonterminal other ∈ r.rhs → Defines rules other := by
    intro r
    simp [List.find?_eq_none, Defines]
  rw [undefinedUse?, List.findSome?_eq_some_iff]
  constructor
  · rintro ⟨before, found, after, hrules, hfound, hbefore⟩
    obtain ⟨n, hfind, hpair⟩ := Option.map_eq_some_iff.mp hfound
    obtain ⟨rfl, rfl⟩ := Prod.mk.inj hpair
    obtain ⟨left, right, hrhs, hundefined, hleft⟩ := Rule.find?_names_eq_some.mp hfind
    refine ⟨before, after, left, right, hrules, hrhs, by simpa [Defines] using hundefined,
      fun earlier he => (hrule earlier).mp (Option.map_eq_none_iff.mp (hbefore earlier he)), ?_⟩
    simpa [Defines] using hleft
  · rintro ⟨before, after, left, right, hrules, hrhs, hundefined, hbefore, hleft⟩
    refine ⟨before, rule, after, hrules, Option.map_eq_some_iff.mpr ⟨name, ?_, rfl⟩,
      fun earlier he => Option.map_eq_none_iff.mpr ((hrule earlier).mpr (hbefore earlier he))⟩
    refine Rule.find?_names_eq_some.mpr ⟨left, right, hrhs, ?_, ?_⟩
    · simpa [Defines] using hundefined
    · simpa [Defines] using hleft

/-! ### Outcomes of rules -/

/-- The nonterminals with their rules. -/
def table (g : Grammar) : List (String × List Rule) :=
  g.nonterminals.map fun name => (name, g.rulesFor name)

/-- What becomes of a start symbol and rules. -/
inductive Builds (start : String) (given : List Rule) : Except Defect Grammar → Prop
  | noRules : given = [] → Builds start given (.error .noRules)
  | undefinedStart : given ≠ [] → ¬Defines given start →
      Builds start given (.error (.undefinedStart start))
  | undefinedName {table : List (String × List Rule)} {name : String} {rule : Rule} :
      Defines given start → Table.IsTable given table →
      FirstUndefined (table.flatMap Prod.snd) name rule →
      Builds start given (.error (.undefinedName name rule))
  | grammar {g : Grammar} : Defines given start →
      (∀ rule ∈ given, ∀ name, .nonterminal name ∈ rule.rhs → Defines given name) →
      g.start = start → Table.IsTable given g.table → Builds start given (.ok g)

theorem table_eq (g : Grammar) : g.table = Table.groups g.rules := by
  rw [table, Table.groups, nonterminals]
  refine List.map_congr_left fun name _ => ?_
  rw [rulesFor, ← Table.filter_arrange, g.arranged]

theorem flatMap_table (g : Grammar) : g.table.flatMap Prod.snd = g.rules := by
  rw [table_eq, Table.flatMap_groups, g.arranged]

theorem isTable_of_ofRules {g : Grammar} (h : ofRules start given = .ok g) :
    Table.IsTable given g.table := by
  rw [Table.isTable_iff, table_eq, (start_and_rules_of_ofRules h).2, Table.groups_arrange]

theorem ofRules_of_not_defines (hne : given ≠ []) (h : ¬Defines given start) :
    ofRules start given = .error (.undefinedStart start) := by
  unfold ofRules
  dsimp only
  rw [if_neg hne, dif_neg]
  rwa [Table.heads_arrange, mem_heads_iff_defines]

theorem ofRules_of_undefinedUse? (h : Defines given start)
    (hu : undefinedUse? (Table.arrange given) = some (name, rule)) :
    ofRules start given = .error (.undefinedName name rule) := by
  have hne : given ≠ [] := by
    rintro rfl
    simp [Defines] at h
  unfold ofRules
  dsimp only
  rw [if_neg hne, dif_pos (by rwa [Table.heads_arrange, mem_heads_iff_defines])]
  split
  · next hsome =>
    obtain ⟨rfl, rfl⟩ := Prod.mk.inj (Option.some.inj (hu.symm.trans hsome))
    rfl
  · next hnone =>
    rw [hu] at hnone
    simp at hnone

theorem builds_ofRules (start : String) (given : List Rule) :
    Builds start given (ofRules start given) := by
  by_cases hne : given = []
  · subst hne
    exact .noRules rfl
  · by_cases hstart : Defines given start
    · cases hu : undefinedUse? (Table.arrange given) with
      | some use =>
        obtain ⟨name, rule⟩ := use
        rw [ofRules_of_undefinedUse? hstart hu]
        have htable := Table.isTable_fill given
        refine .undefinedName hstart htable ?_
        rw [htable.rules_eq]
        exact undefinedUse?_eq_some.mp hu
      | none =>
        have hclosed : ∀ rule ∈ given, ∀ name ∈ rule.names, name ∈ Table.heads given := by
          rw [undefinedUse?_eq_none, Table.heads_arrange] at hu
          exact fun rule hr => hu rule (Table.mem_arrange.mpr hr)
        obtain ⟨g, hg⟩ := exists_ofRules (mem_heads_iff_defines.mpr hstart) hclosed
        rw [hg]
        refine .grammar hstart (fun rule hr name hname => ?_)
          (start_and_rules_of_ofRules hg).1 (isTable_of_ofRules hg)
        exact mem_heads_iff_defines.mp (hclosed rule hr name (Rule.mem_names.mpr hname))
    · rw [ofRules_of_not_defines hne hstart]
      exact .undefinedStart hne hstart

theorem ofRules_eq_of_builds {outcome : Except Defect Grammar} (h : Builds start given outcome) :
    ofRules start given = outcome := by
  cases h with
  | noRules hnil => rw [hnil]; rfl
  | undefinedStart hne hstart => exact ofRules_of_not_defines hne hstart
  | undefinedName hstart htable hfirst =>
    rw [htable.rules_eq] at hfirst
    exact ofRules_of_undefinedUse? hstart (undefinedUse?_eq_some.mpr hfirst)
  | @grammar g hstart hclosed hgstart htable =>
    obtain ⟨h, hh⟩ := exists_ofRules (mem_heads_iff_defines.mpr hstart) fun rule hr name hname =>
      mem_heads_iff_defines.mpr (hclosed rule hr name (Rule.mem_names.mp hname))
    obtain ⟨hhstart, hhrules⟩ := start_and_rules_of_ofRules hh
    rw [hh, eq_of_start_of_rules (hhstart.trans hgstart.symm)]
    rw [hhrules, ← htable.rules_eq, flatMap_table]

theorem ofRules_eq_iff_builds {outcome : Except Defect Grammar} :
    ofRules start given = outcome ↔ Builds start given outcome :=
  ⟨fun h => h ▸ builds_ofRules start given, ofRules_eq_of_builds⟩

/-! ### Outcomes of texts -/

/-- What becomes of a text.  The start symbol of a text without rules does not matter. -/
inductive Reads (text : String) : Except GrammarError Grammar → Prop
  | malformed {line : MalformedLine} : Source.read text = .error line →
      Reads text (.error (.malformed line))
  | defective {source : Source} {start : String} {defect : Defect} :
      Source.read text = .ok source → (∀ name ∈ source.startSymbol?, start = name) →
      Builds start source.rules (.error defect) → Reads text (.error (.defective defect))
  | grammar {source : Source} {start : String} {g : Grammar} :
      Source.read text = .ok source → (∀ name ∈ source.startSymbol?, start = name) →
      Builds start source.rules (.ok g) → Reads text (.ok g)

theorem exists_start (source : Source) : ∃ start, ∀ name ∈ source.startSymbol?, start = name :=
  ⟨source.startSymbol?.getD "", fun name h => by rw [h]; rfl⟩

theorem ofSource_eq {source : Source} (hstart : ∀ name ∈ source.startSymbol?, start = name) :
    ofSource source = ofRules start source.rules := by
  rw [ofSource]
  cases h : source.startSymbol? with
  | some name => rw [hstart name h]
  | none =>
    have hrules : source.rules = [] := by
      rw [Source.startSymbol?, Option.or_eq_none_iff, Option.map_eq_none_iff] at h
      exact List.head?_eq_none_iff.mp h.2
    rw [hrules]
    rfl

theorem ofText_eq_iff_reads {outcome : Except GrammarError Grammar} :
    ofText text = outcome ↔ Reads text outcome := by
  constructor
  · rintro rfl
    unfold ofText
    cases hread : Source.read text with
    | error line => exact .malformed hread
    | ok source =>
      obtain ⟨start, hstart⟩ := exists_start source
      have hbuilds := builds_ofRules start source.rules
      dsimp only
      rw [ofSource_eq hstart]
      cases hrules : ofRules start source.rules with
      | error defect => exact .defective hread hstart (hrules ▸ hbuilds)
      | ok g => exact .grammar hread hstart (hrules ▸ hbuilds)
  · intro h
    unfold ofText
    cases h with
    | malformed hread => rw [hread]
    | defective hread hstart hbuilds | grammar hread hstart hbuilds =>
      rw [hread]
      dsimp only
      rw [ofSource_eq hstart, ofRules_eq_of_builds hbuilds]

theorem reads_noRules_iff : Reads text (.error (.defective .noRules)) ↔
    ∃ source, Source.read text = .ok source ∧ source.rules = [] := by
  constructor
  · intro h
    cases h with
    | defective hread _ hbuilds =>
      cases hbuilds with
      | noRules hnil => exact ⟨_, hread, hnil⟩
  · rintro ⟨source, hread, hnil⟩
    obtain ⟨start, hstart⟩ := exists_start source
    exact .defective hread hstart (.noRules hnil)

/-- A line that gives alternatives gives at least one. -/
theorem ne_nil_of_written_rules {line : List Char} (h : Source.Written line (.rules rules)) :
    rules ≠ [] := by
  cases h with
  | rules _ _ _ hright =>
    obtain ⟨parts, rest, -, -, hne, hparts⟩ := hright
    intro hnil
    rw [List.map_eq_nil_iff] at hnil
    subst hnil
    exact hne (List.forall₂_nil_right_iff.mp hparts)

theorem written_and_rules_eq_nil_iff {line : List Char} :
    (∃ said, Source.Written line said ∧ (Source.ofLine said).rules = []) ↔
      (∃ said, Source.Written line said) ∧ ∀ rules, ¬Source.Written line (.rules rules) := by
  constructor
  · rintro ⟨said, hsaid, hnil⟩
    refine ⟨⟨said, hsaid⟩, fun rules hrules => ne_nil_of_written_rules hrules ?_⟩
    have hread := (Source.readLine_eq_ok.mpr hsaid).symm.trans (Source.readLine_eq_ok.mpr hrules)
    rwa [Except.ok.inj hread] at hnil
  · rintro ⟨⟨said, hsaid⟩, hnone⟩
    refine ⟨said, hsaid, ?_⟩
    cases said with
    | blank => rfl
    | start name => rfl
    | rules rules => exact absurd hsaid (hnone rules)

theorem ofText_eq_noRules_iff : ofText text = .error (.defective .noRules) ↔
    ∀ line ∈ Text.lines text.toList,
      (∃ said, Source.Written line said) ∧ ∀ rules, ¬Source.Written line (.rules rules) := by
  simp only [← written_and_rules_eq_nil_iff]
  rw [ofText_eq_iff_reads, reads_noRules_iff, ← Source.exists_forall₂_iff]
  constructor
  · rintro ⟨source, hread, hnil⟩
    obtain ⟨said, hsaid, rfl⟩ := Source.readLines_eq_ok.mp hread
    exact ⟨said, Source.forall₂_and_right.mpr ⟨hsaid, List.flatMap_eq_nil_iff.mp hnil⟩⟩
  · rintro ⟨said, hboth⟩
    obtain ⟨hsaid, hnil⟩ := Source.forall₂_and_right.mp hboth
    exact ⟨_, Source.readLines_eq_ok.mpr ⟨said, hsaid, rfl⟩, List.flatMap_eq_nil_iff.mpr hnil⟩

/-- Rules have one table, however they are interleaved and repeated, with no empty group and no rule
twice.  They make a grammar with this table, or show the first defect: there are no rules, or none
for the start symbol, or the first nonterminal in the table without rules.  The grammar's dotted
rules, items and constituents are the same when they hold the same rule of the table.  A text that
can be read has the outcome of its rules, and shows that there are none when no line gives one. -/
theorem outcomes_of_rules_and_texts :
    (∀ given, (∀ table, Table.IsTable given table ↔ table = Table.fill given) ∧
      (∀ group ∈ Table.fill given, group.2 ≠ []) ∧
      ((Table.fill given).flatMap Prod.snd).Nodup) ∧
    (∀ start given outcome, ofRules start given = outcome ↔ Builds start given outcome) ∧
    (∀ start given g, ofRules start given = .ok g →
      g.table = Table.fill given ∧ g.rules = (Table.fill given).flatMap Prod.snd ∧
      (∀ x y : g.PlacedDot, x = y ↔ x.value = y.value) ∧
      (∀ x y : g.PlacedItem, x = y ↔ x.value = y.value) ∧
      (∀ x y : g.PlacedConstituent, x = y ↔ x.value = y.value) ∧
      ∀ words,
        (∀ chart, g.chart words = .ok chart → ∀ items ∈ chart.sets, ∀ item ∈ items,
          ∃ placed : g.PlacedItem, placed.value = item) ∧
        ∀ forest, g.forest words = .ok forest → ∀ row ∈ forest.rows, ∀ c ∈ row,
          ∃ placed : g.PlacedConstituent, placed.value = c) ∧
    ∀ text,
      (∀ outcome, ofText text = outcome ↔ Reads text outcome) ∧
      (ofText text = .error (.defective .noRules) ↔
        ∀ line ∈ Text.lines text.toList,
          (∃ said, Source.Written line said) ∧ ∀ rules, ¬Source.Written line (.rules rules)) := by
  have hfill : ∀ given table, Table.IsTable given table ↔ table = Table.fill given := by
    intro given table
    rw [Table.isTable_iff, Table.isTable_iff.mp (Table.isTable_fill given)]
  refine ⟨fun given => ?_, fun start given outcome => ofRules_eq_iff_builds, ?_,
    fun text => ⟨fun outcome => ofText_eq_iff_reads, ofText_eq_noRules_iff⟩⟩
  · have htable := Table.isTable_fill given
    exact ⟨hfill given, fun group => htable.ne_nil, htable.nodup⟩
  · intro start given g hg
    have htable := (hfill given g.table).mp (isTable_of_ofRules hg)
    refine ⟨htable, by rw [← htable, flatMap_table], fun x y => PlacedDot.value_inj.symm,
      fun x y => PlacedItem.value_inj.symm, fun x y => PlacedConstituent.value_inj.symm,
      fun words => ⟨?_, ?_⟩⟩
    · exact fun chart h items hitems item hitem => exists_placedItem h hitems hitem
    · exact fun forest h row hrow c hc => exists_placedConstituent h hrow hc

/-- Rules for `S` and `A` interleaved, some of them given again. -/
def entwined : List Rule :=
  [⟨"S", [.nonterminal "A", .terminal "x"]⟩, ⟨"A", []⟩, ⟨"S", [.terminal "x"]⟩, ⟨"A", []⟩,
    ⟨"A", [.nonterminal "S"]⟩, ⟨"S", [.nonterminal "A", .terminal "x"]⟩]

/-- The use of `V` stands behind that of `U` here, but in front of it in the table. -/
def overtaken : List Rule :=
  [⟨"S", []⟩, ⟨"A", [.nonterminal "U"]⟩, ⟨"S", [.nonterminal "A", .nonterminal "V"]⟩]

theorem outcomes_of_rules_and_texts_entwined :
    Builds "S" overtaken
      (.error (.undefinedName "V" ⟨"S", [.nonterminal "A", .nonterminal "V"]⟩)) ∧
    ∃ g chart forest, ofRules "S" entwined = .ok g ∧ g.chart ["x"] = .ok chart ∧
      g.forest ["x"] = .ok forest ∧
      g.rules = [⟨"S", [.nonterminal "A", .terminal "x"]⟩, ⟨"S", [.terminal "x"]⟩, ⟨"A", []⟩,
        ⟨"A", [.nonterminal "S"]⟩] ∧
      (∀ x y : g.PlacedItem, x = y ↔ x.value = y.value) ∧
      (∀ items ∈ chart.sets, ∀ item ∈ items, ∃ placed : g.PlacedItem, placed.value = item) ∧
      ∀ row ∈ forest.rows, ∀ c ∈ row, ∃ placed : g.PlacedConstituent, placed.value = c := by
  obtain ⟨-, houtcome, hgrammar, -⟩ := outcomes_of_rules_and_texts
  refine ⟨(houtcome "S" overtaken _).mp rfl, ?_⟩
  obtain ⟨g, hg⟩ : ∃ g, ofRules "S" entwined = .ok g := ⟨_, rfl⟩
  have hwords : ["x"] ≠ [] ∧ "" ∉ ["x"] := by decide
  have hchart := g.chart_eq hwords.1 hwords.2
  obtain ⟨forest, hforest⟩ : ∃ forest, g.forest ["x"] = .ok forest :=
    ⟨_, congrArg (Except.map _) hchart⟩
  obtain ⟨-, hrules, -, hitem, -, hheld⟩ := hgrammar "S" entwined g hg
  exact ⟨g, _, _, hg, hchart, hforest, hrules, hitem, (hheld ["x"]).1 _ hchart,
    (hheld ["x"]).2 _ hforest⟩

end Grammar

end PhraseStructure
