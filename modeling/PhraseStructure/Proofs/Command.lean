import PhraseStructure.Proofs.Occurrence
import PhraseStructure.Proofs.Output

/-! What the command leaves behind, in any world in which reading gives texts.  A run fails without
output if there is no grammar and with the question alone if there is no sentence.  Otherwise it
succeeds: the question comes first, then the chart if it is asked for and there are words, and then
the answer.  Which answer it is depends on the words only: there are none, or the start symbol does
not derive them, or their trees are written.  The words of a sentence are never empty, so that
parsing finds no fault in them but their absence. -/

namespace PhraseStructure.Command

/-- The lines about a tree: the tree, its noun phrase chunks below a title, and a blank line before
and after these. -/
def treeLines (t : Tree) : List String :=
  [t.display, "", "Noun Phrase Chunks"] ++
    (t.chunks "NP").map (fun node => " ".intercalate node.tree.leaves) ++ [""]

/-- The lines of the answer about the words. -/
inductive Answered (g : Grammar) (words : List String) : List String → Prop
  | noWords : words = [] → Answered g words ["cannot parse an empty sentence"]
  | noTrees : words ≠ [] → ¬Derives g.rules [.nonterminal g.start] (sentence words) →
      Answered g words ["Could not parse sentence."]
  | trees {trees : List Tree} : words ≠ [] →
      Derives g.rules [.nonterminal g.start] (sentence words) → g.parse words = .ok trees →
      Answered g words (trees.flatMap treeLines)

/-- What is written between the question and the answer: the chart of the words, if it is asked for
and there are words, and nothing otherwise. -/
def Charted (asked : Prop) (g : Grammar) (words : List String) (block : String) : Prop :=
  (asked ∧ words ≠ [] ∧
    ∃ chart, g.chart words = .ok chart ∧
      block = unlines ("chart:" :: chartLines chart ++ [""])) ∨
  ¬(asked ∧ words ≠ []) ∧ block = ""

/-- How a run with the options ends when the text of the grammar and that of the sentence are read
with the given results. -/
inductive Concludes (options : Options) :
    Except ReadError String → Except ReadError String → Outcome → Prop
  | noSource {cause : ReadError} {content : Except ReadError String} :
      Concludes options (.error cause) content
        ⟨1, "", "Error: " ++ (GrammarError.unreadable cause).diagnostic ++ "\n"⟩
  | noGrammar {source : String} {error : GrammarError} {content : Except ReadError String} :
      Grammar.ofText source = .error error →
      Concludes options (.ok source) content ⟨1, "", "Error: " ++ error.diagnostic ++ "\n"⟩
  | noSentence {source : String} {g : Grammar} {error : ReadError} :
      Grammar.ofText source = .ok g →
      Concludes options (.ok source) (.error error)
        ⟨1, if options.file = none then "Sentence: " else "",
          "Error: " ++ error.diagnostic ++ "\n"⟩
  | answered {source text block : String} {g : Grammar} {lines : List String} :
      Grammar.ofText source = .ok g →
      Charted options.chart g (Sentence.words text) block →
      Answered g (Sentence.words text) lines →
      Concludes options (.ok source) (.ok text)
        ⟨0, (if options.file = none then "Sentence: " else "") ++ block ++ unlines lines, ""⟩

variable {g : Grammar} {words : List String}

/-! ### The order of reading and writing -/

section World

variable {σ : Type} {reader : Reader σ} {options : Options} {start : σ} {record : Record σ}

theorem pure_world {α : Type} (a : α) : (pure a : StateM (Record σ) α) record = (a, record) := rfl

theorem readGrammar_world (path? : Option String) : reader.world.readGrammar path? record =
    (Grammar.ofFile
        (path?.elim (.ok SentenceGrammar.text) fun path => (reader.file path record.rest).1),
      { record with rest := path?.elim record.rest fun path =>
          (reader.file path record.rest).2 }) := by
  cases path? with
  | none =>
    -- With `rfl` for these rewrites the grammar would be computed.
    rw [Option.elim_none, Option.elim_none, Grammar.ofFile, ← SentenceGrammar.grammar]
    exact pure_world _
  | some path => rfl

theorem readSentence_world (path? : Option String) : reader.world.readSentence path? record =
    (path?.elim (reader.line record.rest).1 fun path => (reader.file path record.rest).1,
      ⟨path?.elim (reader.line record.rest).2 fun path => (reader.file path record.rest).2,
        record.output ++ if path? = none then "Sentence: " else "", record.errors⟩) := by
  cases path? with
  | none => rfl
  | some path =>
    simp only [reduceCtorEq, ↓reduceIte, String.append_empty]
    rfl

/-- The reads come first, and the sentence is read only when there is a grammar. -/
theorem run_eq : options.run reader start =
    match reader.world.readGrammar options.grammar ⟨start, "", ""⟩ with
    | (.error error, record) =>
      ⟨1, record.output, record.errors ++ ("Error: " ++ error.diagnostic ++ "\n")⟩
    | (.ok g, record) =>
      match reader.world.readSentence options.file record with
      | (.error error, after) =>
        ⟨1, after.output, after.errors ++ ("Error: " ++ error.diagnostic ++ "\n")⟩
      | (.ok text, after) => ⟨0, after.output ++ report g options.chart text, after.errors⟩ := by
  unfold Options.run outcome Options.perform
  dsimp only [bind, StateT.bind]
  rcases reader.world.readGrammar options.grammar ⟨start, "", ""⟩ with ⟨error | g, record⟩
  · rfl
  · dsimp only [StateT.bind]
    rcases reader.world.readSentence options.file record with ⟨error | text, after⟩
    · rfl
    · rfl

end World

/-! ### The answer -/

theorem unlines_append (first second : List String) :
    unlines (first ++ second) = unlines first ++ unlines second := by
  simp [unlines]

theorem treeBlock_eq (t : Tree) : treeBlock t = unlines (treeLines t) := by
  simp [treeBlock, treeLines, unlines, Tree.text, Tree.nounPhraseChunks, Tree.nounPhrase,
    Function.comp_def, ← String.toList_inj]

theorem charted_chartBlock (asked : Bool) (hwords : "" ∉ words) :
    Charted asked g words (if asked then chartBlock g words else "") := by
  by_cases h : asked ∧ words ≠ []
  · obtain ⟨hasked, hne⟩ := h
    have hchart := Grammar.chart_eq g hne hwords
    refine .inl ⟨hasked, hne, _, hchart, ?_⟩
    rw [if_pos hasked, chartBlock, hchart]
    dsimp only
    rw [text_eq_unlines]
    simp [unlines, String.join_cons, ← String.toList_inj]
  · refine .inr ⟨h, ?_⟩
    split
    · next hasked =>
      obtain rfl : words = [] := Decidable.not_not.mp fun hne => h ⟨hasked, hne⟩
      rfl
    · rfl

/-- The answer has the lines that it should have. -/
theorem exists_answered (hwords : "" ∉ words) :
    ∃ lines, answer g words = unlines lines ∧ Answered g words lines := by
  by_cases hne : words = []
  · subst hne
    exact ⟨_, rfl, .noWords rfl⟩
  · have hparse := Grammar.parse_eq g hne hwords
    have hderives := @Grammar.trees_build_ne_nil_iff g words
    unfold answer
    rw [hparse]
    cases htrees : (Forest.ofChart (Chart.build g words) words).trees g with
    | nil =>
      rw [htrees] at hderives
      exact ⟨_, rfl, .noTrees hne fun h => hderives.mpr h rfl⟩
    | cons t trees =>
      rw [htrees] at hderives hparse
      have hjoin := join_map_eq_unlines treeBlock_eq (t :: trees)
      exact ⟨_, hjoin, .trees hne (hderives.mp (by simp)) hparse⟩

theorem feeds_unlines {lines : List String} (hne : lines ≠ []) :
    ['\n', '\n'] <:+ (unlines (lines ++ [""])).toList := by
  obtain ⟨front, last, rfl⟩ := List.eq_nil_or_concat' lines |>.resolve_left hne
  refine ⟨(unlines front).toList ++ last.toList, ?_⟩
  simp [unlines]

/-- The answers can be told apart by the character before the last line feed. -/
theorem exists_ending {lines : List String} (h : Answered g words lines) :
    ∃ c, [c, '\n'] <:+ (unlines lines).toList ∧ (c = 'e' ↔ words = []) ∧
      (c = '.' ↔ words ≠ [] ∧ ¬Derives g.rules [.nonterminal g.start] (sentence words)) := by
  cases h with
  | noWords hnil => exact ⟨'e', by decide, by simp [hnil], by simp [hnil]⟩
  | noTrees hne hnot => exact ⟨'.', by decide, by simp [hne], by simp [hne, hnot]⟩
  | @trees trees hne hderives hparse =>
    refine ⟨'\n', ?_, by simp [hne], by simp [hderives]⟩
    obtain rfl := Grammar.eq_trees_of_parse hparse
    have hsome := Grammar.trees_build_ne_nil_iff.mpr hderives
    obtain ⟨front, last, htrees⟩ := (List.eq_nil_or_concat' _).resolve_left hsome
    rw [htrees, List.flatMap_append, List.flatMap_singleton, treeLines, ← List.append_assoc]
    exact feeds_unlines (by simp)

theorem eq_of_endings {text : List Char} {c d : Char} (hc : [c, '\n'] <:+ text)
    (hd : [d, '\n'] <:+ text) : c = d := by
  obtain ⟨front, rfl⟩ := hc
  obtain ⟨front', heq⟩ := hd
  simpa using (List.append_inj' heq rfl).2.symm

/-- What is written ends with the answer that there are no words when there are none, and with the
answer that they could not be parsed when the start symbol does not derive them. -/
theorem ending_iff {lines : List String} (h : Answered g words lines) (front : String) :
    ("cannot parse an empty sentence\n".toList <:+ (front ++ unlines lines).toList ↔ words = []) ∧
    ("Could not parse sentence.\n".toList <:+ (front ++ unlines lines).toList ↔
      words ≠ [] ∧ ¬Derives g.rules [.nonterminal g.start] (sentence words)) := by
  obtain ⟨c, hc, hempty, hfailed⟩ := exists_ending h
  rw [String.toList_append]
  have hlast := hc.trans (List.suffix_append front.toList _)
  refine ⟨⟨fun hsuffix => ?_, fun hnil => ?_⟩, ⟨fun hsuffix => ?_, fun hnot => ?_⟩⟩
  · have hsentence : ['e', '\n'] <:+ "cannot parse an empty sentence\n".toList := by decide
    exact hempty.mp (eq_of_endings hlast (hsentence.trans hsuffix))
  · cases h with
    | noWords => exact List.suffix_append _ _
    | noTrees hne => exact absurd hnil hne
    | trees hne => exact absurd hnil hne
  · have hsentence : ['.', '\n'] <:+ "Could not parse sentence.\n".toList := by decide
    exact hfailed.mp (eq_of_endings hlast (hsentence.trans hsuffix))
  · cases h with
    | noWords hnil => exact absurd hnil hnot.1
    | noTrees => exact List.suffix_append _ _
    | trees _ hderives => exact absurd hderives hnot.2

/-! ### The lines of the output -/

theorem quiet_treeLines {text : String} {t : Tree}
    (hrules : ∀ rule ∈ g.rules, '\n' ∉ rule.text.toList)
    (h : g.IsDerivationTree (Sentence.words text) t) : ∀ line ∈ treeLines t, Quiet line.toList := by
  have hwords : ∀ word ∈ Sentence.words text, '\n' ∉ word.toList := fun word hword hfeed =>
    absurd ((Sentence.of_mem_words hword).2.2 _ hfeed) (by decide)
  have hdisplay : Quiet t.display.toList := by
    have hlabel := h.label
    have hindented := indented_display h.wellBuilt hrules hwords
    cases t with
    | leaf => simp [Tree.label?] at hlabel
    | branch label span children =>
      rw [Tree.toList_display_branch] at hindented ⊢
      exact hindented.quiet (by simp) (by simp)
  have htitle : Quiet "Noun Phrase Chunks".toList :=
    quiet_line (by decide) (by decide) (by decide)
  intro line hline
  simp only [treeLines, List.mem_append, List.mem_cons, List.not_mem_nil, or_false,
    List.mem_map] at hline
  rcases hline with ((rfl | rfl | rfl) | ⟨node, hnode, rfl⟩) | rfl
  · exact hdisplay
  · exact quiet_nil
  · exact htitle
  · exact quiet_text (h.wellBuilt.of_within (Tree.within_of_mem_chunks t hnode))
  · exact quiet_nil

theorem quiet_answered {text : String} {lines : List String}
    (hrules : ∀ rule ∈ g.rules, '\n' ∉ rule.text.toList)
    (h : Answered g (Sentence.words text) lines) : ∀ line ∈ lines, Quiet line.toList := by
  cases h with
  | noWords =>
    rw [List.forall_mem_singleton]
    exact quiet_line (by decide) (by decide) (by decide)
  | noTrees =>
    rw [List.forall_mem_singleton]
    exact quiet_line (by decide) (by decide) (by decide)
  | @trees trees hne hderives hparse =>
    obtain rfl := Grammar.eq_trees_of_parse hparse
    intro line hline
    obtain ⟨t, ht, hmem⟩ := List.mem_flatMap.mp hline
    exact quiet_treeLines hrules (Grammar.mem_trees_build_iff.mp ht).1 line hmem

/-- A chart, if there is one, stands on lines of its own. -/
theorem exists_lines_of_charted {asked : Prop} {block : String}
    (hrules : ∀ rule ∈ g.rules, '\n' ∉ rule.text.toList) (h : Charted asked g words block) :
    ∃ lines, block = unlines lines ∧ ∀ line ∈ lines, Quiet line.toList := by
  rcases h with ⟨-, -, chart, hchart, rfl⟩ | ⟨-, rfl⟩
  · obtain rfl := Grammar.eq_build_of_chart hchart
    have htitle : Quiet "chart:".toList := quiet_line (by decide) (by decide) (by decide)
    refine ⟨_, rfl, List.forall_mem_append.mpr ⟨?_, by simpa using quiet_nil⟩⟩
    exact List.forall_mem_cons.mpr ⟨htitle, quiet_chart hrules words⟩
  · exact ⟨[], rfl, by simp⟩

theorem quiet_output {asked : Prop} {text block : String} {lines : List String}
    (hrules : ∀ rule ∈ g.rules, '\n' ∉ rule.text.toList)
    (hblock : Charted asked g (Sentence.words text) block)
    (hlines : Answered g (Sentence.words text) lines) : Quiet (block ++ unlines lines).toList := by
  obtain ⟨front, rfl, hfront⟩ := exists_lines_of_charted hrules hblock
  rw [← unlines_append]
  exact quiet_unlines (List.forall_mem_append.mpr ⟨hfront, quiet_answered hrules hlines⟩)

/-- Whatever is read, the run ends as it should. -/
theorem concludes_options {σ : Type} (options : Options) (reader : Reader σ) (start : σ) :
    let source := options.grammar.elim (.ok SentenceGrammar.text) fun path =>
      (reader.file path start).1
    let rest := options.grammar.elim start fun path => (reader.file path start).2
    let content := options.file.elim (reader.line rest).1 fun path => (reader.file path rest).1
    Concludes options source content (options.run reader start) := by
  intro source rest content
  have hgrammar : reader.world.readGrammar options.grammar ⟨start, "", ""⟩ =
      (Grammar.ofFile source, ⟨rest, "", ""⟩) := readGrammar_world options.grammar
  obtain ⟨after, hcontent⟩ : ∃ after, reader.world.readSentence options.file ⟨rest, "", ""⟩ =
      (content, ⟨after, if options.file = none then "Sentence: " else "", ""⟩) := by
    rw [readSentence_world, String.empty_append]
    exact ⟨_, rfl⟩
  rw [run_eq, hgrammar]
  cases source with
  | error cause => exact .noSource
  | ok source =>
    rw [Grammar.ofFile]
    cases hg : Grammar.ofText source with
    | error error => exact .noGrammar hg
    | ok g =>
      dsimp only
      rw [hcontent]
      cases content with
      | error error => exact .noSentence hg
      | ok text =>
        have hwords : "" ∉ Sentence.words text := fun h => (Sentence.of_mem_words h).1 rfl
        obtain ⟨lines, hanswer, hlines⟩ := exists_answered (g := g) hwords
        dsimp only
        rw [report, hanswer, ← String.append_assoc]
        exact .answered hg (charted_chartBlock options.chart hwords) hlines

section Concludes

variable {options : Options} {ending : Outcome}

theorem Concludes.quiet {source content : Except ReadError String}
    (h : Concludes options source content ending) : Quiet ending.output.toList := by
  have hquestion : ∀ {text : String}, Quiet text.toList →
      Quiet ((if options.file = none then "Sentence: " else "") ++ text).toList := by
    intro text htext
    rw [String.toList_append]
    split
    · exact htext.question
    · exact htext
  cases h with
  | noSource => exact quiet_nil
  | noGrammar => exact quiet_nil
  | noSentence =>
    have hquiet := @hquestion "" quiet_nil
    rwa [String.append_empty] at hquiet
  | answered hg hblock hlines =>
    rw [String.append_assoc]
    exact hquestion (quiet_output (Grammar.no_feed_of_ofText hg) hblock hlines)

theorem Concludes.ending_iff {source text : String}
    (h : Concludes options (.ok source) (.ok text) ending) (hg : Grammar.ofText source = .ok g) :
    ("cannot parse an empty sentence\n".toList <:+ ending.output.toList ↔
      Sentence.words text = []) ∧
    ("Could not parse sentence.\n".toList <:+ ending.output.toList ↔
      Sentence.words text ≠ [] ∧
        ¬Derives g.rules [.nonterminal g.start] (sentence (Sentence.words text))) := by
  cases h with
  | noGrammar herror => simp [herror] at hg
  | answered hg' _ hlines =>
    obtain rfl := Except.ok.inj (hg'.symm.trans hg)
    exact Command.ending_iff hlines _

end Concludes

theorem report_empty (g : Grammar) (chart : Bool) :
    report g chart "" = "cannot parse an empty sentence\n" := by
  cases chart <;> rfl

/-- A grammar that was typed leaves nothing to be typed, so that the sentence is empty. -/
theorem run_of_typed_grammar {options : Options} {input : Input} {path : String}
    (hfile : options.file = none) (hgrammar : options.grammar = some path)
    (hstream : input.files.find path = .ok .stream) :
    (∀ g, Grammar.ofFile (decodeText input.typed) = .ok g → options.run inputReader input =
      ⟨0, "Sentence: cannot parse an empty sentence\n", ""⟩) ∧
    ∀ error, Grammar.ofFile (decodeText input.typed) = .error error →
      options.run inputReader input = ⟨1, "", "Error: " ++ error.diagnostic ++ "\n"⟩ := by
  have hread : inputReader.world.readGrammar options.grammar ⟨input, "", ""⟩ =
      (Grammar.ofFile (decodeText input.typed), ⟨⟨input.files, []⟩, "", ""⟩) := by
    rw [hgrammar, readGrammar_world, Option.elim_some, Option.elim_some]
    show (Grammar.ofFile (input.read path).1, (⟨(input.read path).2, "", ""⟩ : Record Input)) = _
    rw [Input.read_stream hstream]
  constructor
  · intro g hg
    rw [hg] at hread
    have hsentence : inputReader.world.readSentence options.file ⟨⟨input.files, []⟩, "", ""⟩ =
        (.ok "", ⟨⟨input.files, []⟩, "Sentence: ", ""⟩) := by
      rw [hfile]
      rfl
    rw [run_eq, hread]
    dsimp only
    rw [hsentence]
    dsimp only
    rw [report_empty]
    rfl
  · intro error herror
    rw [run_eq, hread, herror]
    exact congrArg (Outcome.mk 1 "") String.empty_append

/-- What is typed is found among the devices, by way of links. -/
example : (FileTree.ofFiles []).find "/dev/stdin" = .ok .stream := by decide +kernel

/-- However the reads of a run turn out, it ends as it should.  The grammar is in the file that is
named, or else it is the one of English sentences.  After it the sentence is read, from the file
that is named or else from the first line that is typed.  The output ends with the answer that there
are no words and with the answer that they could not be parsed in these cases alone, and on no line
is a word said to be empty. -/
theorem concludes_run {σ : Type} (options : Options) (reader : Reader σ) (start : σ) :
    let source := options.grammar.elim (.ok SentenceGrammar.text) fun path =>
      (reader.file path start).1
    let rest := options.grammar.elim start fun path => (reader.file path start).2
    let content := options.file.elim (reader.line rest).1 fun path => (reader.file path rest).1
    let ending := options.run reader start
    Concludes options source content ending ∧
    (∀ rules g text, source = .ok rules → Grammar.ofText rules = .ok g → content = .ok text →
      ("cannot parse an empty sentence\n".toList <:+ ending.output.toList ↔
        Sentence.words text = []) ∧
      ("Could not parse sentence.\n".toList <:+ ending.output.toList ↔
        Sentence.words text ≠ [] ∧
          ¬Derives g.rules [.nonterminal g.start] (sentence (Sentence.words text)))) ∧
    ∀ index : Nat, ∀ line ∈ ending.output.toList.splitOn '\n',
      line ≠ ("token " ++ toString index ++ " is an empty string").toList ∧
      line ≠ ("Sentence: token " ++ toString index ++ " is an empty string").toList := by
  intro source rest content ending
  have hends : Concludes options source content ending := concludes_options options reader start
  refine ⟨hends, fun rules g text hsource hg hcontent => ?_, fun index line hline => ?_⟩
  · rw [hsource, hcontent] at hends
    exact hends.ending_iff hg
  · obtain ⟨hne, hquestion⟩ := hends.quiet index line hline
    refine ⟨hne, ?_⟩
    simpa [InputError.message, prompt] using hquestion

/-- A grammar for dogs and cats. -/
def dogs : String := "S -> NP V\nNP -> 'dogs' | 'cats'\nV -> 'bark'\n"

/-- What a run can read that finds the grammar in a file, and after it two lines that are typed. -/
def kennel : Input :=
  ⟨.ofFiles [("dogs.cfg", .file dogs.toUTF8.toList)], "Dogs bark!\nCats\n".toUTF8.toList⟩

/-- Options that name the grammar and no sentence. -/
def asking : Options := ⟨none, some "dogs.cfg", false⟩

theorem concludes_run_kennel : ∃ g, Grammar.ofText dogs = .ok g ∧
    Concludes asking (.ok dogs) (.ok "Dogs bark!\n") (asking.run inputReader kennel) ∧
    asking.run inputReader kennel =
      ⟨0, "Sentence: (S\n  (NP dogs)\n  (V bark))\n\nNoun Phrase Chunks\ndogs\n\n", ""⟩ ∧
    Derives g.rules [.nonterminal g.start] (sentence ["dogs", "bark"]) := by
  have hread : kennel.read "dogs.cfg" = (.ok dogs, kennel) := by decide +kernel
  have hline : kennel.firstLine = .ok "Dogs bark!\n" := by decide +kernel
  have hwords : Sentence.words "Dogs bark!\n" = ["dogs", "bark"] := by decide +kernel
  have hrun : asking.run inputReader kennel =
      ⟨0, "Sentence: (S\n  (NP dogs)\n  (V bark))\n\nNoun Phrase Chunks\ndogs\n\n", ""⟩ := by
    decide +kernel
  obtain ⟨hends, hanswers, -⟩ := concludes_run asking inputReader kennel
  have hsource : (kennel.read "dogs.cfg").1 = .ok dogs := by rw [hread]
  have hcontent : (kennel.read "dogs.cfg").2.firstLine = .ok "Dogs bark!\n" := by
    rw [hread]
    exact hline
  change Concludes asking (kennel.read "dogs.cfg").1 (kennel.read "dogs.cfg").2.firstLine _ at hends
  rw [hsource, hcontent] at hends
  cases hg : Grammar.ofText dogs with
  | error error =>
    have hstatus : (asking.run inputReader kennel).status = 0 := by rw [hrun]
    generalize asking.run inputReader kennel = ending at hends hstatus
    cases hends with
    | noGrammar => simp at hstatus
    | answered hg' => simp [hg'] at hg
  | ok g =>
    obtain ⟨-, hderives⟩ := hanswers dogs g _ hsource hg hcontent
    rw [hrun, hwords] at hderives
    have hnot := hderives.not.mp (by decide)
    refine ⟨g, rfl, hends, hrun, ?_⟩
    by_contra h
    exact hnot ⟨by decide, h⟩

end PhraseStructure.Command
