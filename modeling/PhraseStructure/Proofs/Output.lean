import Mathlib.Data.List.Chain
import PhraseStructure.Command.Run
import PhraseStructure.Proofs.Parse
import PhraseStructure.Proofs.Sentence
import PhraseStructure.Proofs.Source.Print
import PhraseStructure.Proofs.Tree.Chunk

/-! The lines of what the command writes, none of which says that a word is empty.  The lines of a
tree begin with a parenthesis or a blank and those of a chart with a blank or the word `State`,
because no rule that can be read has a line feed in it.  In the words of a chunk a letter follows
every blank, where the report of an empty word has a number. -/

namespace PhraseStructure

/-! ### Rules without line feeds -/

namespace Source

variable {cs line : List Char} {symbols : List Symbol} {rule : Rule}

theorem no_feed_of_mem_lines {text : List Char} (h : line ∈ Text.lines text) : '\n' ∉ line := by
  induction text using Text.lines.induct generalizing line with
  | case1 => simp at h
  | case2 rest ih =>
    rw [Text.lines_feed, List.mem_cons] at h
    rcases h with rfl | h
    · exact List.not_mem_nil
    · exact ih h
  | case3 rest ih =>
    rw [Text.lines_return_feed, List.mem_cons] at h
    rcases h with rfl | h
    · exact List.not_mem_nil
    · exact ih h
  | case4 c rest hfeed hreturn hnil ih =>
    rw [Text.lines_char hfeed hreturn, hnil, List.mem_singleton] at h
    subst h
    simpa using Ne.symm hfeed
  | case5 c rest hfeed hreturn first more hlines ih =>
    rw [Text.lines_char hfeed hreturn, hlines, List.mem_cons] at h
    rcases h with rfl | h
    · have hfirst := ih (hlines ▸ List.mem_cons_self)
      simp [hfirst, Ne.symm hfeed]
    · exact ih (hlines ▸ List.mem_cons_of_mem _ h)

theorem Alternative.no_feed (h : Alternative cs symbols) (hfeed : '\n' ∉ cs) :
    '\n' ∉ (Rule.symbolsText symbols).toList := by
  induction h with
  | nil => simp [Rule.symbolsText]
  | blank _ _ ih => exact ih fun hmem => hfeed (List.mem_cons_of_mem _ hmem)
  | name _ _ ih =>
    rw [List.mem_append, not_or] at hfeed
    simp [symbolsText_cons, Symbol.text, hfeed.1, ih hfeed.2]
  | word _ _ _ _ ih =>
    simp only [List.mem_cons, List.mem_append, not_or] at hfeed
    obtain ⟨-, hword, -, hrest⟩ := hfeed
    simp [symbolsText_cons, Symbol.text, hword, ih hrest]

theorem not_mem_intercalate_iff {c : Char} {between : List Char} {parts : List (List Char)}
    (hbetween : c ∉ between) : c ∉ between.intercalate parts ↔ ∀ part ∈ parts, c ∉ part := by
  induction parts with
  | nil => simp
  | cons part parts ih =>
    cases parts with
    | nil => simp
    | cons next parts =>
      rw [List.intercalate_cons_cons, List.mem_append, List.mem_append, not_or, not_or, ih,
        and_iff_left hbetween]
      simp

/-- What holds of everything that is related to a member of the first list holds of every member of
the second one. -/
theorem forall_mem_of_forall₂ {α β : Type} {R : α → β → Prop} {P : α → Prop} {Q : β → Prop}
    {xs : List α} {ys : List β} (h : List.Forall₂ R xs ys) (hP : ∀ x ∈ xs, P x)
    (hQ : ∀ x y, P x → R x y → Q y) : ∀ y ∈ ys, Q y := by
  have hboth := (List.forall₂_and_left _ _).mpr ⟨hP, h⟩
  have hright : List.Forall₂ (fun x y => R x y ∧ Q y) xs ys :=
    hboth.imp fun x y ⟨hx, hxy⟩ => ⟨hxy, hQ x y hx hxy⟩
  exact (forall₂_and_right.mp hright).2

/-- The rules of a line without a line feed have none either. -/
theorem Written.no_feed {said : Line} (h : Written cs said) (hfeed : '\n' ∉ cs) :
    ∀ rule ∈ (ofLine said).rules, '\n' ∉ rule.text.toList := by
  cases h with
  | blank => simp [ofLine]
  | start => simp [ofLine]
  | @rules before name between right alternatives _ _ _ hright =>
    obtain ⟨parts, rest, rfl, -, -, hparts⟩ := hright
    simp only [List.mem_append, not_or] at hfeed
    obtain ⟨⟨⟨⟨-, hname⟩, -⟩, -⟩, hright, -⟩ := hfeed
    have halternatives := forall_mem_of_forall₂ hparts
      ((not_mem_intercalate_iff (by decide)).mp hright)
      fun part symbols hpart halternative => halternative.no_feed hpart
    intro rule hrule
    obtain ⟨symbols, hsymbols, rfl⟩ := List.mem_map.mp hrule
    simp [Rule.text, hname, halternatives symbols hsymbols]

end Source

/-- No rule of a grammar that is read from a text has a line feed in it. -/
theorem Grammar.no_feed_of_ofText {text : String} {g : Grammar} (h : ofText text = .ok g) :
    ∀ rule ∈ g.rules, '\n' ∉ rule.text.toList := by
  unfold ofText at h
  split at h
  · simp at h
  · next source hread =>
    obtain ⟨said, hsaid, rfl⟩ := Source.readLines_eq_ok.mp hread
    split at h
    · simp at h
    · next g' hsource =>
      obtain rfl := Except.ok.inj h
      unfold ofSource at hsource
      split at hsource
      · rw [(start_and_rules_of_ofRules hsource).2]
        intro rule hrule
        obtain ⟨line, hline, hmem⟩ := List.mem_flatMap.mp (Table.mem_arrange.mp hrule)
        have hfeed := Source.forall_mem_of_forall₂ hsaid
          (fun line => Source.no_feed_of_mem_lines) fun cs said hcs hwritten => hwritten.no_feed hcs
        exact hfeed line hline rule hmem
      · simp at hsource

namespace Command

open List (IsChain)

variable {text rest line : List Char} {lines : List String}

/-! ### Lines of a text -/

/-- The lines, each with a line feed at its end. -/
def unlines (lines : List String) : String := String.join (lines.map (· ++ "\n"))

/-- No line of the text says that a word is empty, be it after the question or not. -/
def Quiet (text : List Char) : Prop :=
  ∀ index, ∀ line ∈ text.splitOn '\n',
    line ≠ (InputError.emptyWord index).message.toList ∧
    line ≠ (prompt ++ (InputError.emptyWord index).message).toList

theorem toList_message (index : Nat) : (InputError.emptyWord index).message.toList =
    "token".toList ++ ' ' :: ((toString index).toList ++ " is an empty string".toList) := by
  simp [InputError.message]

/-- It is enough to look at the first two characters of every line. -/
theorem quiet_of_not_prefix
    (h : ∀ line ∈ text.splitOn '\n', ¬['t', 'o'] <+: line ∧ ¬['S', 'e'] <+: line) : Quiet text := by
  intro index line hline
  obtain ⟨hto, hse⟩ := h line hline
  constructor
  · rintro rfl
    rw [toList_message] at hto
    exact hto ⟨_, rfl⟩
  · rintro rfl
    exact hse (by simp [prompt])

theorem Quiet.append_feed (h : Quiet text) (hrest : Quiet rest) : Quiet (text ++ '\n' :: rest) := by
  intro index line hline
  rw [List.splitOn_append_cons_self, List.mem_append] at hline
  exact hline.elim (h index line) (hrest index line)

theorem splitOn_append_of_not_mem {front : List Char} (h : '\n' ∉ front) (text : List Char) :
    (front ++ text).splitOn '\n' = (text.splitOn '\n').modifyHead (front ++ ·) := by
  induction front with
  | nil =>
    rw [List.nil_append]
    cases text.splitOn '\n' <;> rfl
  | cons c front ih =>
    simp only [List.mem_cons, not_or] at h
    rw [List.cons_append, List.splitOn_cons_eq_if_modifyHead, if_neg (by simpa using Ne.symm h.1),
      ih h.2, List.modifyHead_modifyHead]
    rfl

theorem Quiet.question (h : Quiet text) : Quiet (prompt.toList ++ text) := by
  intro index line hline
  rw [splitOn_append_of_not_mem (by decide)] at hline
  obtain ⟨first, more, hsplit⟩ := List.exists_cons_of_ne_nil (List.splitOn_ne_nil '\n' text)
  rw [hsplit, List.modifyHead_cons, List.mem_cons] at hline
  rcases hline with rfl | hline
  · refine ⟨?_, ?_⟩
    · rw [toList_message]
      simp [prompt]
    · rw [String.toList_append, ne_eq, List.append_cancel_left_eq]
      exact (h index first (hsplit ▸ List.mem_cons_self)).1
  · exact h index line (hsplit ▸ List.mem_cons_of_mem _ hline)

theorem quiet_nil : Quiet [] := quiet_of_not_prefix (by simp)

theorem quiet_unlines (h : ∀ line ∈ lines, Quiet line.toList) : Quiet (unlines lines).toList := by
  induction lines with
  | nil => exact quiet_nil
  | cons line lines ih =>
    obtain ⟨hline, hlines⟩ := List.forall_mem_cons.mp h
    have heq : (unlines (line :: lines)).toList =
        line.toList ++ '\n' :: (unlines lines).toList := by
      simp [unlines]
    rw [heq]
    exact hline.append_feed (ih hlines)

/-! ### Trees -/

/-- Every line after the first one begins with a blank, and there is no line feed at the end. -/
def Indented (text : List Char) : Prop :=
  text.IsChain (fun c d => c = '\n' → d = ' ') ∧ '\n' ∉ text.getLast?

theorem exists_splitOn (text : List Char) : ∃ first more, text.splitOn '\n' = first :: more ∧
    first <+: text ∧ ∀ line ∈ more, '\n' :: line <:+: text := by
  induction text with
  | nil => exact ⟨[], [], rfl, List.prefix_rfl, by simp⟩
  | cons c text ih =>
    obtain ⟨first, more, hsplit, hfirst, hmore⟩ := ih
    rw [List.splitOn_cons_eq_if_modifyHead, hsplit]
    have hmore : ∀ line ∈ more, '\n' :: line <:+: c :: text := fun line hline =>
      (hmore line hline).trans (List.suffix_cons c text).isInfix
    split
    · next hc =>
      obtain rfl : c = '\n' := by simpa using hc
      refine ⟨[], _, rfl, List.nil_prefix, List.forall_mem_cons.mpr ⟨?_, hmore⟩⟩
      exact (List.cons_prefix_cons.mpr ⟨rfl, hfirst⟩).isInfix
    · exact ⟨_, more, rfl, List.cons_prefix_cons.mpr ⟨rfl, hfirst⟩, hmore⟩

theorem Indented.quiet (h : Indented text) (hto : ¬['t', 'o'] <+: text)
    (hse : ¬['S', 'e'] <+: text) : Quiet text := by
  obtain ⟨first, more, hsplit, hfirst, hmore⟩ := exists_splitOn text
  refine quiet_of_not_prefix fun line hline => ?_
  rw [hsplit, List.mem_cons] at hline
  rcases hline with rfl | hline
  · exact ⟨fun hstart => hto (hstart.trans hfirst), fun hstart => hse (hstart.trans hfirst)⟩
  · obtain ⟨before, behind, rfl⟩ := hmore line hline
    have hchain := h.1.left_of_append.right_of_append
    cases line with
    | nil => simp
    | cons d line =>
      obtain rfl := (List.isChain_cons_cons.mp hchain).1 rfl
      simp

theorem Indented.append (h : Indented text) (hrest : Indented rest) : Indented (text ++ rest) := by
  refine ⟨h.1.append hrest.1 ?_, Source.not_mem_getLast?_append h.2 hrest.2⟩
  rintro c hc d - rfl
  exact absurd hc h.2

theorem isChain_of_not_mem {c : Char} {P : Char → Prop} (h : c ∉ text) :
    text.IsChain fun d next => d = c → P next := by
  refine List.Pairwise.isChain (List.pairwise_of_forall_mem_list fun d hd next _ => ?_)
  rintro rfl
  exact absurd hd h

theorem indented_of_no_feed (h : '\n' ∉ text) : Indented text :=
  ⟨isChain_of_not_mem h, fun hlast => h (List.mem_of_getLast? hlast)⟩

/-- A line by itself, which begins otherwise than the two messages. -/
theorem quiet_line (h : '\n' ∉ text) (hto : ¬['t', 'o'] <+: text) (hse : ¬['S', 'e'] <+: text) :
    Quiet text :=
  (indented_of_no_feed h).quiet hto hse

theorem indented_flatMap {α : Type} {f : α → List Char} {xs : List α}
    (h : ∀ x ∈ xs, Indented (f x)) : Indented (xs.flatMap f) := by
  induction xs with
  | nil => exact indented_of_no_feed List.not_mem_nil
  | cons x xs ih =>
    obtain ⟨hx, hxs⟩ := List.forall_mem_cons.mp h
    rw [List.flatMap_cons]
    exact hx.append (ih hxs)

theorem indented_indented (text : List Char) : Indented (Tree.indented text) := by
  refine indented_flatMap fun line hline => ?_
  have hfeed : '\n' ∉ ' ' :: ' ' :: line := by simpa using Source.no_feed_of_mem_lines hline
  obtain ⟨hchain, hlast⟩ := indented_of_no_feed hfeed
  exact ⟨List.isChain_cons_cons.mpr ⟨fun _ => rfl, hchain⟩, by rwa [List.getLast?_cons_cons]⟩

theorem indented_display {rules : List Rule} {words : List String} {t : Tree}
    (h : t.WellBuilt (OfRules rules) words) (hrules : ∀ rule ∈ rules, '\n' ∉ rule.text.toList)
    (hwords : ∀ word ∈ words, '\n' ∉ word.toList) : Indented t.display.toList := by
  induction h with
  | leaf hword =>
    rw [Tree.display_leaf]
    exact indented_of_no_feed (hwords _ (List.mem_of_getElem? hword))
  | @branch label span children hrule _ _ ih =>
    have hlabel : '\n' ∉ label.toList := by
      have := hrules _ hrule
      simp only [Rule.text, String.toList_append, List.mem_append, not_or] at this
      exact this.1.1
    rw [Tree.toList_display_branch]
    refine (indented_of_no_feed (show '\n' ∉ ['('] by decide)).append ?_
    refine ((indented_of_no_feed hlabel).append (indented_flatMap fun child hchild => ?_)).append
      (indented_of_no_feed (by decide))
    split
    · exact (indented_of_no_feed (show '\n' ∉ [' '] by decide)).append (ih child hchild)
    · exact indented_indented _

/-! ### Numbers and words -/

theorem isDigit_of_mem_toString {c : Char} {n : Nat} (h : c ∈ (toString n).toList) : c.isDigit := by
  rw [Nat.toString_eq_repr, Nat.toList_repr] at h
  exact Nat.isDigit_of_mem_toDigits (by decide) (by decide) h

theorem no_feed_toString (n : Nat) : '\n' ∉ (toString n).toList :=
  fun h => absurd (isDigit_of_mem_toString h) (by decide)

/-- No number follows a blank. -/
def Lettered (text : List Char) : Prop := text.IsChain fun c d => c = ' ' → ¬d.isDigit

/-- A report of an empty word has its number behind a blank. -/
theorem Lettered.ne (h : Lettered text) (front : List Char) (index : Nat) :
    text ≠ front ++ (InputError.emptyWord index).message.toList := by
  rintro rfl
  cases hdigits : (toString index).toList with
  | nil =>
    rw [Nat.toString_eq_repr, Nat.toList_repr] at hdigits
    exact Nat.toDigits_ne_nil hdigits
  | cons d more =>
    have hdigit : d.isDigit := isDigit_of_mem_toString (hdigits ▸ List.mem_cons_self)
    rw [toList_message, hdigits] at h
    have hsuffix := h.right_of_append.right_of_append
    exact (List.isChain_cons_cons.mp hsuffix).1 rfl hdigit

theorem Lettered.quiet (h : Lettered text) (hfeed : '\n' ∉ text) : Quiet text := by
  intro index line hline
  rw [List.splitOn_eq_singleton hfeed, List.mem_singleton] at hline
  subst hline
  rw [String.toList_append]
  exact ⟨h.ne [] index, h.ne _ index⟩

theorem lettered_intercalate {words : List (List Char)}
    (h : ∀ word ∈ words, ' ' ∉ word ∧ ∃ c ∈ word.head?, ¬c.isDigit) :
    Lettered ([' '].intercalate words) := by
  induction words with
  | nil => exact .nil
  | cons word words ih =>
    obtain ⟨⟨hblank, -⟩, hrest⟩ := List.forall_mem_cons.mp h
    cases words with
    | nil =>
      rw [List.intercalate_singleton]
      exact isChain_of_not_mem hblank
    | cons next words =>
      obtain ⟨-, c, hhead, hc⟩ := hrest next List.mem_cons_self
      obtain ⟨more, rfl⟩ := List.head?_eq_some_iff.mp hhead
      have hnext := ih hrest
      rw [List.intercalate_cons_cons, List.append_assoc, List.singleton_append]
      rw [List.intercalate_cons_cons_left] at hnext ⊢
      refine (isChain_of_not_mem hblank).append
        (List.isChain_cons_cons.mpr ⟨fun _ => hc, hnext⟩) ?_
      rintro d hd _ - rfl
      exact absurd (List.mem_of_getLast? hd) hblank

/-- The words of a sentence that a tree covers. -/
theorem quiet_text {allowed : Constituent → Prop} {sentence : String} {t : Tree}
    (h : t.WellBuilt allowed (Sentence.words sentence)) : Quiet t.text.toList := by
  have hwords : ∀ word ∈ t.leaves.map String.toList,
      (∃ c ∈ word.head?, 'a' ≤ c ∧ c ≤ 'z') ∧ ∀ c ∈ word, Text.isWordChar c := by
    intro word hword
    obtain ⟨leaf, hleaf, rfl⟩ := List.mem_map.mp hword
    rw [h.leaves_eq] at hleaf
    exact (Sentence.of_mem_words (mem_of_mem_extract hleaf)).2
  rw [Tree.text, String.toList_intercalate]
  refine (lettered_intercalate fun word hword => ?_).quiet ?_
  · obtain ⟨⟨c, hhead, hfirst, -⟩, hchars⟩ := hwords word hword
    refine ⟨fun hblank => absurd (hchars _ hblank) (by decide), c, hhead, fun hdigit => ?_⟩
    simp only [Char.isDigit, Bool.and_eq_true, decide_eq_true_eq] at hdigit
    have hletter : 0x61 ≤ c.toNat := hfirst
    have hdigit : c.toNat ≤ 0x39 := hdigit.2
    omega
  · refine (Source.not_mem_intercalate_iff (by decide)).mpr fun word hword hfeed => ?_
    exact absurd ((hwords word hword).2 _ hfeed) (by decide)

/-! ### Charts -/

theorem join_map_eq_unlines {α : Type} {f : α → String} {g : α → List String}
    (h : ∀ x, f x = unlines (g x)) (xs : List α) :
    String.join (xs.map f) = unlines (xs.flatMap g) := by
  induction xs with
  | nil => rfl
  | cons x xs ih => simp [unlines, h, ih, String.join_cons]

/-- The lines of a chart. -/
def chartLines (chart : Chart) : List String :=
  chart.sets.zipIdx.flatMap fun entry => ("State " ++ toString entry.2 ++ ":") ::
    entry.1.map fun item =>
      "  " ++ toString item.origin ++ ".." ++ toString entry.2 ++ ": " ++ item.text

theorem text_eq_unlines (chart : Chart) : chart.text = unlines (chartLines chart) := by
  refine join_map_eq_unlines (fun entry => ?_) _
  have hline : Chart.itemLine entry.2 = fun item => "  " ++ toString item.origin ++ ".." ++
      toString entry.2 ++ ": " ++ item.text ++ "\n" := rfl
  simp [hline, unlines, Function.comp_def, ← String.toList_inj]

theorem mem_symbolsText {c : Char} {symbols : List Symbol} :
    c ∈ (Rule.symbolsText symbols).toList ↔ ∃ s ∈ symbols, c = ' ' ∨ c ∈ s.text.toList := by
  induction symbols with
  | nil => simp [Rule.symbolsText]
  | cons s symbols ih => simp [Source.symbolsText_cons, ih, or_assoc]

theorem no_feed_text {item : Item} (h : '\n' ∉ item.rule.text.toList) :
    '\n' ∉ item.text.toList := by
  simp only [Rule.text, String.toList_append, List.mem_append, not_or] at h
  obtain ⟨⟨hlhs, -⟩, hrhs⟩ := h
  have hpart : ∀ symbols : List Symbol, symbols ⊆ item.rule.rhs →
      '\n' ∉ (Rule.symbolsText symbols).toList := by
    intro symbols hsub hmem
    obtain ⟨s, hs, hc⟩ := mem_symbolsText.mp hmem
    exact hrhs (mem_symbolsText.mpr ⟨s, hsub hs, hc⟩)
  simp [Item.text, hlhs, hpart _ (List.take_subset _ _), hpart _ (List.drop_subset _ _)]

theorem quiet_chart {g : Grammar} (hrules : ∀ rule ∈ g.rules, '\n' ∉ rule.text.toList)
    (words : List String) : ∀ line ∈ chartLines (Chart.build g words), Quiet line.toList := by
  intro line hline
  obtain ⟨⟨items, k⟩, hentry, hmem⟩ := List.mem_flatMap.mp hline
  rcases List.mem_cons.mp hmem with rfl | hmem
  · refine quiet_line ?_ (by simp) (by simp)
    simpa using no_feed_toString k
  · obtain ⟨item, hitem, rfl⟩ := List.mem_map.mp hmem
    have hset : (Chart.build g words).sets[k]? = some items := by
      simpa using List.mk_mem_zipIdx_iff_getElem?.mp hentry
    have hrule := ((Chart.mem_build_iff hset).mp hitem).rule_mem
    refine quiet_line ?_ (by simp) (by simp)
    have hk := no_feed_toString k
    have horigin := no_feed_toString item.origin
    simpa [no_feed_text (hrules _ hrule)] using And.intro horigin hk

end Command

end PhraseStructure
