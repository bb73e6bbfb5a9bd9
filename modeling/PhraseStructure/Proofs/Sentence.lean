import PhraseStructure.Parse
import PhraseStructure.Proofs.Lowercase
import PhraseStructure.Proofs.Source.Read
import PhraseStructure.Sentence
import PhraseStructure.Text.Space

/-! The words of a sentence as the runs of word characters in it.  The first character that is in no
word cuts a sentence in two: the words are those in front of it and those behind it, and so are the
runs.  The words, with blanks between them, are a sentence that has the same words again, because
small letters stay as they are. -/

namespace PhraseStructure.Sentence

open Text

variable {front rest run before after text : List Char} {c : Char} {start : Nat}

/-! ### Pieces -/

/-- A character that is in no word separates the words of what is in front of it from those of what
is behind it. -/
theorem pieces_append_cons (hc : ¬isWordChar c) (front rest : List Char) :
    pieces (front ++ c :: rest) = pieces front ++ pieces rest := by
  rw [pieces, List.splitOnP_append_cons _ _ (by simpa using hc), List.filter_append]
  rfl

theorem pieces_cons (hc : ¬isWordChar c) (rest : List Char) : pieces (c :: rest) = pieces rest :=
  pieces_append_cons hc [] rest

theorem pieces_of_run (h : ∀ c ∈ run, isWordChar c) : pieces run = [run].filter isWord := by
  rw [pieces, List.splitOnP_eq_singleton fun c hc => by simpa using h c hc]

/-! ### Runs -/

/-- From the place `start` on, the text has the run `run` of word characters, which goes as far as
it can to both sides. -/
def RunAt (text : List Char) (start : Nat) (run : List Char) : Prop :=
  ∃ before after, text = before ++ (run ++ after) ∧ before.length = start ∧ run ≠ [] ∧
    (∀ c ∈ run, isWordChar c) ∧ (∀ c ∈ before.getLast?, ¬isWordChar c) ∧
    ∀ c ∈ after.head?, ¬isWordChar c

/-- What comes before a character that is in no word has no part in whether a run can begin. -/
theorem last_append_cons (hc : ¬isWordChar c) : (∀ d ∈ (front ++ c :: before).getLast?,
    ¬isWordChar d) ↔ ∀ d ∈ before.getLast?, ¬isWordChar d := by
  rw [List.getLast?_append, List.getLast?_cons, Option.some_or]
  cases before.getLast? <;> simp [hc]

/-- Nothing that is made of word characters comes before a run. -/
theorem eq_nil_of_last (hword : ∀ c ∈ before, isWordChar c)
    (hlast : ∀ c ∈ before.getLast?, ¬isWordChar c) : before = [] := by
  cases h : before.getLast? with
  | none => exact List.getLast?_eq_none_iff.mp h
  | some c => exact absurd (hword c (List.mem_of_getLast? h)) (hlast c h)

theorem runAt_of_run (h : ∀ c ∈ text, isWordChar c) :
    RunAt text start run ↔ start = 0 ∧ run = text ∧ run ≠ [] := by
  constructor
  · rintro ⟨before, after, rfl, rfl, hne, hrun, hlast, hhead⟩
    obtain ⟨hbefore, hmore⟩ := List.forall_mem_append.mp h
    obtain ⟨-, hafter⟩ := List.forall_mem_append.mp hmore
    obtain rfl := eq_nil_of_last hbefore hlast
    cases after with
    | nil => exact ⟨rfl, by simp, hne⟩
    | cons d after => exact absurd (hafter d List.mem_cons_self) (hhead d rfl)
  · rintro ⟨rfl, rfl, hne⟩
    exact ⟨[], [], by simp, rfl, hne, h, by simp, by simp⟩

theorem runAt_append_cons (hfront : ∀ d ∈ front, isWordChar d) (hc : ¬isWordChar c) :
    RunAt (front ++ c :: rest) start run ↔
      start = 0 ∧ run = front ∧ run ≠ [] ∨
        ∃ place, start = place + (front.length + 1) ∧ RunAt rest place run := by
  constructor
  · rintro ⟨before, after, heq, rfl, hne, hrun, hlast, hhead⟩
    rcases List.append_eq_append_iff.mp heq with ⟨others, rfl, hrest⟩ | ⟨others, rfl, hrest⟩
    · cases others with
      | nil =>
        obtain ⟨d, run, rfl⟩ := List.exists_cons_of_ne_nil hne
        obtain rfl : c = d := (List.cons.inj hrest).1
        exact absurd (hrun c List.mem_cons_self) hc
      | cons d others =>
        obtain ⟨rfl, rfl⟩ := List.cons.inj hrest
        refine .inr ⟨others.length, ?_, others, after, rfl, rfl, hne, hrun,
          (last_append_cons hc).mp hlast, hhead⟩
        rw [List.length_append, List.length_cons]
        omega
    · obtain rfl := eq_nil_of_last (List.forall_mem_append.mp hfront).1 hlast
      have hstop : ∀ d ∈ (c :: rest).head?, ¬isWordChar d := by
        rintro d ⟨⟩
        exact hc
      obtain ⟨rfl, -⟩ := Source.append_inj_of_head hrun hhead hfront hstop hrest
      exact .inl ⟨rfl, rfl, hne⟩
  · rintro (⟨rfl, rfl, hne⟩ | ⟨place, rfl, before, after, rfl, rfl, hne, hrun, hlast, hhead⟩)
    · refine ⟨[], c :: rest, rfl, rfl, hne, hfront, by simp, ?_⟩
      rintro d ⟨⟩
      exact hc
    · refine ⟨front ++ c :: before, after, by simp, ?_, hne, hrun,
        (last_append_cons hc).mpr hlast, hhead⟩
      rw [List.length_append, List.length_cons]
      omega

/-- The runs that count as words, from left to right, are the words as they are written. -/
theorem exists_runs (text : List Char) : ∃ runs : List (Nat × List Char),
    (runs.Pairwise fun a b => a.1 < b.1) ∧
    (∀ start run, (start, run) ∈ runs ↔ RunAt text start run ∧ isWord run) ∧
    pieces text = runs.map Prod.snd := by
  have hne : ∀ run : List Char, isWord run → run ≠ [] := by
    rintro run hrun rfl
    simp [isWord] at hrun
  induction text using Source.run_induction with
  | run text htext =>
    refine ⟨([text].filter isWord).map (0, ·), ?_, fun start run => ?_, ?_⟩
    · cases h : isWord text <;> simp [h]
    · rw [runAt_of_run htext]
      simp only [List.mem_map, List.mem_filter, List.mem_singleton, Prod.mk.injEq]
      constructor
      · rintro ⟨_, ⟨rfl, hword⟩, rfl, rfl⟩
        exact ⟨⟨rfl, rfl, hne _ hword⟩, hword⟩
      · rintro ⟨⟨rfl, rfl, -⟩, hword⟩
        exact ⟨_, ⟨rfl, hword⟩, rfl, rfl⟩
    · rw [pieces_of_run htext, List.map_map]
      exact (List.map_id _).symm
  | cut front c rest hfront hc ih =>
    obtain ⟨runs, hsorted, hmem, hpieces⟩ := ih
    refine ⟨([front].filter isWord).map (0, ·) ++
      runs.map fun r => (r.1 + (front.length + 1), r.2), ?_, fun start run => ?_, ?_⟩
    · refine List.pairwise_append.mpr ⟨?_, ?_, fun a ha b hb => ?_⟩
      · cases h : isWord front <;> simp [h]
      · exact List.pairwise_map.mpr (hsorted.imp fun h => by dsimp only; omega)
      · obtain ⟨_, -, rfl⟩ := List.mem_map.mp ha
        obtain ⟨_, -, rfl⟩ := List.mem_map.mp hb
        dsimp only
        omega
    · rw [runAt_append_cons hfront hc]
      simp only [List.mem_append, List.mem_map, List.mem_filter, List.mem_singleton, Prod.mk.injEq]
      constructor
      · rintro (⟨_, ⟨rfl, hword⟩, rfl, rfl⟩ | ⟨⟨place, run⟩, hrun, rfl, rfl⟩)
        · exact ⟨.inl ⟨rfl, rfl, hne _ hword⟩, hword⟩
        · obtain ⟨hrun, hword⟩ := (hmem place run).mp hrun
          exact ⟨.inr ⟨place, rfl, hrun⟩, hword⟩
      · rintro ⟨⟨rfl, rfl, -⟩ | ⟨place, rfl, hrun⟩, hword⟩
        · exact .inl ⟨_, ⟨rfl, hword⟩, rfl, rfl⟩
        · exact .inr ⟨(place, run), (hmem place run).mpr ⟨hrun, hword⟩, rfl, rfl⟩
    · rw [pieces_append_cons hc, pieces_of_run hfront, hpieces, List.map_append, List.map_map,
        List.map_map]
      exact congrArg (· ++ _) (List.map_id _).symm

/-! ### Scanning -/

/-- A character that is neither in a word nor white space. -/
def isSign (c : Char) : Bool := !isWordChar c && !isSpace c

/-- What a scan from left to right finds: runs of word characters and runs of signs, each as long as
it can be, with white space between them. -/
def scan : List Char → List (List Char)
  | [] => []
  | c :: rest =>
    if isWordChar c then
      (c :: rest.takeWhile isWordChar) :: scan (rest.dropWhile isWordChar)
    else if isSign c then
      (c :: rest.takeWhile isSign) :: scan (rest.dropWhile isSign)
    else
      scan rest
termination_by text => text.length
decreasing_by
  all_goals have := fun p : Char → Bool => (List.dropWhile_suffix p (l := rest)).length_le
  all_goals simp only [List.length_cons]
  · have := this isWordChar
    omega
  · have := this isSign
    omega
  · omega

theorem isWordChar_of_isAlpha (h : c.isAlpha) : isWordChar c := by
  rw [isWordChar, if_pos (Source.isAlpha_iff.mp h).toNat_lt, Char.isAlphanum, h]
  rfl

theorem pieces_run_append (hrun : ∀ c ∈ run, isWordChar c)
    (hrest : ∀ c ∈ rest.head?, ¬isWordChar c) :
    pieces (run ++ rest) = [run].filter isWord ++ pieces rest := by
  cases rest with
  | nil =>
    rw [List.append_nil, pieces_of_run hrun]
    exact (List.append_nil _).symm
  | cons c rest =>
    rw [pieces_append_cons (hrest c rfl), pieces_cons (hrest c rfl), pieces_of_run hrun]

theorem pieces_append_of_forall (h : ∀ c ∈ front, ¬isWordChar c) (rest : List Char) :
    pieces (front ++ rest) = pieces rest := by
  induction front with
  | nil => rfl
  | cons c front ih =>
    obtain ⟨hc, hfront⟩ := List.forall_mem_cons.mp h
    rw [List.cons_append, pieces_cons hc, ih hfront]

/-- The runs of signs and the runs that no letter begins are passed over after the scan, which does
not look at them again. -/
theorem filter_scan (text : List Char) : (scan text).filter isWord = pieces text := by
  fun_induction scan text with
  | case1 => rfl
  | case2 c rest hc ih =>
    have hrun : ∀ d ∈ c :: rest.takeWhile isWordChar, isWordChar d :=
      List.forall_mem_cons.mpr ⟨hc, fun d hd => List.mem_takeWhile_imp hd⟩
    have hstop : ∀ d ∈ (rest.dropWhile isWordChar).head?, ¬isWordChar d :=
      Source.not_of_mem_head?_dropWhile
    have hsplit := pieces_run_append hrun hstop
    rw [List.cons_append, List.takeWhile_append_dropWhile] at hsplit
    rw [hsplit, ← ih, ← List.filter_append]
    rfl
  | case3 c rest hc hsign ih =>
    have hnone : ∀ d ∈ c :: rest.takeWhile isSign, ¬isWordChar d := by
      refine List.forall_mem_cons.mpr ⟨hc, fun d hd => ?_⟩
      have hd : isSign d = true := List.mem_takeWhile_imp hd
      rw [isSign, Bool.and_eq_true, Bool.not_eq_true'] at hd
      exact Bool.eq_false_iff.mp hd.1
    have hword : ¬isWord (c :: rest.takeWhile isSign) := fun h => hc (isWordChar_of_isAlpha h)
    have hsplit := pieces_append_of_forall hnone (rest.dropWhile isSign)
    rw [List.cons_append, List.takeWhile_append_dropWhile] at hsplit
    rw [hsplit, ← ih, List.filter_cons_of_neg hword]
  | case4 c rest hc _ ih => rw [ih, pieces_cons hc]

/-! ### Words -/

theorem isWord_iff : isWord run ↔ ∃ c ∈ run.head?, Source.Letter c := by
  cases run with
  | nil => simp [isWord]
  | cons c run => simp [isWord, Source.isAlpha_iff]

/-- The words of a sentence are, from left to right, those runs of word characters that a letter
from a to z begins, each as long as it can be and each written in small letters by itself.  It is
the same to scan the sentence for runs of word characters and runs of signs.  So the words on the
two sides of a character that is in no word do not depend on each other. -/
theorem words_eq_runs (sentence : String) :
    (∃ runs : List (Nat × List Char), (runs.Pairwise fun a b => a.1 < b.1) ∧
      (∀ start run, (start, run) ∈ runs ↔
        RunAt sentence.toList start run ∧ ∃ c ∈ run.head?, Source.Letter c) ∧
      words sentence = runs.map fun r => String.ofList (lowercase r.2)) ∧
    words sentence =
      ((scan sentence.toList).filter isWord).map (fun run => String.ofList (lowercase run)) ∧
    ∀ c, ¬isWordChar c → ∀ rest : String,
      words (sentence ++ String.singleton c ++ rest) = words sentence ++ words rest := by
  refine ⟨?_, by rw [words, filter_scan], fun c hc rest => ?_⟩
  · obtain ⟨runs, hsorted, hmem, hpieces⟩ := exists_runs sentence.toList
    refine ⟨runs, hsorted, fun start run => ?_, ?_⟩
    · rw [hmem, isWord_iff]
    · rw [words, hpieces, List.map_map]
      rfl
  · have happend : (sentence ++ String.singleton c ++ rest).toList =
        sentence.toList ++ c :: rest.toList := by simp
    rw [words, happend, pieces_append_cons hc, List.map_append]
    rfl

theorem words_eq_runs_dash : ¬isWordChar '\u2014' ∧
    words ("_a NO\u03A3" ++ String.singleton '\u2014' ++ "a\u03A3 \u00E9t 3rd") =
      words "_a NO\u03A3" ++ words "a\u03A3 \u00E9t 3rd" ∧
    words "_a NO\u03A3" ++ words "a\u03A3 \u00E9t 3rd" = ["no\u03C2", "a\u03C2"] ∧
    ∃ runs : List (Nat × List Char), (3, "NO\u03A3".toList) ∈ runs ∧
      words "_a NO\u03A3" = runs.map fun r => String.ofList (lowercase r.2) := by
  have hdash : ¬isWordChar '\u2014' := by decide +kernel
  obtain ⟨⟨runs, -, hmem, hwords⟩, -, happend⟩ := words_eq_runs "_a NO\u03A3"
  have hrun : RunAt "_a NO\u03A3".toList 3 "NO\u03A3".toList := by
    have hword : ∀ c ∈ "NO\u03A3".toList, isWordChar c :=
      List.all_eq_true.mp (by decide +kernel)
    refine ⟨"_a ".toList, [], rfl, rfl, by simp, hword, ?_, by simp⟩
    rintro c ⟨⟩
    decide +kernel
  refine ⟨hdash, happend '\u2014' hdash "a\u03A3 \u00E9t 3rd", by decide +kernel, runs, ?_, hwords⟩
  exact (hmem 3 _).mpr ⟨hrun, 'N', rfl, .inr (by decide)⟩

/-! ### Words again -/

theorem isWordChar_of_mem_pieces (h : run ∈ pieces text) :
    isWord run ∧ ∀ c ∈ run, isWordChar c := by
  obtain ⟨runs, -, hmem, hpieces⟩ := exists_runs text
  rw [hpieces] at h
  obtain ⟨⟨start, run⟩, hrun, rfl⟩ := List.mem_map.mp h
  obtain ⟨⟨_, _, -, -, -, hword, -, -⟩, hletter⟩ := (hmem start run).mp hrun
  exact ⟨hletter, hword⟩

/-- What a word is made of when it is written in small letters. -/
theorem lowercase_of_mem_pieces (h : run ∈ pieces text) :
    (∃ c ∈ (lowercase run).head?, 'a' ≤ c ∧ c ≤ 'z') ∧
      ∀ c ∈ lowercase run, IsSmallWordChar c := by
  obtain ⟨hletter, hword⟩ := isWordChar_of_mem_pieces h
  refine ⟨?_, isSmallWordChar_of_mem_lowercaseAfter hword⟩
  cases run with
  | nil => simp [isWord] at hletter
  | cons c run =>
    obtain ⟨d, hfirst, hlast, heq⟩ := lowercase_cons_of_isAlpha hletter run
    rw [heq]
    exact ⟨d, rfl, hfirst, hlast⟩

/-- Words with blanks between them are found again. -/
theorem pieces_intercalate {runs : List (List Char)}
    (h : ∀ run ∈ runs, isWord run ∧ ∀ c ∈ run, isWordChar c) :
    pieces ([' '].intercalate runs) = runs := by
  induction runs with
  | nil => rfl
  | cons run runs ih =>
    obtain ⟨⟨hletter, hword⟩, hrest⟩ := List.forall_mem_cons.mp h
    have hrun : pieces run = [run] := by
      rw [pieces_of_run hword, List.filter_cons_of_pos hletter]
      rfl
    cases runs with
    | nil => rw [List.intercalate_singleton, hrun]
    | cons next runs =>
      have hblank : ¬isWordChar ' ' := by decide
      rw [List.intercalate_cons_cons, List.append_assoc, List.singleton_append,
        pieces_append_cons hblank, hrun, ih hrest]
      rfl

theorem map_toList_words (sentence : String) :
    (words sentence).map String.toList = (pieces sentence.toList).map lowercase := by
  rw [words, List.map_map]
  exact List.map_congr_left fun run _ => String.toList_ofList

theorem mem_words_iff {sentence word : String} : word ∈ words sentence ↔
    ∃ run ∈ pieces sentence.toList, word.toList = lowercase run := by
  rw [words, List.mem_map]
  constructor
  · rintro ⟨run, hrun, rfl⟩
    exact ⟨run, hrun, String.toList_ofList⟩
  · rintro ⟨run, hrun, heq⟩
    exact ⟨run, hrun, by rw [← heq, String.ofList_toList]⟩

theorem words_intercalate_words (sentence : String) :
    words (" ".intercalate (words sentence)) = words sentence := by
  have hpieces : pieces (" ".intercalate (words sentence)).toList =
      (pieces sentence.toList).map lowercase := by
    rw [String.toList_intercalate, map_toList_words]
    refine pieces_intercalate fun word hword => ?_
    obtain ⟨run, hrun, rfl⟩ := List.mem_map.mp hword
    obtain ⟨⟨c, hc, hfirst, hlast⟩, hsmall⟩ := lowercase_of_mem_pieces hrun
    exact ⟨isWord_iff.mpr ⟨c, hc, .inl ⟨hfirst, hlast⟩⟩, fun c hc => (hsmall c hc).1⟩
  rw [words, hpieces, List.map_map, words]
  refine List.map_congr_left fun run hrun => congrArg String.ofList ?_
  exact lowercaseAfter_of_small fun c hc => ((lowercase_of_mem_pieces hrun).2 c hc).2

theorem inputError?_of_ne_empty {ws : List String} (h : ∀ word ∈ ws, word ≠ "") (index : Nat) :
    inputError? ws ≠ some (.emptyWord index) := by
  have hnone : ws.findIdx? (· == "") = none := by
    rw [List.findIdx?_eq_none_iff]
    intro word hword
    simpa using h word hword
  rw [inputError?, hnone]
  split <;> simp

theorem of_mem_words {sentence word : String} (h : word ∈ words sentence) :
    word ≠ "" ∧ (∃ c ∈ word.toList.head?, 'a' ≤ c ∧ c ≤ 'z') ∧ ∀ c ∈ word.toList, isWordChar c := by
  obtain ⟨run, hrun, heq⟩ := mem_words_iff.mp h
  obtain ⟨hhead, hsmall⟩ := lowercase_of_mem_pieces hrun
  rw [heq]
  refine ⟨?_, hhead, fun c hc => (hsmall c hc).1⟩
  rintro rfl
  rw [← heq] at hhead
  simp at hhead

/-- Every word of a sentence begins with a small letter from a to z and is made of word characters,
so that it is not empty and no sentence is refused for a word of it.  The words with blanks between
them have the same words again. -/
theorem words_again (sentence : String) :
    (∀ word ∈ words sentence, word ≠ "" ∧ (∃ c ∈ word.toList.head?, 'a' ≤ c ∧ c ≤ 'z') ∧
      ∀ c ∈ word.toList, isWordChar c) ∧
    (∀ (g : Grammar) index, g.chart (words sentence) ≠ .error (.emptyWord index)) ∧
    words (" ".intercalate (words sentence)) = words sentence := by
  refine ⟨fun word => of_mem_words, fun g index h => ?_, words_intercalate_words sentence⟩
  have hnone : inputError? (words sentence) ≠ some (.emptyWord index) :=
    inputError?_of_ne_empty (fun word hword => (of_mem_words hword).1) index
  unfold Grammar.chart at h
  split at h
  · next error herror =>
    obtain rfl := Except.error.inj h
    exact hnone herror
  · simp at h

theorem words_again_dotted : "ti\u0307ko\u03C2" ∈ words "T\u0130\u212AO\u03A3 \u00E9a" ∧
    "ti\u0307ko\u03C2" ≠ "" ∧ (∃ c ∈ "ti\u0307ko\u03C2".toList.head?, 'a' ≤ c ∧ c ≤ 'z') ∧
    ∀ c ∈ "ti\u0307ko\u03C2".toList, isWordChar c := by
  have hmem : "ti\u0307ko\u03C2" ∈ words "T\u0130\u212AO\u03A3 \u00E9a" := by decide +kernel
  exact ⟨hmem, (words_again _).1 _ hmem⟩

end PhraseStructure.Sentence
