import Mathlib.Data.List.TakeWhile
import PhraseStructure.Proofs.Source.Format

/-! Reading and the format agree: each part of a line is read exactly when it is written as the
format says, and as what it says.  So a text is read exactly when every line is in the format. -/

namespace PhraseStructure.Source

theorem map_eq_ok {α β ε : Type} {x : Except ε α} {f : α → β} {b : β} :
    x.map f = .ok b ↔ ∃ a, x = .ok a ∧ f a = b := by
  cases x <;> simp [Except.map]

theorem map_eq_error {α β ε : Type} {x : Except ε α} {f : α → β} {e : ε} :
    x.map f = .error e ↔ x = .error e := by
  cases x <;> simp [Except.map]

/-! ### Blanks, names and words -/

section Parts

variable {cs rest more name word before : List Char} {c quote : Char} {text : String}

theorem takeWhile_append_of_head {p : Char → Bool} (hname : ∀ c ∈ name, p c)
    (hrest : ∀ c ∈ rest.head?, ¬p c) : (name ++ rest).takeWhile p = name := by
  rw [List.takeWhile_append_of_pos hname]
  cases rest with
  | nil => simp
  | cons c rest => simp [hrest c rfl]

theorem dropWhile_append_of_head {p : Char → Bool} (hname : ∀ c ∈ name, p c)
    (hrest : ∀ c ∈ rest.head?, ¬p c) : (name ++ rest).dropWhile p = rest := by
  rw [List.dropWhile_append_of_pos hname]
  cases rest with
  | nil => rfl
  | cons c rest => simp [hrest c rfl]

/-- Where what passes a test ends is determined, if what comes next does not pass it. -/
theorem append_inj_of_head {p : Char → Bool} (hname : ∀ c ∈ name, p c)
    (hrest : ∀ c ∈ rest.head?, ¬p c) (hword : ∀ c ∈ word, p c) (hmore : ∀ c ∈ more.head?, ¬p c)
    (h : name ++ rest = word ++ more) : name = word ∧ rest = more := by
  have htake := congrArg (List.takeWhile p) h
  have hdrop := congrArg (List.dropWhile p) h
  rw [takeWhile_append_of_head hname hrest, takeWhile_append_of_head hword hmore] at htake
  rw [dropWhile_append_of_head hname hrest, dropWhile_append_of_head hword hmore] at hdrop
  exact ⟨htake, hdrop⟩

theorem not_of_mem_head?_dropWhile {p : Char → Bool} : ∀ c ∈ (cs.dropWhile p).head?, ¬p c := by
  intro c hc
  have := List.head?_dropWhile_not p cs
  rw [Option.mem_def.mp hc] at this
  simp [this]

/-- A text is a run of characters that pass a test, or the first character that does not cuts it in
two. -/
@[elab_as_elim]
theorem run_induction {p : Char → Bool} {motive : List Char → Prop}
    (run : ∀ text, (∀ c ∈ text, p c) → motive text)
    (cut : ∀ front c rest, (∀ d ∈ front, p d) → ¬p c → motive rest → motive (front ++ c :: rest))
    (text : List Char) : motive text := by
  -- The induction is on what comes after a run that may be empty.
  suffices h : ∀ front, (∀ c ∈ front, p c) → motive (front ++ text) from h [] (by simp)
  induction text with
  | nil =>
    intro front hfront
    rw [List.append_nil]
    exact run front hfront
  | cons c rest ih =>
    intro front hfront
    by_cases hc : p c
    · rw [List.append_cons]
      exact ih _ (List.forall_mem_append.mpr ⟨hfront, List.forall_mem_singleton.mpr hc⟩)
    · exact cut front c rest hfront hc (ih [] (by simp))

theorem skipBlanks_append (h : Blanks before) (cs : List Char) :
    skipBlanks (before ++ cs) = skipBlanks cs := by
  rw [skipBlanks, List.dropWhile_append_of_pos fun c hc => isBlank_iff.mpr (h c hc), skipBlanks]

theorem skipBlanks_of_endOfLine (h : EndOfLine rest) : skipBlanks rest = [] := by
  rcases h with rfl | ⟨comment, rfl⟩ <;> rfl

/-- A line goes on with its first character that is no blank, if this is not a number sign. -/
theorem skipBlanks_cons (hblank : ¬(c = ' ' ∨ c = '\t')) (hcomment : c ≠ '#') (rest : List Char) :
    skipBlanks (c :: rest) = c :: rest := by
  rw [← isBlank_iff] at hblank
  rw [skipBlanks, List.dropWhile_cons_of_neg hblank]
  split
  · next heq => exact absurd (List.cons.inj heq).1 hcomment
  · rfl

theorem exists_blanks (cs : List Char) : ∃ before rest, cs = before ++ rest ∧ Blanks before ∧
    ∀ c ∈ rest.head?, ¬(c = ' ' ∨ c = '\t') := by
  refine ⟨cs.takeWhile isBlank, cs.dropWhile isBlank, List.takeWhile_append_dropWhile.symm,
    fun c hc => isBlank_iff.mp (List.mem_takeWhile_imp hc), fun c hc => ?_⟩
  rw [← isBlank_iff]
  exact not_of_mem_head?_dropWhile c hc

theorem skipBlanks_eq_nil : skipBlanks cs = [] ↔
    ∃ before rest, cs = before ++ rest ∧ Blanks before ∧ EndOfLine rest := by
  constructor
  · intro h
    obtain ⟨before, rest, rfl, hbefore, hrest⟩ := exists_blanks cs
    rw [skipBlanks_append hbefore] at h
    refine ⟨before, rest, rfl, hbefore, ?_⟩
    cases rest with
    | nil => exact .inl rfl
    | cons c more =>
      by_cases hcomment : c = '#'
      · exact .inr ⟨more, by rw [hcomment]⟩
      · simp [skipBlanks_cons (hrest c rfl) hcomment] at h
  · rintro ⟨before, rest, rfl, hbefore, hrest⟩
    rw [skipBlanks_append hbefore, skipBlanks_of_endOfLine hrest]

theorem skipBlanks_eq_cons : skipBlanks cs = c :: rest ↔
    ∃ before, cs = before ++ c :: rest ∧ Blanks before ∧ ¬(c = ' ' ∨ c = '\t') ∧ c ≠ '#' := by
  constructor
  · intro h
    obtain ⟨before, after, rfl, hbefore, hafter⟩ := exists_blanks cs
    rw [skipBlanks_append hbefore] at h
    cases after with
    | nil => simp [skipBlanks] at h
    | cons d more =>
      have hblank := hafter d rfl
      by_cases hcomment : d = '#'
      · rw [skipBlanks_of_endOfLine (.inr ⟨more, by rw [hcomment]⟩)] at h
        simp at h
      · rw [skipBlanks_cons hblank hcomment] at h
        obtain ⟨rfl, rfl⟩ := List.cons.inj h
        exact ⟨before, rfl, hbefore, hblank, hcomment⟩
  · rintro ⟨before, rfl, hbefore, hblank, hcomment⟩
    rw [skipBlanks_append hbefore, skipBlanks_cons hblank hcomment]

theorem takeName?_eq_some : takeName? cs = some (text, rest) ↔
    ∃ name, cs = name ++ rest ∧ text = String.ofList name ∧ NameBefore name rest := by
  constructor
  · intro h
    cases cs with
    | nil => simp [takeName?] at h
    | cons c more =>
      rw [takeName?] at h
      split at h
      · next hc =>
        obtain ⟨rfl, rfl⟩ := Prod.mk.inj (Option.some.inj h)
        have hbegins := isNameStart_iff.mp hc
        refine ⟨c :: more.takeWhile isNameChar, by simp, rfl, ⟨c, _, rfl, hbegins⟩, fun d hd => ?_,
          fun d hd => ?_⟩
        · rcases List.mem_cons.mp hd with rfl | hd
          · exact .inl hbegins
          · exact isNameChar_iff.mp (List.mem_takeWhile_imp hd)
        · rw [← isNameChar_iff]
          exact not_of_mem_head?_dropWhile d hd
      · simp at h
  · rintro ⟨_, rfl, rfl, ⟨c, more, rfl, hbegins⟩, hcontinues, hends⟩
    have hmore : ∀ e ∈ more, isNameChar e := fun e he =>
      isNameChar_iff.mpr (hcontinues e (List.mem_cons_of_mem _ he))
    have hstop : ∀ e ∈ rest.head?, ¬isNameChar e := fun e he =>
      isNameChar_iff.not.mpr (hends e he)
    rw [List.cons_append, takeName?, if_pos (isNameStart_iff.mpr hbegins),
      takeWhile_append_of_head hmore hstop, dropWhile_append_of_head hmore hstop]

theorem takeWord_eq_ok : takeWord quote cs = .ok (text, rest) ↔
    ∃ word, cs = word ++ quote :: rest ∧ text = String.ofList word ∧ word ≠ [] ∧ quote ∉ word := by
  constructor
  · intro h
    have hsplit : cs = cs.takeWhile (· != quote) ++ cs.dropWhile (· != quote) :=
      List.takeWhile_append_dropWhile.symm
    have hhead : ∀ c ∈ (cs.dropWhile (· != quote)).head?, ¬(c != quote) = true :=
      not_of_mem_head?_dropWhile
    unfold takeWord at h
    split at h
    · simp at h
    · next d more hdrop =>
      rw [hdrop] at hsplit hhead
      obtain rfl : d = quote := by simpa using hhead d rfl
      split at h
      · simp at h
      · next hne =>
        obtain ⟨rfl, rfl⟩ := Prod.mk.inj (Except.ok.inj h)
        refine ⟨_, hsplit, rfl, fun hnil => hne hnil, fun hmem => ?_⟩
        simpa using List.mem_takeWhile_imp hmem
  · rintro ⟨word, rfl, rfl, hne, hword⟩
    have hchars : ∀ c ∈ word, (c != quote) = true := by
      intro c hc
      rw [bne_iff_ne]
      rintro rfl
      exact hword hc
    have hstop : ∀ c ∈ (quote :: rest).head?, ¬(c != quote) = true := by simp
    rw [takeWord, dropWhile_append_of_head hchars hstop, takeWhile_append_of_head hchars hstop]
    cases word with
    | nil => exact absurd rfl hne
    | cons c word => rfl

end Parts

/-! ### Right-hand sides -/

section RightSide

variable {cs rest more name before part : List Char} {c : Char} {token : Token} {ts : List Token}
  {symbols : List Symbol}

theorem tokens_eq (cs : List Char) : tokens cs =
    match skipBlanks cs with
    | [] => .ok []
    | c :: rest =>
      match takeToken c rest with
      | .error e => .error e
      | .ok (token, more) => (tokens more).map (token :: ·) := by
  rw [tokens]
  split
  · next h => rw [h]
  · next h =>
    rw [h]
    dsimp only
    split
    · next h' => rw [h']
    · next h' => rw [h']

theorem tokens_of_skipBlanks_eq_nil (h : skipBlanks cs = []) : tokens cs = .ok [] := by
  rw [tokens_eq, h]

theorem tokens_blanks (h : Blanks before) (cs : List Char) : tokens (before ++ cs) = tokens cs := by
  rw [tokens_eq, skipBlanks_append h, ← tokens_eq]

theorem tokens_of_takeToken_eq_ok (hblank : ¬(c = ' ' ∨ c = '\t')) (hcomment : c ≠ '#')
    (h : takeToken c rest = .ok (token, more)) :
    tokens (c :: rest) = (tokens more).map (token :: ·) := by
  rw [tokens_eq, skipBlanks_cons hblank hcomment]
  dsimp only
  rw [h]

theorem tokens_bar (cs : List Char) : tokens ('|' :: cs) = (tokens cs).map (.bar :: ·) :=
  tokens_of_takeToken_eq_ok (by decide) (by decide) rfl

theorem tokens_word {word : List Char} (hquote : c = '"' ∨ c = '\'') (hne : word ≠ [])
    (hword : c ∉ word) : tokens (c :: (word ++ c :: cs)) =
      (tokens cs).map (.symbol (.terminal (String.ofList word)) :: ·) := by
  have htake : takeWord c (word ++ c :: cs) = .ok (String.ofList word, cs) :=
    takeWord_eq_ok.mpr ⟨word, rfl, rfl, hne, hword⟩
  have hbar : c ≠ '|' := by rcases hquote with rfl | rfl <;> decide
  refine tokens_of_takeToken_eq_ok ?_ ?_ ?_
  · rcases hquote with rfl | rfl <;> decide
  · rcases hquote with rfl | rfl <;> decide
  · rw [takeToken, if_neg hbar, if_pos (isQuote_iff.mpr hquote), htake]
    rfl

theorem tokens_name (h : NameBefore name cs) : tokens (name ++ cs) =
    (tokens cs).map (.symbol (.nonterminal (String.ofList name)) :: ·) := by
  have htake : takeName? (name ++ cs) = some (String.ofList name, cs) :=
    takeName?_eq_some.mpr ⟨name, rfl, rfl, h⟩
  obtain ⟨c, more, rfl, hbegins⟩ := h.begins
  have hquote : ¬isQuote c := by
    rw [isQuote_iff]
    exact not_or.mpr ⟨hbegins.ne (by decide), hbegins.ne (by decide)⟩
  rw [List.cons_append] at htake ⊢
  refine tokens_of_takeToken_eq_ok hbegins.not_blank (hbegins.ne (by decide)) ?_
  rw [takeToken, if_neg (hbegins.ne (by decide)), if_neg hquote, htake]

/-- The symbols of an alternative come first among the tokens, if a bar or the end of the line
follows it. -/
theorem tokens_alternative (h : Alternative part symbols)
    (hrest : ∀ c ∈ rest.head?, c = '|' ∨ c = '#') :
    tokens (part ++ rest) = (tokens rest).map (symbols.map .symbol ++ ·) := by
  have hmap : ∀ (symbol : Symbol) (symbols : List Symbol),
      ((tokens rest).map (symbols.map .symbol ++ ·)).map (.symbol symbol :: ·) =
        (tokens rest).map ((symbol :: symbols).map .symbol ++ ·) := by
    intro symbol symbols
    cases tokens rest <;> rfl
  induction h with
  | nil => cases htokens : tokens rest <;> simp [htokens, Except.map]
  | @blank c cs symbols hc _ ih =>
    have hblank : Blanks [c] := by simpa [Blanks] using hc
    rw [← ih]
    exact tokens_blanks hblank (cs ++ rest)
  | @name name cs symbols hname _ ih =>
    have hstop : ∀ c ∈ rest.head?, ¬ContinuesName c := by
      intro c hc
      rcases hrest c hc with rfl | rfl <;> decide
    rw [List.append_assoc, tokens_name (hname.append hstop), ih, hmap]
  | @word quote word cs symbols hquote hne hword _ ih =>
    rw [List.cons_append, List.append_assoc, List.cons_append, tokens_word hquote hne hword, ih,
      hmap]

theorem alternatives_append (symbols : List Symbol) (ts : List Token) :
    alternatives (symbols.map .symbol ++ ts) = (alternatives ts).modifyHead (symbols ++ ·) := by
  induction symbols with
  | nil =>
    rw [List.map_nil, List.nil_append]
    cases alternatives ts <;> rfl
  | cons symbol symbols ih =>
    rw [List.map_cons, List.cons_append, alternatives, ih]
    cases alternatives ts <;> simp

theorem exists_tokens_of_rightSide {alternatives : List (List Symbol)}
    (h : RightSide cs alternatives) :
    ∃ ts, tokens cs = .ok ts ∧ Source.alternatives ts = alternatives := by
  obtain ⟨parts, rest, rfl, hrest, hne, hparts⟩ := h
  induction hparts with
  | nil => exact absurd rfl hne
  | @cons part symbols parts alternatives hpart hparts ih =>
    cases hparts with
    | nil =>
      have hstop : ∀ c ∈ rest.head?, c = '|' ∨ c = '#' := by
        rcases hrest with rfl | ⟨comment, rfl⟩ <;> simp
      refine ⟨symbols.map .symbol ++ [], ?_, ?_⟩
      · rw [List.intercalate_singleton, tokens_alternative hpart hstop,
          tokens_of_skipBlanks_eq_nil (skipBlanks_of_endOfLine hrest)]
        rfl
      · rw [alternatives_append]
        simp [Source.alternatives]
    | @cons next symbols' parts alternatives hnext hparts =>
      obtain ⟨ts, htokens, hts⟩ := ih (by simp)
      refine ⟨symbols.map .symbol ++ .bar :: ts, ?_, ?_⟩
      · rw [List.intercalate_cons_cons, List.append_assoc, List.append_assoc,
          tokens_alternative hpart (by simp), List.singleton_append, tokens_bar, htokens]
        rfl
      · rw [alternatives_append, Source.alternatives, hts]
        simp

/-- What is taken as a token is a bar, a quoted word or a name. -/
theorem takeToken_eq_ok (h : takeToken c rest = .ok (token, more)) :
    (c = '|' ∧ token = .bar ∧ more = rest) ∨
    (∃ word, (c = '"' ∨ c = '\'') ∧ word ≠ [] ∧ c ∉ word ∧ rest = word ++ c :: more ∧
      token = .symbol (.terminal (String.ofList word))) ∨
    ∃ name, NameBefore name more ∧ c :: rest = name ++ more ∧
      token = .symbol (.nonterminal (String.ofList name)) := by
  unfold takeToken at h
  split at h
  · next hbar =>
    obtain ⟨rfl, rfl⟩ := Prod.mk.inj (Except.ok.inj h)
    exact .inl ⟨hbar, rfl, rfl⟩
  · split at h
    · next hquote =>
      obtain ⟨⟨text, after⟩, hword, heq⟩ := map_eq_ok.mp h
      obtain ⟨rfl, rfl⟩ := Prod.mk.inj heq
      obtain ⟨word, hrest, rfl, hne, hmem⟩ := takeWord_eq_ok.mp hword
      exact .inr (.inl ⟨word, isQuote_iff.mp hquote, hne, hmem, hrest, rfl⟩)
    · split at h
      · next text after hname =>
        obtain ⟨rfl, rfl⟩ := Prod.mk.inj (Except.ok.inj h)
        obtain ⟨name, heq, rfl, hbefore⟩ := takeName?_eq_some.mp hname
        exact .inr (.inr ⟨name, hbefore, heq, rfl⟩)
      · simp at h

/-- The token in front of a right-hand side becomes part of it. -/
theorem rightSide_of_takeToken (htake : takeToken c rest = .ok (token, more))
    (h : RightSide more (alternatives ts)) :
    RightSide (c :: rest) (alternatives (token :: ts)) := by
  rcases takeToken_eq_ok htake with ⟨rfl, rfl, rfl⟩ | ⟨word, hquote, hne, hmem, rfl, rfl⟩ |
    ⟨name, hbefore, heq, rfl⟩
  · exact h.bar
  · exact h.word hquote hne hmem
  · rw [heq]
    exact h.name hbefore

theorem rightSide_of_tokens (h : tokens cs = .ok ts) : RightSide cs (alternatives ts) := by
  induction cs using tokens.induct generalizing ts with
  | case1 cs hskip =>
    obtain ⟨before, rest, rfl, hbefore, hrest⟩ := skipBlanks_eq_nil.mp hskip
    rw [tokens_of_skipBlanks_eq_nil hskip] at h
    obtain rfl := Except.ok.inj h
    exact (rightSide_of_endOfLine hrest).blanks hbefore
  | case2 cs c rest hskip e htake =>
    rw [tokens_eq, hskip] at h
    simp [htake] at h
  | case3 cs c rest hskip token more htake ih =>
    obtain ⟨before, rfl, hbefore, hblank, hcomment⟩ := skipBlanks_eq_cons.mp hskip
    rw [tokens_blanks hbefore, tokens_of_takeToken_eq_ok hblank hcomment htake] at h
    obtain ⟨us, hmore, rfl⟩ := map_eq_ok.mp h
    exact (rightSide_of_takeToken htake (ih hmore)).blanks hbefore

/-- The right-hand side of a rule is read when it is in the format, and as what it says. -/
theorem rightSide_iff {alternatives : List (List Symbol)} : RightSide cs alternatives ↔
    ∃ ts, tokens cs = .ok ts ∧ Source.alternatives ts = alternatives := by
  constructor
  · exact exists_tokens_of_rightSide
  · rintro ⟨ts, htokens, rfl⟩
    exact rightSide_of_tokens htokens

end RightSide

/-! ### Lines -/

section Line

variable {cs rest : List Char} {line : Line} {text : String}

theorem skipBlanks_name {before name : List Char} (hbefore : Blanks before)
    (h : NameBefore name rest) : skipBlanks (before ++ (name ++ rest)) = name ++ rest := by
  obtain ⟨c, more, rfl, hbegins⟩ := h.begins
  rw [skipBlanks_append hbefore]
  exact skipBlanks_cons hbegins.not_blank (hbegins.ne (by decide)) _

/-- The name after blanks. -/
theorem takeName?_skipBlanks : takeName? (skipBlanks cs) = some (text, rest) ↔
    ∃ before name, cs = before ++ (name ++ rest) ∧ Blanks before ∧ text = String.ofList name ∧
      NameBefore name rest := by
  constructor
  · intro h
    obtain ⟨name, heq, rfl, hname⟩ := takeName?_eq_some.mp h
    obtain ⟨c, more, rfl, -⟩ := hname.begins
    obtain ⟨before, rfl, hbefore, -⟩ := skipBlanks_eq_cons.mp heq
    exact ⟨before, c :: more, rfl, hbefore, rfl, hname⟩
  · rintro ⟨before, name, rfl, hbefore, rfl, hname⟩
    rw [skipBlanks_name hbefore hname]
    exact takeName?_eq_some.mpr ⟨name, rfl, rfl, hname⟩

theorem readDirective_eq_ok : readDirective cs = .ok line ↔
    ∃ between name after rest, cs = "%start".toList ++ between ++ name ++ after ++ rest ∧
      Blanks between ∧ NameBefore name (after ++ rest) ∧ Blanks after ∧ EndOfLine rest ∧
      line = .start (String.ofList name) := by
  constructor
  · intro h
    unfold readDirective at h
    split at h
    · split at h
      · simp at h
      · next text more htake =>
        split at h
        · next hskip =>
          obtain ⟨between, name, rfl, hbetween, rfl, hname⟩ := takeName?_skipBlanks.mp htake
          obtain ⟨after, rest, rfl, hafter, hrest⟩ := skipBlanks_eq_nil.mp hskip
          exact ⟨between, name, after, rest, by simp, hbetween, hname, hafter, hrest,
            (Except.ok.inj h).symm⟩
        · simp at h
    · simp at h
  · rintro ⟨between, name, after, rest, rfl, hbetween, hname, hafter, hrest, rfl⟩
    have htake : takeName? (skipBlanks (between ++ (name ++ (after ++ rest)))) =
        some (String.ofList name, after ++ rest) :=
      takeName?_skipBlanks.mpr ⟨between, name, rfl, hbetween, rfl, hname⟩
    have hskip : skipBlanks (after ++ rest) = [] :=
      skipBlanks_eq_nil.mpr ⟨after, rest, rfl, hafter, hrest⟩
    simp [readDirective, htake, hskip]

theorem readRules_eq_ok : readRules cs = .ok line ↔
    ∃ name between right alternatives, cs = name ++ between ++ "->".toList ++ right ∧
      NameBefore name (between ++ "->".toList ++ right) ∧ Blanks between ∧
      RightSide right alternatives ∧
      line = .rules (alternatives.map (⟨String.ofList name, ·⟩)) := by
  constructor
  · intro h
    unfold readRules at h
    split at h
    · simp at h
    · next text more htake =>
      obtain ⟨name, rfl, rfl, hname⟩ := takeName?_eq_some.mp htake
      split at h
      · next right hskip =>
        obtain ⟨between, rfl, hbetween, -⟩ := skipBlanks_eq_cons.mp hskip
        obtain ⟨ts, htokens, rfl⟩ := map_eq_ok.mp h
        exact ⟨name, between, right, alternatives ts, by simp, by simpa using hname, hbetween,
          rightSide_iff.mpr ⟨ts, htokens, rfl⟩, rfl⟩
      · simp at h
  · rintro ⟨name, between, right, alternatives, rfl, hname, hbetween, hright, rfl⟩
    obtain ⟨ts, htokens, rfl⟩ := rightSide_iff.mp hright
    have htake : takeName? (name ++ (between ++ "->".toList ++ right)) =
        some (String.ofList name, between ++ "->".toList ++ right) :=
      takeName?_eq_some.mpr ⟨name, rfl, rfl, hname⟩
    have hskip : skipBlanks (between ++ "->".toList ++ right) = '-' :: '>' :: right := by
      rw [List.append_assoc, skipBlanks_append hbetween]
      rfl
    rw [← List.append_assoc, ← List.append_assoc] at htake
    rw [readRules, htake]
    dsimp only
    rw [hskip]
    exact map_eq_ok.mpr ⟨ts, htokens, rfl⟩

theorem readLine_of_ne {c : Char} (hskip : skipBlanks cs = c :: rest) (hc : c ≠ '%') :
    readLine cs = readRules (c :: rest) := by
  rw [readLine, hskip]
  split
  · simp at *
  · next heq => exact absurd (List.cons.inj heq).1 hc
  · rfl

/-- A line that begins with a name after blanks gives rules, if it can be read. -/
theorem readLine_name {before name : List Char} (hbefore : Blanks before)
    (h : NameBefore name rest) :
    readLine (before ++ (name ++ rest)) = readRules (name ++ rest) := by
  have hskip := skipBlanks_name hbefore h
  obtain ⟨c, more, rfl, hbegins⟩ := h.begins
  exact readLine_of_ne hskip (hbegins.ne (by decide))

theorem written_of_readLine (h : readLine cs = .ok line) : Written cs line := by
  unfold readLine at h
  split at h
  · next hskip =>
    obtain ⟨before, rest, rfl, hbefore, hrest⟩ := skipBlanks_eq_nil.mp hskip
    obtain rfl := Except.ok.inj h
    exact .blank hbefore hrest
  · next hskip =>
    obtain ⟨before, rfl, hbefore, -⟩ := skipBlanks_eq_cons.mp hskip
    obtain ⟨between, name, after, rest, heq, hbetween, hname, hafter, hrest, rfl⟩ :=
      readDirective_eq_ok.mp h
    rw [heq]
    simpa only [List.append_assoc] using
      Written.start hbefore hbetween hname hafter hrest
  · next hnil _ =>
    obtain ⟨name, between, right, alternatives, heq, hname, hbetween, hright, rfl⟩ :=
      readRules_eq_ok.mp h
    obtain ⟨c, more, rfl, -⟩ := hname.begins
    obtain ⟨before, rfl, hbefore, -⟩ := skipBlanks_eq_cons.mp heq
    simpa only [List.append_eq, List.append_assoc, List.cons_append] using
      Written.rules hbefore hname hbetween hright

theorem readLine_of_written (h : Written cs line) : readLine cs = .ok line := by
  cases h with
  | @blank before rest hbefore hrest =>
    rw [readLine, skipBlanks_eq_nil.mpr ⟨before, rest, rfl, hbefore, hrest⟩]
  | @start before between name after rest hbefore hbetween hname hafter hrest =>
    have hread := readDirective_eq_ok.mpr
      ⟨between, name, after, rest, rfl, hbetween, hname, hafter, hrest, rfl⟩
    have hskip : skipBlanks (before ++ "%start".toList ++ between ++ name ++ after ++ rest) =
        "%start".toList ++ between ++ name ++ after ++ rest := by
      simp only [List.append_assoc]
      rw [skipBlanks_append hbefore]
      exact skipBlanks_cons (by decide) (by decide) _
    rw [readLine, hskip]
    exact hread
  | @rules before name between right alternatives hbefore hname hbetween hright =>
    have hread := readRules_eq_ok.mpr
      ⟨name, between, right, alternatives, rfl, hname, hbetween, hright, rfl⟩
    have hline := readLine_name hbefore hname
    simp only [List.append_assoc] at hline hread ⊢
    rw [hline, hread]

/-- A line is read when it is in the format, and as what it says. -/
theorem readLine_eq_ok : readLine cs = .ok line ↔ Written cs line :=
  ⟨written_of_readLine, readLine_of_written⟩

/-- The hyphen of the arrow goes to the name if nothing separates them. -/
example : readLine "A->x".toList = .error (.missingArrow ">x") := by decide +kernel

end Line

/-! ### Texts -/

theorem getLast?_filterMap_cons {α β : Type} (f : α → Option β) (x : α) (xs : List α) :
    ((x :: xs).filterMap f).getLast? = (xs.filterMap f).getLast?.or (f x) := by
  cases hx : f x with
  | none => rw [List.filterMap_cons_none hx, Option.or_none]
  | some y =>
    rw [List.filterMap_cons_some hx, List.getLast?_cons]
    cases (xs.filterMap f).getLast? <;> rfl

theorem ofLines_cons (line : Line) (said : List Line) :
    ofLines (line :: said) = ofLine line ++ ofLines said :=
  congrArg₂ Source.mk (getLast?_filterMap_cons _ line said) List.flatMap_cons

theorem readLines_eq_ok {lines : List (List Char)} {number : Nat} {source : Source} :
    readLines number lines = .ok source ↔
      ∃ said, List.Forall₂ Written lines said ∧ source = ofLines said := by
  induction lines generalizing number source with
  | nil => simp [readLines, ofLines, eq_comm]
  | cons line lines ih =>
    rw [readLines]
    constructor
    · intro h
      split at h
      · simp at h
      · next first hfirst =>
        obtain ⟨rest, hrest, rfl⟩ := map_eq_ok.mp h
        obtain ⟨said, hsaid, rfl⟩ := ih.mp hrest
        exact ⟨first :: said, .cons (readLine_eq_ok.mp hfirst) hsaid, (ofLines_cons _ _).symm⟩
    · rintro ⟨_, hall, rfl⟩
      obtain ⟨first, said, hfirst, hsaid, rfl⟩ := List.forall₂_cons_left_iff.mp hall
      rw [readLine_eq_ok.mpr hfirst, ofLines_cons]
      exact map_eq_ok.mpr ⟨_, ih.mpr ⟨_, hsaid, rfl⟩, rfl⟩

theorem exists_forall₂_iff {α β : Type} {R : α → β → Prop} {xs : List α} :
    (∃ ys, List.Forall₂ R xs ys) ↔ ∀ x ∈ xs, ∃ y, R x y := by
  induction xs with
  | nil => simp
  | cons x xs ih =>
    rw [List.forall_mem_cons, ← ih]
    constructor
    · rintro ⟨_, hall⟩
      obtain ⟨y, ys, hy, hys, -⟩ := List.forall₂_cons_left_iff.mp hall
      exact ⟨⟨y, hy⟩, ys, hys⟩
    · rintro ⟨⟨y, hy⟩, ys, hys⟩
      exact ⟨y :: ys, .cons hy hys⟩

theorem forall₂_and_right {α β : Type} {R : α → β → Prop} {P : β → Prop} {xs : List α}
    {ys : List β} : List.Forall₂ (fun x y => R x y ∧ P y) xs ys ↔
      List.Forall₂ R xs ys ∧ ∀ y ∈ ys, P y := by
  induction ys generalizing xs with
  | nil => simp
  | cons y ys ih =>
    cases xs with
    | nil => simp
    | cons x xs =>
      rw [List.forall₂_cons, List.forall₂_cons, List.forall_mem_cons, ih]
      tauto

end PhraseStructure.Source
