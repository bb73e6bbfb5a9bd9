import PhraseStructure.Proofs.Source.Print

/-! Blanks in the lines that give rules.  A blank in a quoted word or in a comment is part of it.
Every other one only separates, and a line says the same without it, unless it keeps two tokens
apart that would run together.  That happens in two places: between two names, and between the
left-hand side and the arrow, whose hyphen the name would take.  So `A ->r` means what `A -> r`
means, while `A->r` has no arrow. -/

namespace PhraseStructure.Source

/-! ### Lines without blanks -/

/-- Where in a line one stands: between two tokens, the last of which is a name or is none, or in a
quoted word, or in a comment. -/
inductive Setting where
  | between (afterName : Bool)
  | word (quote : Char)
  | comment
deriving DecidableEq

/-- Where one stands after a further character.  A name stays the last token until the next one. -/
def Setting.next : Setting → Char → Setting
  | between afterName, c =>
    if c = ' ' ∨ c = '\t' then between afterName
    else if c = '#' then comment
    else if c = '"' ∨ c = '\'' then word c
    else between (ContinuesName c)
  | word quote, c => if c = quote then between false else word quote
  | comment, _ => comment

/-- Whether a blank in front of `rest` can go: it stands between two tokens, and not between a name
and a token that begins with a character that `keeps` has. -/
def Setting.isLoose (keeps : Char → Bool) (rest : List Char) : Setting → Bool
  | between afterName => !(afterName && (rest.dropWhile isBlank).head?.any keeps)
  | word _ | comment => false

/-- The line without the blanks that can go. -/
def tighten (keeps : Char → Bool) : Setting → List Char → List Char
  | _, [] => []
  | setting, c :: rest =>
    if (c = ' ' ∨ c = '\t') ∧ setting.isLoose keeps rest then
      tighten keeps setting rest
    else
      c :: tighten keeps (setting.next c) rest

/-- No blank in the text can go. -/
def IsTight (keeps : Char → Bool) : Setting → List Char → Prop
  | _, [] => True
  | setting, c :: rest =>
    ¬((c = ' ' ∨ c = '\t') ∧ setting.isLoose keeps rest) ∧ IsTight keeps (setting.next c) rest

/-- The line without the blanks outside words and comments, those between two names apart. -/
def dropBlanks : List Char → List Char := tighten (BeginsName ·) (.between false)

/-- A name, or the arrow, begins with the character. -/
def beginsNameOrArrow (c : Char) : Bool := BeginsName c ∨ c = '-'

/-- The line without the blanks outside words and comments, those between two names and those
between a name and the arrow apart. -/
def dropLooseBlanks : List Char → List Char := tighten beginsNameOrArrow (.between false)

/-- The hyphen of the arrow goes to the left-hand side when no blank keeps it away. -/
theorem not_readLine_dropBlanks :
    dropBlanks "A -> r".toList = "A->r".toList ∧
    readLine "A -> r".toList = .ok (.rules [⟨"A", [.nonterminal "r"]⟩]) ∧
    readLine "A->r".toList = .error (.missingArrow ">r") ∧
    ¬(∀ line rules, readLine line = .ok (.rules rules) →
      readLine (dropBlanks line) = .ok (.rules rules)) ∧
    ¬∀ name right : String, IsName name →
      readLine (name ++ "->" ++ right).toList = readLine (name ++ " -> " ++ right).toList := by
  have hdrop : dropBlanks "A -> r".toList = "A->r".toList := by decide +kernel
  have hspaced : readLine "A -> r".toList = .ok (.rules [⟨"A", [.nonterminal "r"]⟩]) := by
    decide +kernel
  have hjoined : readLine "A->r".toList = .error (.missingArrow ">r") := by decide +kernel
  refine ⟨hdrop, hspaced, hjoined, fun h => ?_, fun h => ?_⟩
  · have := h _ _ hspaced
    rw [hdrop, hjoined] at this
    simp at this
  · have := h "A" "r" (by decide)
    rw [show ("A" ++ "->" ++ "r").toList = "A->r".toList by decide +kernel, hjoined,
      show ("A" ++ " -> " ++ "r").toList = "A -> r".toList by decide +kernel, hspaced] at this
    simp at this

/-! ### What stays where it is -/

section Tighten

variable {keeps : Char → Bool} {cs rest before name word : List Char} {c quote : Char}
  {named : Bool}

theorem tighten_comment (cs : List Char) : tighten keeps .comment cs = cs := by
  induction cs with
  | nil => rfl
  | cons c cs ih =>
    rw [tighten, if_neg (by simp [Setting.isLoose])]
    exact congrArg (c :: ·) ih

theorem tighten_word (h : quote ∉ word) (cs : List Char) :
    tighten keeps (.word quote) (word ++ quote :: cs) =
      word ++ quote :: tighten keeps (.between false) cs := by
  induction word with
  | nil =>
    rw [List.nil_append, tighten, if_neg (by simp [Setting.isLoose]), Setting.next, if_pos rfl]
    rfl
  | cons c word ih =>
    obtain ⟨hc, hword⟩ := not_or.mp (List.mem_cons.not.mp h)
    rw [List.cons_append, tighten, if_neg (by simp [Setting.isLoose]), Setting.next,
      if_neg (Ne.symm hc), ih hword]
    rfl

/-- A character between two tokens that is no blank stays. -/
theorem tighten_between (hc : ¬(c = ' ' ∨ c = '\t')) (cs : List Char) :
    tighten keeps (.between named) (c :: cs) =
      c :: tighten keeps ((Setting.between named).next c) cs := by
  rw [tighten, if_neg fun h => hc h.1]

theorem tighten_endOfLine (h : EndOfLine rest) : tighten keeps (.between named) rest = rest := by
  rcases h with rfl | ⟨comment, rfl⟩
  · rfl
  · rw [tighten_between (by decide)]
    exact congrArg _ (tighten_comment comment)

theorem tighten_quoted (hquote : quote = '"' ∨ quote = '\'') (hword : quote ∉ word)
    (cs : List Char) : tighten keeps (.between named) (quote :: (word ++ quote :: cs)) =
      quote :: (word ++ quote :: tighten keeps (.between false) cs) := by
  have hnext : (Setting.between named).next quote = .word quote := by
    rcases hquote with rfl | rfl <;> rfl
  rw [tighten_between (by rcases hquote with rfl | rfl <;> decide), hnext, tighten_word hword]

theorem ContinuesName.ne {d : Char} (h : ContinuesName c) (hd : ¬ContinuesName d) : c ≠ d := by
  rintro rfl
  exact hd h

theorem ContinuesName.not_blank (h : ContinuesName c) : ¬(c = ' ' ∨ c = '\t') :=
  not_or.mpr ⟨h.ne (by decide), h.ne (by decide)⟩

theorem ContinuesName.next (h : ContinuesName c) :
    (Setting.between named).next c = .between true := by
  have hquote : ¬(c = '"' ∨ c = '\'') := not_or.mpr ⟨h.ne (by decide), h.ne (by decide)⟩
  rw [Setting.next, if_neg h.not_blank, if_neg (h.ne (by decide)), if_neg hquote,
    decide_eq_true h]

theorem tighten_name (hne : name ≠ []) (h : ∀ c ∈ name, ContinuesName c) (cs : List Char) :
    tighten keeps (.between named) (name ++ cs) = name ++ tighten keeps (.between true) cs := by
  induction name generalizing named with
  | nil => exact absurd rfl hne
  | cons c name ih =>
    obtain ⟨hc, hname⟩ := List.forall_mem_cons.mp h
    rw [List.cons_append, tighten_between hc.not_blank, hc.next]
    by_cases hnil : name = []
    · rw [hnil]
      rfl
    · rw [ih hnil hname]
      rfl

theorem tighten_arrow (cs : List Char) : tighten keeps (.between named) ('-' :: '>' :: cs) =
    '-' :: '>' :: tighten keeps (.between false) cs := by
  have hhyphen : ContinuesName '-' := by decide
  rw [tighten_between (by decide), hhyphen.next, tighten_between (by decide)]
  rfl

/-! ### What becomes of blanks -/

/-- Blanks between two tokens become fewer. -/
theorem exists_tighten_blanks (h : Blanks before) (cs : List Char) : ∃ kept, Blanks kept ∧
    tighten keeps (.between named) (before ++ cs) =
      kept ++ tighten keeps (.between named) cs := by
  induction before with
  | nil => exact ⟨[], by simp [Blanks], rfl⟩
  | cons c before ih =>
    obtain ⟨hc, hbefore⟩ := List.forall_mem_cons.mp h
    obtain ⟨kept, hkept, heq⟩ := ih hbefore
    rw [List.cons_append, tighten]
    split
    · exact ⟨kept, hkept, heq⟩
    · refine ⟨c :: kept, List.forall_mem_cons.mpr ⟨hc, hkept⟩, ?_⟩
      rw [Setting.next, if_pos hc, heq]
      rfl

theorem dropWhile_isBlank_append (h : Blanks before) (cs : List Char) :
    (before ++ cs).dropWhile isBlank = cs.dropWhile isBlank :=
  List.dropWhile_append_of_pos fun c hc => isBlank_iff.mpr (h c hc)

/-- Blanks that no name and no character in `keeps` have on their two sides go. -/
theorem tighten_blanks_of_not (h : Blanks before)
    (hkeeps : named = true → ∀ c ∈ (cs.dropWhile isBlank).head?, keeps c = false) :
    tighten keeps (.between named) (before ++ cs) = tighten keeps (.between named) cs := by
  induction before with
  | nil => rfl
  | cons c before ih =>
    obtain ⟨hc, hbefore⟩ := List.forall_mem_cons.mp h
    have hloose : (Setting.between named).isLoose keeps (before ++ cs) := by
      rw [Setting.isLoose, dropWhile_isBlank_append hbefore]
      cases named with
      | false => rfl
      | true =>
        cases hd : (cs.dropWhile isBlank).head? with
        | none => rfl
        | some d => simp [hkeeps rfl d hd]
    rw [List.cons_append, tighten, if_pos ⟨hc, hloose⟩, ih hbefore]

/-- Blanks between a name and a character in `keeps` stay. -/
theorem tighten_blanks_of_keeps (h : Blanks before) (hc : ¬(c = ' ' ∨ c = '\t')) (hk : keeps c)
    (cs : List Char) : tighten keeps (.between true) (before ++ c :: cs) =
      before ++ tighten keeps (.between true) (c :: cs) := by
  induction before with
  | nil => rfl
  | cons d before ih =>
    obtain ⟨hd, hbefore⟩ := List.forall_mem_cons.mp h
    have hloose : ¬(Setting.between true).isLoose keeps (before ++ c :: cs) := by
      rw [Setting.isLoose, dropWhile_isBlank_append hbefore,
        List.dropWhile_cons_of_neg (isBlank_iff.not.mpr hc)]
      simp [hk]
    rw [List.cons_append, tighten, if_neg fun h => hloose h.2, Setting.next, if_pos hd,
      ih hbefore]
    rfl

theorem head?_dropWhile_tighten (cs : List Char) :
    ((tighten keeps (.between named) cs).dropWhile isBlank).head? =
      (cs.dropWhile isBlank).head? := by
  obtain ⟨before, rest, rfl, hbefore, hrest⟩ := exists_blanks cs
  obtain ⟨kept, hkept, heq⟩ := @exists_tighten_blanks keeps before named hbefore rest
  rw [heq, dropWhile_isBlank_append hkept, dropWhile_isBlank_append hbefore]
  cases rest with
  | nil => rfl
  | cons c rest =>
    have hc := isBlank_iff.not.mpr (hrest c rfl)
    rw [tighten_between (hrest c rfl), List.dropWhile_cons_of_neg hc,
      List.dropWhile_cons_of_neg hc]
    rfl

/-- All blanks that can go are gone. -/
theorem isTight_tighten (keeps : Char → Bool) (setting : Setting) (cs : List Char) :
    IsTight keeps setting (tighten keeps setting cs) := by
  induction cs generalizing setting with
  | nil => trivial
  | cons c cs ih =>
    rw [tighten]
    split
    · exact ih setting
    · next hstays =>
      refine ⟨?_, ih _⟩
      rintro ⟨hc, hloose⟩
      cases setting with
      | between named =>
        rw [Setting.next, if_pos hc, Setting.isLoose, head?_dropWhile_tighten] at hloose
        exact hstays ⟨hc, hloose⟩
      | word quote => simp [Setting.isLoose] at hloose
      | comment => simp [Setting.isLoose] at hloose

/-- Nothing but blanks goes. -/
theorem filter_tighten (keeps : Char → Bool) (setting : Setting) (cs : List Char) :
    (tighten keeps setting cs).filter (!isBlank ·) = cs.filter (!isBlank ·) := by
  induction cs generalizing setting with
  | nil => rfl
  | cons c cs ih =>
    rw [tighten]
    split
    · next hgoes => rw [ih, List.filter_cons_of_neg (by simp [isBlank_iff.mpr hgoes.1])]
    · rw [List.filter_cons, List.filter_cons, ih]

end Tighten

/-! ### Lines say the same without loose blanks -/

section Loose

variable {cs rest more between name right line : List Char} {c : Char} {named : Bool}
  {token : Token} {ts : List Token} {rules : List Rule}

/-- A token begins neither with a digit nor with a hyphen. -/
theorem beginsName_of_takeToken (hc : ContinuesName c)
    (h : takeToken c rest = .ok (token, more)) : BeginsName c := by
  rcases takeToken_eq_ok h with ⟨rfl, -, -⟩ | ⟨word, hquote, -⟩ | ⟨name, hbefore, heq, -⟩
  · exact absurd hc (by decide)
  · exact absurd hquote (not_or.mpr ⟨hc.ne (by decide), hc.ne (by decide)⟩)
  · obtain ⟨d, front, rfl, hbegins⟩ := hbefore.begins
    obtain ⟨rfl, -⟩ := List.cons.inj heq
    exact hbegins

theorem beginsName_of_tokens (hc : ContinuesName c) (h : tokens (c :: rest) = .ok ts) :
    BeginsName c := by
  rw [tokens_eq, skipBlanks_cons hc.not_blank (hc.ne (by decide))] at h
  cases htake : takeToken c rest with
  | error e => simp [htake] at h
  | ok taken => exact beginsName_of_takeToken hc htake

/-- No name goes on with what is left behind it. -/
theorem not_continuesName_tighten (h : tokens cs = .ok ts)
    (hcs : ∀ c ∈ cs.head?, ¬ContinuesName c) :
    ∀ c ∈ (tighten beginsNameOrArrow (.between true) cs).head?, ¬ContinuesName c := by
  obtain ⟨before, rest, rfl, hbefore, hrest⟩ := exists_blanks cs
  cases rest with
  | nil =>
    rw [tighten_blanks_of_not hbefore (by simp)]
    simp [tighten]
  | cons d more =>
    have hblank := hrest d rfl
    have hstop : (d :: more).dropWhile isBlank = d :: more :=
      List.dropWhile_cons_of_neg (isBlank_iff.not.mpr hblank)
    cases hkeeps : beginsNameOrArrow d with
    | true =>
      -- The blanks stay, if there are any.
      rw [tighten_blanks_of_keeps hbefore hblank hkeeps, tighten_between hblank]
      cases before with
      | nil => exact hcs
      | cons b before =>
        rintro _ ⟨⟩ hcontinues
        exact hcontinues.not_blank (hbefore b List.mem_cons_self)
    | false =>
      -- They go, and the next token begins with no character that could go on with the name.
      rw [tighten_blanks_of_not hbefore (by simpa [hstop] using hkeeps), tighten_between hblank]
      rintro _ ⟨⟩ hcontinues
      rw [tokens_blanks hbefore] at h
      simp [beginsNameOrArrow, beginsName_of_tokens hcontinues h] at hkeeps

/-- The token in front of a text that is read as before is read as before. -/
theorem tokens_tighten_cons (htake : takeToken c rest = .ok (token, more))
    (hmore : tokens more = .ok ts)
    (ih : ∀ named, tokens (tighten beginsNameOrArrow (.between named) more) = .ok ts) :
    tokens (tighten beginsNameOrArrow (.between named) (c :: rest)) = .ok (token :: ts) := by
  rcases takeToken_eq_ok htake with ⟨rfl, rfl, rfl⟩ | ⟨word, hquote, hne, hmem, rfl, rfl⟩ |
    ⟨name, hbefore, heq, rfl⟩
  · rw [tighten_between (by decide), tokens_bar]
    exact map_eq_ok.mpr ⟨ts, ih _, rfl⟩
  · rw [tighten_quoted hquote hmem, tokens_word hquote hne hmem]
    exact map_eq_ok.mpr ⟨ts, ih _, rfl⟩
  · have hstays : NameBefore name (tighten beginsNameOrArrow (.between true) more) :=
      ⟨hbefore.begins, hbefore.continues, not_continuesName_tighten hmore hbefore.ends⟩
    rw [heq, tighten_name hbefore.ne_nil hbefore.continues, tokens_name hstays]
    exact map_eq_ok.mpr ⟨ts, ih _, rfl⟩

/-- The tokens of a right-hand side are the same without loose blanks. -/
theorem tokens_tighten (h : tokens cs = .ok ts) (named : Bool) :
    tokens (tighten beginsNameOrArrow (.between named) cs) = .ok ts := by
  -- Blanks in front of a token or of the line's end are skipped, however many are left of them.
  induction cs using tokens.induct generalizing ts named with
  | case1 cs hskip =>
    obtain ⟨before, rest, rfl, hbefore, hrest⟩ := skipBlanks_eq_nil.mp hskip
    obtain ⟨kept, hkept, heq⟩ := exists_tighten_blanks hbefore rest
    rw [heq, tokens_blanks hkept, tighten_endOfLine hrest, ← h, tokens_blanks hbefore]
  | case2 cs c rest hskip e htake =>
    rw [tokens_eq, hskip] at h
    simp [htake] at h
  | case3 cs c rest hskip token more htake ih =>
    obtain ⟨before, rfl, hbefore, hblank, hcomment⟩ := skipBlanks_eq_cons.mp hskip
    obtain ⟨kept, hkept, heq⟩ := exists_tighten_blanks hbefore (c :: rest)
    rw [tokens_blanks hbefore, tokens_of_takeToken_eq_ok hblank hcomment htake] at h
    obtain ⟨us, hmore, rfl⟩ := map_eq_ok.mp h
    rw [heq, tokens_blanks hkept]
    exact tokens_tighten_cons htake hmore (ih hmore)

/-- A name, an arrow and a right-hand side, without what is loose. -/
theorem dropLooseBlanks_rules {before : List Char} (hbefore : Blanks before)
    (hname : NameBefore name (between ++ "->".toList ++ right)) (hbetween : Blanks between) :
    dropLooseBlanks (before ++ name ++ between ++ "->".toList ++ right) =
      name ++ between ++ "->".toList ++ tighten beginsNameOrArrow (.between false) right := by
  simp only [List.append_assoc, dropLooseBlanks]
  rw [tighten_blanks_of_not hbefore (by simp), tighten_name hname.ne_nil hname.continues]
  refine congrArg _ ?_
  show tighten _ _ (between ++ '-' :: '>' :: right) = _
  rw [tighten_blanks_of_keeps hbetween (by decide) (by decide), tighten_arrow]
  rfl

theorem written_dropLooseBlanks (h : Written line (.rules rules)) :
    Written (dropLooseBlanks line) (.rules rules) := by
  cases h with
  | @rules before name between right alternatives hbefore hname hbetween hright =>
    obtain ⟨ts, htokens, hts⟩ := rightSide_iff.mp hright
    have hstays : NameBefore name (between ++ "->".toList ++
        tighten beginsNameOrArrow (.between false) right) :=
      ⟨hname.begins, hname.continues, by simpa [List.head?_append] using hname.ends⟩
    have hwritten := Written.rules blanks_nil hstays hbetween
      (rightSide_iff.mpr ⟨ts, tokens_tighten htokens false, hts⟩)
    rw [dropLooseBlanks_rules hbefore hname hbetween]
    simpa using hwritten

end Loose

/-! ### Arrows and texts -/

section Texts

variable {name between right : List Char} {lines others : List (List Char)}

/-- A line that begins with a name and an arrow is read as its right-hand side is. -/
theorem readLine_name_arrow (hname : NameBefore name (between ++ '-' :: '>' :: right))
    (hbetween : Blanks between) : readLine (name ++ (between ++ '-' :: '>' :: right)) =
      (tokens right).map fun ts => .rules ((alternatives ts).map (⟨String.ofList name, ·⟩)) := by
  have hline := readLine_name blanks_nil hname
  have htake := takeName?_eq_some.mpr ⟨name, rfl, rfl, hname⟩
  have harrow : skipBlanks (between ++ '-' :: '>' :: right) = '-' :: '>' :: right := by
    rw [skipBlanks_append hbetween]
    rfl
  rw [List.nil_append, readRules, htake] at hline
  dsimp only at hline
  rwa [harrow] at hline

/-- The blanks behind the arrow say nothing. -/
theorem readLine_blanks_after_arrow {name : String} (h : IsName name) (right : String) :
    readLine (name ++ " ->" ++ right).toList = readLine (name ++ " -> " ++ right).toList := by
  have hblank : Blanks [' '] := by simp [Blanks]
  have hname : ∀ right, NameBefore name.toList ([' '] ++ '-' :: '>' :: right) :=
    fun right => h.nameBefore (by simp; decide)
  have hread := fun right => readLine_name_arrow (hname right) hblank
  have hspaced := hread ([' '] ++ right.toList)
  rw [tokens_blanks hblank, ← hread] at hspaced
  simpa using hspaced.symm

/-- The name takes a hyphen that follows it, and no line goes on with what is left of the arrow. -/
theorem readLine_joined_arrow {name : String} (h : IsName name) (right : String) :
    readLine (name ++ "->" ++ right).toList = .error (.missingArrow (">" ++ right)) := by
  have hlonger : IsName (name ++ "-") := by
    obtain ⟨⟨c, hc, hbegins⟩, hcontinues⟩ := h
    refine ⟨⟨c, ?_, hbegins⟩, ?_⟩
    · simp [List.head?_append, Option.mem_def.mp hc]
    · simpa [or_imp, forall_and] using ⟨hcontinues, by decide⟩
  have hname : NameBefore (name ++ "-").toList ('>' :: right.toList) :=
    hlonger.nameBefore (by simp; decide)
  have hread := readLine_name blanks_nil hname
  rw [List.nil_append, readRules, takeName?_eq_some.mpr ⟨_, rfl, rfl, hname⟩] at hread
  dsimp only at hread
  rw [skipBlanks_cons (by decide) (by decide)] at hread
  simpa using hread

theorem readLines_congr
    (h : List.Forall₂ (fun line other => readLine line = readLine other) lines others)
    (number : Nat) : readLines number lines = readLines number others := by
  induction h generalizing number with
  | nil => rfl
  | cons hline _ ih => rw [readLines, readLines, hline, ih]

/-- The other line is the same, or the same rules without loose blanks. -/
def Tightens (line other : List Char) : Prop :=
  other = line ∨ (∃ rules, readLine line = .ok (.rules rules)) ∧ other = dropLooseBlanks line

theorem Tightens.readLine_eq {line other : List Char} (h : Tightens line other) :
    readLine line = readLine other := by
  rcases h with rfl | ⟨⟨rules, hread⟩, rfl⟩
  · rfl
  · rw [hread, readLine_eq_ok.mpr (written_dropLooseBlanks (readLine_eq_ok.mp hread))]

end Texts

/-- Blanks in a line that gives rules are optional, those in words and comments apart, unless they
stand between two names or between the left-hand side and the arrow.  Without all that can go, and
with everything else, the line gives the same rules, wherever in a text it stands.  So a blank
behind the arrow says nothing.  Without a blank in front of it there is no arrow, since the name
takes the hyphen. -/
theorem read_without_loose_blanks :
    (∀ line, IsTight beginsNameOrArrow (.between false) (dropLooseBlanks line) ∧
      (dropLooseBlanks line).filter (!isBlank ·) = line.filter (!isBlank ·)) ∧
    (∀ line rules, readLine line = .ok (.rules rules) →
      readLine (dropLooseBlanks line) = .ok (.rules rules)) ∧
    (∀ text other : String,
      List.Forall₂ Tightens (Text.lines text.toList) (Text.lines other.toList) →
        read other = read text) ∧
    ∀ name right : String, IsName name →
      readLine (name ++ " ->" ++ right).toList = readLine (name ++ " -> " ++ right).toList ∧
      readLine (name ++ "->" ++ right).toList = .error (.missingArrow (">" ++ right)) := by
  refine ⟨fun line => ⟨isTight_tighten _ _ line, filter_tighten _ _ line⟩,
    fun line rules h => ?_, fun text other h => ?_, fun name right h => ?_⟩
  · exact readLine_eq_ok.mpr (written_dropLooseBlanks (readLine_eq_ok.mp h))
  · exact (readLines_congr (h.imp fun _ _ => Tightens.readLine_eq) 1).symm
  · exact ⟨readLine_blanks_after_arrow h right, readLine_joined_arrow h right⟩

/-- A line with blanks of both kinds in every place that they can have. -/
def spacious : String := "\t NP  -> \tDet  N \t'a b' \"c\" | NP- \t\"# |\" N  |  # x  y"

/-- The same line with those that it needs. -/
def tight : String := "NP  ->Det  N'a b'\"c\"|NP-\"# |\"N|# x  y"

theorem read_without_loose_blanks_spacious : dropLooseBlanks spacious.toList = tight.toList ∧
    readLine spacious.toList = .ok (.rules [
      ⟨"NP", [.nonterminal "Det", .nonterminal "N", .terminal "a b", .terminal "c"]⟩,
      ⟨"NP", [.nonterminal "NP-", .terminal "# |", .nonterminal "N"]⟩, ⟨"NP", []⟩]) ∧
    readLine tight.toList = readLine spacious.toList ∧
    read ("%start  NP\n" ++ tight) = read ("%start  NP\n" ++ spacious) ∧ IsName "NP-" ∧
    readLine "NP- ->'x'".toList = readLine "NP- -> 'x'".toList := by
  obtain ⟨-, hline, htext, hname⟩ := read_without_loose_blanks
  have htight : dropLooseBlanks spacious.toList = tight.toList := by decide +kernel
  have hread : readLine spacious.toList = .ok (.rules [
      ⟨"NP", [.nonterminal "Det", .nonterminal "N", .terminal "a b", .terminal "c"]⟩,
      ⟨"NP", [.nonterminal "NP-", .terminal "# |", .nonterminal "N"]⟩, ⟨"NP", []⟩]) := by
    decide +kernel
  have hlines : Text.lines ("%start  NP\n" ++ spacious).toList =
      ["%start  NP".toList, spacious.toList] ∧
      Text.lines ("%start  NP\n" ++ tight).toList = ["%start  NP".toList, tight.toList] := by
    decide +kernel
  have hclose := (hname "NP-" "'x'" (by decide)).1
  refine ⟨htight, hread, ?_, htext _ _ ?_, by decide, by simpa using hclose⟩
  · rw [hread, ← htight]
    exact hline _ _ hread
  · rw [hlines.1, hlines.2]
    exact .cons (.inl rfl) (.cons (.inr ⟨⟨_, hread⟩, htight.symm⟩) .nil)

end PhraseStructure.Source
