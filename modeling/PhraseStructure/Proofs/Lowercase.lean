import PhraseStructure.Proofs.Source.Format
import PhraseStructure.Text.Lowercase
import PhraseStructure.Text.WordChar

/-! What small letters keep.  The small form of a word character is made of word characters, and
each of them is its own small form.  For the tables this is a question about runs of capitals: the
small letters of a run have to lie in one range of the word characters, and apart from the capitals
of all runs.  So a word in small letters is a word, and writing it in small letters again changes
nothing. -/

namespace PhraseStructure.Text

/-! ### The tables

The tables are compared run by run and not letter by letter, by the comparisons of numbers that take
the fewest steps to evaluate. -/

/-- Whether one range of the word characters above U+007F holds all code points from `first` to
`last`. -/
def wordsFromTo (first last : Nat) : Bool :=
  wideWordChars.ranges.any fun range => Nat.ble range.1 first && Nat.ble last range.2

namespace CapitalRun

/-- The code point of the last small letter. -/
def lastSmall (run : CapitalRun) : Nat := run.small + (run.last - run.first)

/-- Whether the small letters of the first run lie apart from the capitals of the second: in front
of them, behind them, or each of them between two of them. -/
def apart (run other : CapitalRun) : Bool :=
  Nat.blt run.lastSmall other.first || Nat.blt other.last run.small ||
    (Nat.beq other.stride 2 && (Nat.beq run.stride 2 || Nat.beq run.first run.last) &&
      Nat.beq ((run.small + other.first) % 2) 1)

/-- Whether the small letters of the run are word characters, one by one if they do not lie in the
same range, those aside whose capital is none. -/
def keepsWords (run : CapitalRun) : Bool :=
  wordsFromTo run.small run.lastSmall ||
    (List.range (run.last - run.first + 1)).all fun distance =>
      !Nat.beq (distance % run.stride) 0 ||
        !wordsFromTo (run.first + distance) (run.first + distance) ||
        wordsFromTo (run.small + distance) (run.small + distance)

/-- Whether the small letters of the run are characters above U+007F, none of them U+0130. -/
def isWide (run : CapitalRun) : Bool :=
  (Nat.ble 0x80 run.small && Nat.blt run.lastSmall 0x130) ||
    (Nat.blt 0x130 run.small && Nat.blt run.lastSmall 0xD800) ||
    (Nat.blt 0xDFFF run.small && Nat.blt run.lastSmall 0x110000)

/-- Whether the run is the Kelvin sign, whose small letter is the letter k. -/
def isKelvin (run : CapitalRun) : Bool := Nat.beq run.small 0x6B && Nat.beq run.first run.last

end CapitalRun

theorem all_apart : wideCapitals.all fun run => wideCapitals.all run.apart := by decide +kernel

theorem all_isWide : wideCapitals.all fun run => run.isKelvin || run.isWide && run.keepsWords := by
  decide +kernel

variable {run other : CapitalRun} {code small first last : Nat} {c d : Char}

theorem contains_of_wordsFromTo (h : wordsFromTo first last) (hfirst : first ≤ c.toNat)
    (hlast : c.toNat ≤ last) : wideWordChars.contains c := by
  obtain ⟨range, hrange, hbounds⟩ := List.any_eq_true.mp h
  rw [Bool.and_eq_true, Nat.ble_eq, Nat.ble_eq] at hbounds
  exact CharClass.contains_iff.mpr ⟨range, hrange, by omega, by omega⟩

theorem wordsFromTo_of_contains (h : wideWordChars.contains c) :
    wordsFromTo c.toNat c.toNat := by
  obtain ⟨range, hrange, hbounds⟩ := CharClass.contains_iff.mp h
  refine List.any_eq_true.mpr ⟨range, hrange, ?_⟩
  rwa [Bool.and_eq_true, Nat.ble_eq, Nat.ble_eq]

theorem isWordChar_wide (h : 0x80 ≤ c.toNat) : isWordChar c = wideWordChars.contains c := by
  rw [isWordChar, if_neg (by omega)]

namespace CapitalRun

theorem small?_eq_some : run.small? code = some small ↔
    run.first ≤ code ∧ code ≤ run.last ∧ (code - run.first) % run.stride = 0 ∧
      small = run.small + (code - run.first) := by
  unfold small?
  split
  · next h =>
    rw [Option.some.injEq]
    grind
  · next h =>
    simp only [reduceCtorEq, false_iff]
    grind

theorem small?_eq_none_of_apart (h : run.apart other) (hsmall : run.small? code = some small) :
    other.small? small = none := by
  obtain ⟨hfirst, hlast, hstride, rfl⟩ := small?_eq_some.mp hsmall
  rw [Option.eq_none_iff_forall_ne_some]
  intro again hagain
  obtain ⟨hfirst', hlast', hstride', -⟩ := small?_eq_some.mp hagain
  simp only [apart, lastSmall, Bool.or_eq_true, Bool.and_eq_true, Nat.blt_eq, Nat.beq_eq] at h
  rcases h with (hbefore | hbehind) | ⟨⟨htwo, hbetween⟩, hodd⟩
  · omega
  · omega
  · rw [htwo] at hstride'
    rcases hbetween with htwo' | hone
    · rw [htwo'] at hstride
      omega
    · omega

theorem toNat_of_isWide (h : run.isWide) (hsmall : run.small? code = some small) :
    (Char.ofNat small).toNat = small ∧ 0x80 ≤ small ∧ small ≠ 0x130 := by
  obtain ⟨-, hlast, -, rfl⟩ := small?_eq_some.mp hsmall
  simp only [isWide, lastSmall, Bool.or_eq_true, Bool.and_eq_true, Nat.blt_eq, Nat.ble_eq] at h
  have hvalid : (run.small + (code - run.first)).isValidChar := by
    unfold Nat.isValidChar
    omega
  refine ⟨?_, by omega, by omega⟩
  rw [Char.ofNat, dif_pos hvalid]
  rfl

theorem contains_small (h : run.keepsWords) (hsmall : run.small? c.toNat = some small)
    (hd : d.toNat = small) (hc : wideWordChars.contains c) : wideWordChars.contains d := by
  obtain ⟨hfirst, hlast, hstride, rfl⟩ := small?_eq_some.mp hsmall
  rw [keepsWords, Bool.or_eq_true, List.all_eq_true] at h
  rcases h with hrange | hall
  · exact contains_of_wordsFromTo hrange (by omega) (by rw [lastSmall]; omega)
  · have hdistance := hall (c.toNat - run.first) (List.mem_range.mpr (by omega))
    have hcapital : run.first + (c.toNat - run.first) = c.toNat := by omega
    rw [hcapital, wordsFromTo_of_contains hc, hstride] at hdistance
    exact contains_of_wordsFromTo (by simpa using hdistance) (by omega) (by omega)

end CapitalRun

/-! ### Small forms -/

/-- A word character that is written the same in small letters. -/
def IsSmallWordChar (c : Char) : Prop := isWordChar c ∧ smallForm c = [c]

instance : DecidablePred IsSmallWordChar := fun c =>
  inferInstanceAs (Decidable (isWordChar c ∧ smallForm c = [c]))

theorem smallForm_wide (hwide : 0x80 ≤ c.toNat) (hdot : c ≠ '\u0130') :
    smallForm c = match wideCapitals.findSome? (·.small? c.toNat) with
      | some code => [Char.ofNat code]
      | none => [c] := by
  have hnarrow : ¬c.toNat < 0x80 := by omega
  exact (if_neg hnarrow).trans (if_neg hdot)

/-- The small letter of a capital is no capital. -/
theorem isSmallWordChar_of_small? (hrun : run ∈ wideCapitals) (hc : wideWordChars.contains c)
    (hsmall : run.small? c.toNat = some small) : IsSmallWordChar (Char.ofNat small) := by
  have hall := List.all_eq_true.mp all_isWide run hrun
  rw [Bool.or_eq_true, Bool.and_eq_true] at hall
  rcases hall with hkelvin | ⟨hwide, hkeeps⟩
  · obtain ⟨hfirst, hlast, -, rfl⟩ := CapitalRun.small?_eq_some.mp hsmall
    simp only [CapitalRun.isKelvin, Bool.and_eq_true, Nat.beq_eq] at hkelvin
    have hk : run.small + (c.toNat - run.first) = 0x6B := by omega
    rw [hk]
    decide
  · obtain ⟨hcode, hge, hdot⟩ := CapitalRun.toNat_of_isWide hwide hsmall
    have hge' : 0x80 ≤ (Char.ofNat small).toNat := by omega
    have hne : Char.ofNat small ≠ '\u0130' := by
      intro h
      rw [h] at hcode
      exact hdot hcode.symm
    have hnone : wideCapitals.findSome? (·.small? (Char.ofNat small).toNat) = none := by
      rw [hcode, List.findSome?_eq_none_iff]
      intro other hother
      have hapart := List.all_eq_true.mp all_apart run hrun
      exact CapitalRun.small?_eq_none_of_apart (List.all_eq_true.mp hapart other hother) hsmall
    refine ⟨?_, ?_⟩
    · rw [isWordChar_wide hge']
      exact CapitalRun.contains_small hkeeps hsmall hcode hc
    · rw [smallForm_wide hge' hne, hnone]

theorem isSmallWordChar_of_lt {code : Nat} (h : code < 0x80) (hc : isWordChar (Char.ofNat code)) :
    ∀ d ∈ smallForm (Char.ofNat code), IsSmallWordChar d := by
  -- The inner test runs over the list: a quantifier over characters would try all of them.
  have hall : ∀ code < 0x80, isWordChar (Char.ofNat code) →
      (smallForm (Char.ofNat code)).all (IsSmallWordChar ·) := by decide +kernel
  exact fun d hd => of_decide_eq_true (List.all_eq_true.mp (hall code h hc) d hd)

/-- The small form of a word character is made of word characters that are their own small forms.
The capital sigma has two small forms and is no exception. -/
theorem isSmallWordChar_of_mem_smallForm (hc : isWordChar c) (hd : d ∈ smallForm c) :
    IsSmallWordChar d := by
  by_cases hwide : c.toNat < 0x80
  · rw [← Char.ofNat_toNat c] at hc hd
    exact isSmallWordChar_of_lt hwide hc d hd
  · have hge : 0x80 ≤ c.toNat := by omega
    by_cases hdot : c = '\u0130'
    · subst hdot
      have hforms : (smallForm '\u0130').all (IsSmallWordChar ·) := by decide +kernel
      exact of_decide_eq_true (List.all_eq_true.mp hforms d hd)
    · rw [smallForm_wide hge hdot] at hd
      cases hfind : wideCapitals.findSome? (·.small? c.toNat) with
      | none =>
        rw [hfind] at hd
        obtain rfl := List.mem_singleton.mp hd
        refine ⟨hc, ?_⟩
        rw [smallForm_wide hge hdot, hfind]
      | some small =>
        rw [hfind] at hd
        obtain rfl := List.mem_singleton.mp hd
        obtain ⟨run, hrun, hsmall⟩ := List.exists_of_findSome?_eq_some hfind
        rw [isWordChar_wide hge] at hc
        exact isSmallWordChar_of_small? hrun hc hsmall

/-! ### Words in small letters -/

variable {before word : List Char}

theorem isSmallWordChar_of_mem_lowercaseAfter (h : ∀ c ∈ word, isWordChar c) :
    ∀ d ∈ lowercaseAfter before word, IsSmallWordChar d := by
  induction word generalizing before with
  | nil => simp [lowercaseAfter]
  | cons c rest ih =>
    obtain ⟨hc, hrest⟩ := List.forall_mem_cons.mp h
    rw [lowercaseAfter]
    refine List.forall_mem_append.mpr ⟨fun d hd => ?_, ih hrest⟩
    split at hd
    · have hsigmas : IsSmallWordChar '\u03C2' ∧ IsSmallWordChar '\u03C3' := by decide +kernel
      rw [List.mem_singleton.mp hd]
      split
      · exact hsigmas.1
      · exact hsigmas.2
    · exact isSmallWordChar_of_mem_smallForm hc hd

/-- Small letters stay what they are, wherever they stand. -/
theorem lowercaseAfter_of_small (h : ∀ c ∈ word, smallForm c = [c]) :
    lowercaseAfter before word = word := by
  induction word generalizing before with
  | nil => rfl
  | cons c rest ih =>
    obtain ⟨hc, hrest⟩ := List.forall_mem_cons.mp h
    have hsigma : c ≠ '\u03A3' := by
      rintro rfl
      revert hc
      decide +kernel
    rw [lowercaseAfter, if_neg hsigma, hc, ih hrest]
    rfl

/-- A word that a capital or small letter from a to z begins, begins with the small one. -/
theorem lowercase_cons_of_isAlpha (hc : c.isAlpha) (rest : List Char) :
    ∃ d, 'a' ≤ d ∧ d ≤ 'z' ∧ lowercase (c :: rest) = d :: lowercaseAfter [c] rest := by
  have hletters : ∀ code < 0x80, (Char.ofNat code).isAlpha →
      'a' ≤ (Char.ofNat code).toLower ∧ (Char.ofNat code).toLower ≤ 'z' := by decide +kernel
  have hcode := (Source.isAlpha_iff.mp hc).toNat_lt
  have hsigma : c ≠ '\u03A3' := by
    rintro rfl
    exact absurd hcode (by decide)
  have hlower := hletters c.toNat hcode
  rw [Char.ofNat_toNat] at hlower
  obtain ⟨hfirst, hlast⟩ := hlower hc
  refine ⟨c.toLower, hfirst, hlast, ?_⟩
  rw [lowercase, lowercaseAfter, if_neg hsigma, smallForm, if_pos hcode]
  rfl

end PhraseStructure.Text
