import PhraseStructure.Proofs.Derivation

/-! The nonterminals that can be expected at a position of a sentence.  A rule that begins somewhere
leads to each nonterminal of its right-hand side, at the positions up to which the symbols before it
can derive the words.  `expected_iff_derives`: the nonterminals to which the start symbol leads are
those that stand first after words in what it derives. -/

namespace PhraseStructure

open Relation

/-- Some rule for the first name that begins at its position comes to the second name at the
position of that. -/
def Leads (rules : List Rule) (words : List String) (upper lower : String × Nat) : Prop :=
  ∃ rule ∈ rules, rule.lhs = upper.1 ∧ ∃ before after,
    rule.rhs = before ++ .nonterminal lower.1 :: after ∧
      Spans rules words before upper.2 lower.2

/-- The name can be expected at the position when the sentence is to begin with `start`. -/
def Expected (rules : List Rule) (words : List String) (start name : String) (k : Nat) : Prop :=
  ReflTransGen (Leads rules words) (start, 0) (name, k)

/-- An element of two lists in a row stands in the first or in the second. -/
theorem split_append_cons {α : Type} {xs ys before after : List α} {x : α}
    (h : xs ++ ys = before ++ x :: after) :
    (∃ rest, xs = before ++ x :: rest ∧ after = rest ++ ys) ∨
      ∃ rest, before = xs ++ rest ∧ ys = rest ++ x :: after := by
  induction xs generalizing before with
  | nil => exact .inr ⟨before, rfl, h⟩
  | cons y xs ih =>
    cases before with
    | nil =>
      obtain ⟨rfl, rfl⟩ := List.cons.inj h
      exact .inl ⟨xs, rfl, rfl⟩
    | cons z before =>
      obtain ⟨rfl, htail⟩ := List.cons.inj h
      rcases ih htail with ⟨rest, rfl, rfl⟩ | ⟨rest, rfl, rfl⟩
      · exact .inl ⟨rest, rfl, rfl⟩
      · exact .inr ⟨rest, rfl, rfl⟩

section Expected

variable {rules : List Rule} {words : List String} {start name : String} {i j k : Nat}

theorem expected_start : Expected rules words start start 0 := ReflTransGen.refl

theorem Expected.next (h : Expected rules words start name i) {rule : Rule} (hr : rule ∈ rules)
    (hlhs : rule.lhs = name) {before after : List Symbol} {lower : String}
    (hrhs : rule.rhs = before ++ .nonterminal lower :: after)
    (hspan : Spans rules words before i j) : Expected rules words start lower j :=
  ReflTransGen.tail h ⟨rule, hr, hlhs, before, after, hrhs, hspan⟩

theorem le_length_of_leads {upper lower : String × Nat}
    (h : ReflTransGen (Leads rules words) upper lower) (hle : upper.2 ≤ words.length) :
    lower.2 ≤ words.length := by
  induction h with
  | refl => exact hle
  | tail _ hlead ih =>
    obtain ⟨_, _, _, _, _, _, hspan⟩ := hlead
    exact hspan.le_length ih

theorem Expected.le_length (h : Expected rules words start name k) : k ≤ words.length :=
  le_length_of_leads h (Nat.zero_le _)

/-- What leads to a name derives the words up to it and then the name. -/
theorem exists_derives_of_leads {upper lower : String × Nat}
    (h : ReflTransGen (Leads rules words) upper lower) :
    upper.2 ≤ lower.2 ∧ ∃ after, Derives rules [.nonterminal upper.1]
      (sentence (words.extract upper.2 lower.2) ++ .nonterminal lower.1 :: after) := by
  induction h with
  | refl => exact ⟨Nat.le_refl _, [], by rw [extract_self]; exact Derives.refl _⟩
  | @tail middle lower _ hlead ih =>
    obtain ⟨hle, rest, hd⟩ := ih
    obtain ⟨rule, hr, hlhs, before, after, hrhs, hspan⟩ := hlead
    refine ⟨Nat.le_trans hle hspan.le, after ++ rest, hd.trans ?_⟩
    have hexpand := (derives_rule hr).append (sentence (words.extract upper.2 middle.2)) rest
    have hbefore := hspan.derives.append (sentence (words.extract upper.2 middle.2))
      (.nonterminal lower.1 :: after ++ rest)
    rw [hlhs, hrhs] at hexpand
    rw [← extract_append hle hspan.le, sentence_append]
    simp only [List.append_assoc, List.cons_append, List.nil_append] at hexpand hbefore ⊢
    exact hexpand.trans hbefore

/-- In a list of symbols that derives words and then a name, some nonterminal leads to this name,
and the symbols before it derive words. -/
theorem exists_leads_of_derives {xs after : List Symbol} (hij : i ≤ j) (hj : j ≤ words.length)
    (h : Derives rules xs (sentence (words.extract i j) ++ .nonterminal name :: after)) :
    ∃ before upper rest k, xs = before ++ .nonterminal upper :: rest ∧
      Spans rules words before i k ∧ ReflTransGen (Leads rules words) (upper, k) (name, j) := by
  induction h using ReflTransGen.head_induction_on with
  | refl =>
    exact ⟨_, name, after, j, rfl, spans_sentence_extract hij hj, ReflTransGen.refl⟩
  | head hstep _ ih =>
    obtain ⟨left, rule, right, hr, rfl, rfl⟩ := hstep
    obtain ⟨before, upper, rest, k, heq, hspan, hleads⟩ := ih
    -- The nonterminal found after the step stands in `left`, in the new symbols or in `right`.
    rw [List.append_assoc] at heq
    rcases split_append_cons heq with ⟨inner, rfl, -⟩ | ⟨inner, rfl, hinner⟩
    · refine ⟨before, upper, inner ++ .nonterminal rule.lhs :: right, k, ?_, hspan, hleads⟩
      rw [List.append_assoc, List.cons_append]
    obtain ⟨m, hleft, hspan⟩ := spans_append.mp hspan
    rcases split_append_cons hinner with ⟨more, hrhs, -⟩ | ⟨more, rfl, rfl⟩
    · exact ⟨left, rule.lhs, right, m, rfl, hleft,
        ReflTransGen.head ⟨rule, hr, rfl, inner, more, hrhs, hspan⟩ hleads⟩
    · obtain ⟨n, hrhs, hspan⟩ := spans_append.mp hspan
      refine ⟨left ++ .nonterminal rule.lhs :: more, upper, rest, k, ?_, ?_, hleads⟩
      · rw [List.append_assoc, List.cons_append]
      · exact hleft.append (.nonterminal hr hrhs hspan)

/-- A name can be expected exactly where it stands first after words in what the start symbol
derives. -/
theorem expected_iff_derives :
    Expected rules words start name k ↔
      k ≤ words.length ∧ ∃ after, Derives rules [.nonterminal start]
        (sentence (words.take k) ++ .nonterminal name :: after) := by
  have htake : words.extract 0 k = words.take k := by simp
  constructor
  · intro h
    obtain ⟨-, hd⟩ := exists_derives_of_leads h
    rw [htake] at hd
    exact ⟨h.le_length, hd⟩
  · rintro ⟨hk, after, hd⟩
    rw [← htake] at hd
    obtain ⟨before, upper, rest, m, heq, hspan, hleads⟩ :=
      exists_leads_of_derives (Nat.zero_le k) hk hd
    obtain ⟨rfl, hupper⟩ : before = [] ∧ upper = start := by
      cases before with
      | nil => exact ⟨rfl, by simpa using (List.cons.inj heq).1.symm⟩
      | cons => simp at heq
    rw [hupper, ← spans_nil.mp hspan] at hleads
    exact hleads

end Expected

end PhraseStructure
