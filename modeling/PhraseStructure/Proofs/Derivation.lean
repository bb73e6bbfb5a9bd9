import Mathlib.Logic.Relation
import PhraseStructure.Rule

/-! Derivations.  A step replaces one nonterminal in a list of symbols with the right-hand side of
one of its rules.  `Spans` says the same of a part of a sentence by recursion on the symbols, and
`spans_iff_derives` ties the two together. -/

namespace PhraseStructure

open Relation

/-- A step of a derivation: one nonterminal of `before` is replaced with the right-hand side of one
of its rules. -/
def Produces (rules : List Rule) (before after : List Symbol) : Prop :=
  ∃ left rule right, rule ∈ rules ∧ before = left ++ .nonterminal rule.lhs :: right ∧
    after = left ++ rule.rhs ++ right

/-- Any number of steps. -/
def Derives (rules : List Rule) : List Symbol → List Symbol → Prop := ReflTransGen (Produces rules)

/-- The words as symbols. -/
def sentence (words : List String) : List Symbol := words.map .terminal

section Derives

variable {rules : List Rule} {xs ys zs : List Symbol}

theorem Produces.append (h : Produces rules xs ys) (left right : List Symbol) :
    Produces rules (left ++ xs ++ right) (left ++ ys ++ right) := by
  obtain ⟨l, rule, r, hr, rfl, rfl⟩ := h
  exact ⟨left ++ l, rule, r ++ right, hr, by simp, by simp⟩

theorem Derives.refl (xs : List Symbol) : Derives rules xs xs := ReflTransGen.refl

theorem Derives.trans (h : Derives rules xs ys) (h' : Derives rules ys zs) : Derives rules xs zs :=
  ReflTransGen.trans h h'

theorem Derives.append (h : Derives rules xs ys) (left right : List Symbol) :
    Derives rules (left ++ xs ++ right) (left ++ ys ++ right) := by
  induction h with
  | refl => exact Derives.refl _
  | tail _ hstep ih => exact ReflTransGen.tail ih (hstep.append left right)

/-- Lists of symbols derive side by side. -/
theorem Derives.append_append {xs' ys' : List Symbol} (h : Derives rules xs ys)
    (h' : Derives rules xs' ys') : Derives rules (xs ++ xs') (ys ++ ys') := by
  have h1 := h.append [] xs'
  have h2 := h'.append ys []
  rw [List.nil_append, List.nil_append] at h1
  rw [List.append_nil, List.append_nil] at h2
  exact h1.trans h2

theorem produces_rule {rule : Rule} (h : rule ∈ rules) :
    Produces rules [.nonterminal rule.lhs] rule.rhs :=
  ⟨[], rule, [], h, rfl, by simp⟩

theorem derives_rule {rule : Rule} (h : rule ∈ rules) :
    Derives rules [.nonterminal rule.lhs] rule.rhs :=
  ReflTransGen.single (produces_rule h)

/-- A step from a name alone is one of its rules. -/
theorem produces_nonterminal {name : String} :
    Produces rules [.nonterminal name] ys ↔ ∃ rule ∈ rules, rule.lhs = name ∧ rule.rhs = ys := by
  constructor
  · rintro ⟨left, rule, right, hr, heq, rfl⟩
    cases left with
    | nil =>
      obtain ⟨hname, rfl⟩ := List.cons.inj heq
      exact ⟨rule, hr, (Symbol.nonterminal.inj hname).symm, by simp⟩
    | cons => simp at heq
  · rintro ⟨rule, hr, rfl, rfl⟩
    exact produces_rule hr

/-- A name that derives words has a rule. -/
theorem exists_rule_of_derives {name : String} {words : List String}
    (h : Derives rules [.nonterminal name] (sentence words)) : ∃ rule ∈ rules, rule.lhs = name := by
  rcases ReflTransGen.cases_head h with h | ⟨mid, hstep, -⟩
  · cases words <;> simp [sentence] at h
  · obtain ⟨rule, hr, hlhs, -⟩ := produces_nonterminal.mp hstep
    exact ⟨rule, hr, hlhs⟩

end Derives

/-! ### Parts of a sentence -/

section Extract

variable {words : List String} {i j k : Nat}

theorem extract_self : words.extract i i = [] := by simp

theorem extract_append (hij : i ≤ j) (hjk : j ≤ k) :
    words.extract i j ++ words.extract j k = words.extract i k := by
  rw [List.extract_eq_take_drop, List.extract_eq_take_drop, List.extract_eq_take_drop,
    show k - i = (j - i) + (k - j) by omega, List.take_add, List.drop_drop,
    show i + (j - i) = j by omega]

theorem extract_succ {word : String} (h : words[i]? = some word) :
    words.extract i (i + 1) = [word] := by
  obtain ⟨hi, rfl⟩ := List.getElem?_eq_some_iff.mp h
  rw [List.extract_eq_take_drop, List.drop_eq_getElem_cons hi, Nat.add_sub_cancel_left]
  rfl

theorem length_extract (hj : j ≤ words.length) : (words.extract i j).length = j - i := by
  rw [List.extract_eq_take_drop, List.length_take, List.length_drop]
  omega

theorem getElem?_extract_sub (hik : i ≤ k) (hkj : k < j) :
    (words.extract i j)[k - i]? = words[k]? := by
  rw [List.extract_eq_take_drop, List.getElem?_take_of_lt (by omega), List.getElem?_drop,
    show i + (k - i) = k by omega]

theorem mem_of_mem_extract {word : String} (h : word ∈ words.extract i j) : word ∈ words := by
  rw [List.extract_eq_take_drop] at h
  exact List.mem_of_mem_drop (List.mem_of_mem_take h)

end Extract

theorem sentence_append (us vs : List String) :
    sentence (us ++ vs) = sentence us ++ sentence vs := List.map_append

/-- The symbols derive the words from `start` on, up to `stop`. -/
inductive Spans (rules : List Rule) (words : List String) : List Symbol → Nat → Nat → Prop
  | nil {start : Nat} : Spans rules words [] start start
  | terminal {word : String} {rest : List Symbol} {start stop : Nat} :
      words[start]? = some word → Spans rules words rest (start + 1) stop →
      Spans rules words (.terminal word :: rest) start stop
  | nonterminal {rule : Rule} {rest : List Symbol} {start middle stop : Nat} :
      rule ∈ rules → Spans rules words rule.rhs start middle →
      Spans rules words rest middle stop →
      Spans rules words (.nonterminal rule.lhs :: rest) start stop

section Spans

variable {rules : List Rule} {words : List String} {xs ys : List Symbol} {i j k : Nat}

theorem Spans.le (h : Spans rules words xs i j) : i ≤ j := by
  induction h with
  | nil => exact Nat.le_refl _
  | terminal _ _ ih => omega
  | nonterminal _ _ _ ih1 ih2 => omega

theorem Spans.le_length (h : Spans rules words xs i j) (hi : i ≤ words.length) :
    j ≤ words.length := by
  induction h with
  | nil => exact hi
  | terminal hw _ ih =>
    have := (List.getElem?_eq_some_iff.mp hw).1
    exact ih (by omega)
  | nonterminal _ _ _ ih1 ih2 => exact ih2 (ih1 hi)

theorem Spans.append (h : Spans rules words xs i j) (h' : Spans rules words ys j k) :
    Spans rules words (xs ++ ys) i k := by
  induction h with
  | nil => exact h'
  | terminal hw _ ih => exact .terminal hw (ih h')
  | nonterminal hr hrhs _ _ ih => exact .nonterminal hr hrhs (ih h')

/-- What derives a part of the sentence can be cut anywhere. -/
theorem spans_append :
    Spans rules words (xs ++ ys) i k ↔
      ∃ j, Spans rules words xs i j ∧ Spans rules words ys j k := by
  constructor
  · intro h
    induction xs generalizing i with
    | nil => exact ⟨i, .nil, h⟩
    | cons x xs ih =>
      rw [List.cons_append] at h
      cases h with
      | terminal hw h =>
        obtain ⟨j, hxs, hys⟩ := ih h
        exact ⟨j, .terminal hw hxs, hys⟩
      | nonterminal hr hrhs h =>
        obtain ⟨j, hxs, hys⟩ := ih h
        exact ⟨j, .nonterminal hr hrhs hxs, hys⟩
  · rintro ⟨j, h, h'⟩
    exact h.append h'

theorem spans_nil : Spans rules words [] i j ↔ i = j := by
  constructor
  · rintro ⟨⟩
    rfl
  · rintro rfl
    exact .nil

theorem spans_terminal {word : String} :
    Spans rules words [.terminal word] i j ↔ words[i]? = some word ∧ j = i + 1 := by
  constructor
  · rintro (_ | ⟨hw, ⟨⟩⟩)
    exact ⟨hw, rfl⟩
  · rintro ⟨hw, rfl⟩
    exact .terminal hw .nil

theorem spans_nonterminal {name : String} :
    Spans rules words [.nonterminal name] i j ↔
      ∃ rule ∈ rules, rule.lhs = name ∧ Spans rules words rule.rhs i j := by
  constructor
  · rintro (_ | _ | ⟨hr, hrhs, ⟨⟩⟩)
    exact ⟨_, hr, rfl, hrhs⟩
  · rintro ⟨rule, hr, rfl, hrhs⟩
    exact .nonterminal hr hrhs .nil

/-- Symbols that derive a part of the sentence after a step do so before it. -/
theorem Spans.of_produces (h : Produces rules xs ys) (hys : Spans rules words ys i j) :
    Spans rules words xs i j := by
  obtain ⟨left, rule, right, hr, rfl, rfl⟩ := h
  obtain ⟨b, hb, hright⟩ := spans_append.mp hys
  obtain ⟨a, hleft, hrhs⟩ := spans_append.mp hb
  exact hleft.append (.nonterminal hr hrhs hright)

theorem Spans.of_derives (h : Derives rules xs ys) (hys : Spans rules words ys i j) :
    Spans rules words xs i j := by
  induction h using ReflTransGen.head_induction_on with
  | refl => exact hys
  | head hstep _ ih => exact Spans.of_produces hstep ih

theorem spans_sentence_extract (hij : i ≤ j) (hj : j ≤ words.length) :
    Spans rules words (sentence (words.extract i j)) i j := by
  induction hn : j - i generalizing i with
  | zero =>
    obtain rfl : i = j := by omega
    rw [extract_self]
    exact .nil
  | succ n ih =>
    have hi : i < words.length := by omega
    have hw : words[i]? = some words[i] := List.getElem?_eq_getElem hi
    rw [← extract_append (Nat.le_succ i) (show i + 1 ≤ j by omega), extract_succ hw]
    exact .terminal hw (ih (by omega) (by omega))

theorem Spans.derives (h : Spans rules words xs i j) :
    Derives rules xs (sentence (words.extract i j)) := by
  induction h with
  | nil =>
    rw [extract_self]
    exact Derives.refl _
  | @terminal word rest start stop hw hrest ih =>
    rw [← extract_append (Nat.le_succ start) hrest.le, sentence_append, extract_succ hw]
    exact (Derives.refl [.terminal word]).append_append ih
  | @nonterminal rule rest start middle stop hr hrhs hrest ih1 ih2 =>
    rw [← extract_append hrhs.le hrest.le, sentence_append]
    exact ((derives_rule hr).trans ih1).append_append ih2

/-- The recursive reading of a derivation and the steps agree. -/
theorem spans_iff_derives (hi : i ≤ words.length) :
    Spans rules words xs i j ↔
      i ≤ j ∧ j ≤ words.length ∧ Derives rules xs (sentence (words.extract i j)) := by
  constructor
  · intro h
    exact ⟨h.le, h.le_length hi, h.derives⟩
  · rintro ⟨hij, hj, h⟩
    exact .of_derives h (spans_sentence_extract hij hj)

/-- Derivations of nothing are derivations of the empty part at any place. -/
theorem spans_self_iff (hi : i ≤ words.length) :
    Spans rules words xs i i ↔ Derives rules xs [] := by
  rw [spans_iff_derives hi, extract_self]
  exact ⟨fun h => h.2.2, fun h => ⟨Nat.le_refl i, hi, h⟩⟩

/-- Derivations of the whole sentence. -/
theorem spans_all_iff :
    Spans rules words xs 0 words.length ↔ Derives rules xs (sentence words) := by
  rw [spans_iff_derives (Nat.zero_le _)]
  simp

end Spans

end PhraseStructure
