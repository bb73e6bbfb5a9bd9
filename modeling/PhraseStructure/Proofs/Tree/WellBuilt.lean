import Mathlib.Logic.Relation
import Mathlib.Tactic.Choose
import PhraseStructure.Forest.Basic
import PhraseStructure.Tree

/-! Trees that are built from given constituents over a list of words, and trees in which no branch
lies below another one for the same constituent.  `exists_noRepeat`: a tree with such a repetition
can be cut to one without. -/

namespace PhraseStructure

open Relation

namespace Tree

/-- The symbol that the tree stands for in the rule of its parent. -/
def symbol : Tree → Symbol
  | branch label _ _ => .nonterminal label
  | leaf word _ => .terminal word

/-- The rule and the span of a branch.  The rule is read off the label and the children. -/
def constituent? : Tree → Option Constituent
  | branch label span children => some ⟨span.start, span.stop, ⟨label, children.map symbol⟩⟩
  | leaf .. => none

end Tree

/-- The spans follow one another from `start` to `stop`, without a gap or an overlap. -/
def Tiles (start : Nat) (spans : List Span) (stop : Nat) : Prop :=
  match spans with
  | [] => start = stop
  | span :: rest => span.start = start ∧ Tiles span.stop rest stop

/-- Every branch of the tree is for an allowed constituent and is tiled by its children, and every
leaf is the word that stands at its place. -/
inductive Tree.WellBuilt (allowed : Constituent → Prop) (words : List String) : Tree → Prop
  | leaf {word : String} {place : Nat} : words[place]? = some word →
      WellBuilt allowed words (.leaf word ⟨place, place + 1⟩)
  | branch {label : String} {span : Span} {children : List Tree} :
      allowed ⟨span.start, span.stop, ⟨label, children.map Tree.symbol⟩⟩ →
      Tiles span.start (children.map Tree.span) span.stop →
      (∀ child ∈ children, WellBuilt allowed words child) →
      WellBuilt allowed words (.branch label span children)

namespace Tree

/-- The first tree is a child of the second. -/
def IsChild (t u : Tree) : Prop := t ∈ u.children

/-- The first tree is the second or lies below it. -/
def Within : Tree → Tree → Prop := ReflTransGen IsChild

/-- The first tree lies below the second. -/
def Below : Tree → Tree → Prop := TransGen IsChild

/-- No branch has the same rule and the same span as a branch above it. -/
def NoRepeat (t : Tree) : Prop :=
  ∀ upper, Within upper t → ∀ lower, Below lower upper → lower.constituent? ≠ upper.constituent?

/-- No branch of the tree is for the constituent. -/
def Avoids (c : Constituent) (t : Tree) : Prop := ∀ u, Within u t → u.constituent? ≠ some c

variable {allowed : Constituent → Prop} {words : List String} {label : String} {span : Span}
  {children : List Tree} {t u : Tree} {c : Constituent}

theorem within_branch : Within u (.branch label span children) ↔
    u = .branch label span children ∨ ∃ child ∈ children, Within u child := by
  constructor
  · intro h
    rcases ReflTransGen.cases_tail h with h | ⟨child, hu, hc⟩
    · exact .inl h.symm
    · exact .inr ⟨child, hc, hu⟩
  · rintro (rfl | ⟨child, hc, hu⟩)
    · exact ReflTransGen.refl
    · exact ReflTransGen.tail hu hc

theorem below_branch : Below u (.branch label span children) ↔
    ∃ child ∈ children, Within u child := by
  constructor
  · intro h
    obtain ⟨child, hu, hc⟩ := TransGen.tail'_iff.mp h
    exact ⟨child, hc, hu⟩
  · rintro ⟨child, hc, hu⟩
    exact TransGen.tail' hu hc

theorem within_leaf {word : String} : Within u (.leaf word span) ↔ u = .leaf word span := by
  constructor
  · intro h
    rcases ReflTransGen.cases_tail h with h | ⟨_, _, hc⟩
    · exact h.symm
    · simp [IsChild, Tree.children] at hc
  · rintro rfl
    exact ReflTransGen.refl

theorem noRepeat_leaf (word : String) (span : Span) : NoRepeat (.leaf word span) := by
  intro upper hupper lower hlower
  rw [within_leaf.mp hupper] at hlower
  obtain ⟨_, _, hc⟩ := TransGen.tail'_iff.mp hlower
  simp [IsChild, Tree.children] at hc

theorem noRepeat_branch : NoRepeat (.branch label span children) ↔
    ∀ child ∈ children, child.NoRepeat ∧
      child.Avoids ⟨span.start, span.stop, ⟨label, children.map symbol⟩⟩ := by
  constructor
  · intro h child hc
    refine ⟨fun upper hu => h upper (within_branch.mpr (.inr ⟨child, hc, hu⟩)), fun u hu => ?_⟩
    exact h _ ReflTransGen.refl u (below_branch.mpr ⟨child, hc, hu⟩)
  · intro h upper hupper lower hlower
    rcases within_branch.mp hupper with rfl | ⟨child, hc, hu⟩
    · obtain ⟨child, hc, hl⟩ := below_branch.mp hlower
      exact (h child hc).2 lower hl
    · exact (h child hc).1 upper hu lower hlower

theorem NoRepeat.of_within (h : t.NoRepeat) (hu : Within u t) : u.NoRepeat :=
  fun upper hupper => h upper (hupper.trans hu)

theorem avoids_branch : Avoids c (.branch label span children) ↔
    c ≠ ⟨span.start, span.stop, ⟨label, children.map symbol⟩⟩ ∧
      ∀ child ∈ children, child.Avoids c := by
  constructor
  · intro h
    refine ⟨fun hc => h _ ReflTransGen.refl (congrArg some hc.symm), fun child hc u hu => ?_⟩
    exact h u (within_branch.mpr (.inr ⟨child, hc, hu⟩))
  · rintro ⟨hne, h⟩ u hu
    rcases within_branch.mp hu with rfl | ⟨child, hc, hu⟩
    · exact fun hc => hne (Option.some.inj hc).symm
    · exact h child hc u hu

theorem WellBuilt.mono {allowed' : Constituent → Prop} (h : t.WellBuilt allowed words)
    (hsub : ∀ c, allowed c → allowed' c) : t.WellBuilt allowed' words := by
  induction h with
  | leaf hword => exact .leaf hword
  | branch hc htiles _ ih => exact .branch (hsub _ hc) htiles ih

theorem WellBuilt.constituent (h : t.WellBuilt allowed words) (hc : t.constituent? = some c) :
    allowed c := by
  cases h with
  | leaf => simp [constituent?] at hc
  | branch hallowed => exact Option.some.inj hc ▸ hallowed

theorem WellBuilt.child (h : t.WellBuilt allowed words) (hu : IsChild u t) :
    u.WellBuilt allowed words := by
  cases h with
  | leaf => simp [IsChild, Tree.children] at hu
  | branch _ _ hchildren => exact hchildren u hu

theorem WellBuilt.of_within (h : t.WellBuilt allowed words) (hu : Within u t) :
    u.WellBuilt allowed words := by
  induction hu using ReflTransGen.head_induction_on with
  | refl => exact h
  | head hstep _ ih => exact ih.child hstep

theorem symbol_eq_terminal {word : String} :
    t.symbol = .terminal word ↔ ∃ span, t = .leaf word span := by
  cases t <;> simp [symbol]

theorem symbol_eq_nonterminal {name : String} :
    t.symbol = .nonterminal name ↔ ∃ span children, t = .branch name span children := by
  cases t <;> simp [symbol]

/-- The root of a tree for a constituent. -/
theorem constituent?_eq_some : t.constituent? = some c ↔
    ∃ children, t = .branch c.rule.lhs ⟨c.start, c.stop⟩ children ∧
      children.map symbol = c.rule.rhs := by
  obtain ⟨start, stop, lhs, rhs⟩ := c
  cases t with
  | leaf => simp [constituent?]
  | branch label span children =>
    obtain ⟨first, last⟩ := span
    simp only [constituent?, Option.some.injEq, Constituent.mk.injEq, Rule.mk.injEq,
      branch.injEq, Span.mk.injEq]
    constructor
    · rintro ⟨rfl, rfl, rfl, h⟩
      exact ⟨children, ⟨rfl, ⟨rfl, rfl⟩, rfl⟩, h⟩
    · rintro ⟨_, ⟨rfl, ⟨rfl, rfl⟩, rfl⟩, h⟩
      exact ⟨rfl, rfl, rfl, h⟩

theorem root_eq_of_constituent?
    (h : u.constituent? = (Tree.branch label span children).constituent?) :
    u.symbol = (Tree.branch label span children).symbol ∧
      u.span = (Tree.branch label span children).span := by
  obtain ⟨_, rfl, -⟩ := constituent?_eq_some.mp h
  exact ⟨rfl, rfl⟩

theorem tiles_append {spans spans' : List Span} {i j : Nat} :
    Tiles i (spans ++ spans') j ↔ ∃ k, Tiles i spans k ∧ Tiles k spans' j := by
  induction spans generalizing i with
  | nil =>
    constructor
    · exact fun h => ⟨i, rfl, h⟩
    · rintro ⟨k, rfl, h⟩
      exact h
  | cons span spans ih =>
    constructor
    · rintro ⟨hstart, hrest⟩
      obtain ⟨k, hspans, hspans'⟩ := ih.mp hrest
      exact ⟨k, ⟨hstart, hspans⟩, hspans'⟩
    · rintro ⟨k, ⟨hstart, hspans⟩, hspans'⟩
      exact ⟨hstart, ih.mpr ⟨k, hspans, hspans'⟩⟩

theorem le_of_tiles {start stop : Nat} {spans : List Span} (h : Tiles start spans stop)
    (hspans : ∀ span ∈ spans, span.start ≤ span.stop) : start ≤ stop := by
  induction spans generalizing start with
  | nil => exact Nat.le_of_eq h
  | cons span rest ih =>
    obtain ⟨hstart, hrest⟩ := h
    have h1 := hspans span List.mem_cons_self
    have h2 := ih hrest fun s hs => hspans s (List.mem_cons_of_mem _ hs)
    omega

/-- No span of a tree runs backwards, because the children would have to. -/
theorem WellBuilt.start_le_stop (h : t.WellBuilt allowed words) : t.span.start ≤ t.span.stop := by
  induction h with
  | leaf => exact Nat.le_succ _
  | branch _ htiles _ ih =>
    refine le_of_tiles htiles fun span hspan => ?_
    obtain ⟨child, hchild, rfl⟩ := List.mem_map.mp hspan
    exact ih child hchild

theorem le_of_tiles_wellBuilt {start stop : Nat} {ts : List Tree}
    (h : Tiles start (ts.map Tree.span) stop) (hts : ∀ t ∈ ts, t.WellBuilt allowed words) :
    start ≤ stop := by
  refine le_of_tiles h fun span hspan => ?_
  obtain ⟨t, ht, rfl⟩ := List.mem_map.mp hspan
  exact (hts t ht).start_le_stop

/-- A tree that does without a constituent is one that is built from the others. -/
theorem wellBuilt_and_avoids_iff : t.WellBuilt allowed words ∧ t.Avoids c ↔
    t.WellBuilt (fun x => allowed x ∧ x ≠ c) words := by
  constructor
  · rintro ⟨h, ha⟩
    induction h with
    | leaf hword => exact .leaf hword
    | branch hc htiles _ ih =>
      obtain ⟨hne, ha⟩ := avoids_branch.mp ha
      exact .branch ⟨hc, hne.symm⟩ htiles fun child hchild => ih child hchild (ha child hchild)
  · intro h
    refine ⟨h.mono fun _ hc => hc.1, fun u hu hc => ?_⟩
    exact ((h.of_within hu).constituent hc).2 rfl

/-- Where a branch repeats one above it, the lower of the two can take the place of the upper. -/
theorem exists_noRepeat (h : t.WellBuilt allowed words) :
    ∃ u : Tree, u.WellBuilt allowed words ∧ u.NoRepeat ∧ u.constituent? = t.constituent? ∧
      u.symbol = t.symbol ∧ u.span = t.span := by
  induction h with
  | @leaf word place hword => exact ⟨_, .leaf hword, noRepeat_leaf _ _, rfl, rfl, rfl⟩
  | @branch label span children hc htiles _ ih =>
    choose! cut hbuilt hno _ hsymbol hspan using ih
    have hsymbols : (children.map cut).map symbol = children.map symbol := by
      rw [List.map_map]
      exact List.map_congr_left hsymbol
    have hspans : (children.map cut).map Tree.span = children.map Tree.span := by
      rw [List.map_map]
      exact List.map_congr_left hspan
    have hnew : WellBuilt allowed words (.branch label span (children.map cut)) := by
      refine .branch (by rw [hsymbols]; exact hc) (by rw [hspans]; exact htiles) ?_
      intro child hchild
      obtain ⟨old, hold, rfl⟩ := List.mem_map.mp hchild
      exact hbuilt old hold
    -- Either the constituent comes back below the cut children, and the branch found there will
    -- do, or the branch over them has no repetition.
    by_cases hback : ∃ child ∈ children, ∃ u, Within u (cut child) ∧
        u.constituent? = (Tree.branch label span children).constituent?
    · obtain ⟨child, hchild, u, hu, heq⟩ := hback
      exact ⟨u, (hbuilt child hchild).of_within hu, (hno child hchild).of_within hu, heq,
        root_eq_of_constituent? heq⟩
    · refine ⟨.branch label span (children.map cut), hnew, noRepeat_branch.mpr ?_,
        by rw [constituent?, hsymbols]; rfl, rfl, rfl⟩
      intro child hchild
      obtain ⟨old, hold, rfl⟩ := List.mem_map.mp hchild
      refine ⟨hno old hold, fun u hu heq => hback ⟨old, hold, u, hu, ?_⟩⟩
      rw [heq, hsymbols]
      rfl

end Tree

end PhraseStructure
