import PhraseStructure.Proofs.Parse

/-! The subtrees of a parse as parses of their own words.  When a tree is cut off and its spans are
moved back to the beginning, it is built over the words that it covers, and it repeats no branch if
it did not before.  So a branch of a parse is a parse of the words below it with the grammar that
begins with its label. -/

namespace PhraseStructure

open Relation

def Span.shiftBack (offset : Nat) (span : Span) : Span := ⟨span.start - offset, span.stop - offset⟩

def Constituent.shiftBack (offset : Nat) (c : Constituent) : Constituent :=
  { c with start := c.start - offset, stop := c.stop - offset }

/-- Moving back loses nothing of a constituent that begins behind the offset. -/
theorem Constituent.eq_of_shiftBack_eq {offset : Nat} {c d : Constituent}
    (h : c.shiftBack offset = d.shiftBack offset) (hc : offset ≤ c.start ∧ offset ≤ c.stop)
    (hd : offset ≤ d.start ∧ offset ≤ d.stop) : c = d := by
  obtain ⟨cstart, cstop, crule⟩ := c
  obtain ⟨dstart, dstop, drule⟩ := d
  simp only [shiftBack, Constituent.mk.injEq] at h hc hd ⊢
  exact ⟨by omega, by omega, h.2.2⟩

namespace Tree

mutual

/-- The tree with every span moved back by an offset. -/
def shiftBack (offset : Nat) : Tree → Tree
  | .branch label span children =>
    .branch label (span.shiftBack offset) (shiftBackAll offset children)
  | .leaf word span => .leaf word (span.shiftBack offset)

/-- The trees with every span moved back by an offset. -/
def shiftBackAll (offset : Nat) : List Tree → List Tree
  | [] => []
  | t :: ts => shiftBack offset t :: shiftBackAll offset ts

end

theorem shiftBackAll_eq (offset : Nat) (ts : List Tree) :
    shiftBackAll offset ts = ts.map (shiftBack offset) := by
  induction ts with
  | nil => rfl
  | cons t ts ih => rw [shiftBackAll, ih, List.map_cons]

section ShiftBack

variable {offset i j : Nat} {rules : List Rule} {words : List String} {t u v : Tree}

@[simp] theorem children_shiftBack (offset : Nat) (t : Tree) :
    (t.shiftBack offset).children = t.children.map (shiftBack offset) := by
  cases t with
  | leaf => rfl
  | branch => exact shiftBackAll_eq _ _

@[simp] theorem symbol_shiftBack (offset : Nat) (t : Tree) :
    (t.shiftBack offset).symbol = t.symbol := by
  cases t <;> rfl

@[simp] theorem span_shiftBack (offset : Nat) (t : Tree) :
    (t.shiftBack offset).span = t.span.shiftBack offset := by
  cases t <;> rfl

theorem map_symbol_shiftBackAll (offset : Nat) (ts : List Tree) :
    (shiftBackAll offset ts).map symbol = ts.map symbol := by
  rw [shiftBackAll_eq, List.map_map]
  exact List.map_congr_left fun t _ => symbol_shiftBack offset t

theorem map_span_shiftBackAll (offset : Nat) (ts : List Tree) :
    (shiftBackAll offset ts).map span = (ts.map span).map (Span.shiftBack offset) := by
  rw [shiftBackAll_eq, List.map_map, List.map_map]
  exact List.map_congr_left fun t _ => span_shiftBack offset t

theorem constituent?_shiftBack (offset : Nat) (t : Tree) :
    (t.shiftBack offset).constituent? = t.constituent?.map (Constituent.shiftBack offset) := by
  cases t with
  | leaf => rfl
  | branch label span children =>
    rw [shiftBack, constituent?, map_symbol_shiftBackAll]
    rfl

/-! ### Where the subtrees of a tree lie -/

/-- A child lies within the span of its parent. -/
theorem WellBuilt.span_of_isChild (h : t.WellBuilt (OfRules rules) words) (hu : IsChild u t) :
    t.span.start ≤ u.span.start ∧ u.span.stop ≤ t.span.stop := by
  cases h with
  | leaf => simp [IsChild, Tree.children] at hu
  | branch _ htiles hchildren =>
    obtain ⟨_, _, -, hbefore, hafter⟩ := exists_spans_beside hchildren htiles hu
    exact ⟨hbefore.le, hafter.le⟩

theorem WellBuilt.span_of_within (h : t.WellBuilt (OfRules rules) words) (hu : Within u t) :
    t.span.start ≤ u.span.start ∧ u.span.stop ≤ t.span.stop := by
  induction hu using ReflTransGen.head_induction_on with
  | refl => exact ⟨Nat.le_refl _, Nat.le_refl _⟩
  | head hchild hwithin ih =>
    have := (h.of_within hwithin).span_of_isChild hchild
    omega

/-! ### What moving back keeps -/

theorem exists_of_isChild_shiftBack (h : IsChild v (t.shiftBack offset)) :
    ∃ u, IsChild u t ∧ u.shiftBack offset = v := by
  rw [IsChild, children_shiftBack] at h
  exact List.mem_map.mp h

theorem exists_of_within_shiftBack (h : Within v (t.shiftBack offset)) :
    ∃ u, Within u t ∧ u.shiftBack offset = v := by
  induction h using ReflTransGen.head_induction_on with
  | refl => exact ⟨t, ReflTransGen.refl, rfl⟩
  | head hchild _ ih =>
    obtain ⟨u, hu, rfl⟩ := ih
    obtain ⟨child, hc, rfl⟩ := exists_of_isChild_shiftBack hchild
    exact ⟨child, ReflTransGen.head hc hu, rfl⟩

theorem exists_of_below_shiftBack (h : Below v (t.shiftBack offset)) :
    ∃ u, Below u t ∧ u.shiftBack offset = v := by
  obtain ⟨child', hv, hchild⟩ := TransGen.tail'_iff.mp h
  obtain ⟨child, hc, rfl⟩ := exists_of_isChild_shiftBack hchild
  obtain ⟨u, hu, rfl⟩ := exists_of_within_shiftBack hv
  exact ⟨u, TransGen.tail' hu hc, rfl⟩

theorem tiles_shiftBack {spans : List Span} (h : Tiles i spans j) (offset : Nat) :
    Tiles (i - offset) (spans.map (Span.shiftBack offset)) (j - offset) := by
  induction spans generalizing i with
  | nil => exact congrArg (· - offset) h
  | cons span rest ih =>
    obtain ⟨rfl, hrest⟩ := h
    exact ⟨rfl, ih hrest⟩

/-- A tree that lies in a part of the sentence is a tree over this part. -/
theorem WellBuilt.shiftBack (h : t.WellBuilt (OfRules rules) words) (hi : i ≤ t.span.start)
    (hj : t.span.stop ≤ j) : (t.shiftBack i).WellBuilt (OfRules rules) (words.extract i j) := by
  induction h with
  | @leaf word place hword =>
    replace hi : i ≤ place := hi
    replace hj : place + 1 ≤ j := hj
    rw [Tree.shiftBack, Span.shiftBack, Nat.sub_add_comm hi]
    exact .leaf ((getElem?_extract_sub hi hj).trans hword)
  | @branch label span children hrule htiles hchildren ih =>
    have hbuilt := WellBuilt.branch hrule htiles hchildren
    rw [Tree.shiftBack]
    refine .branch ?_ ?_ ?_
    · rw [map_symbol_shiftBackAll]
      exact hrule
    · rw [map_span_shiftBackAll]
      exact tiles_shiftBack htiles i
    · rw [shiftBackAll_eq]
      intro child' hchild'
      obtain ⟨child, hchild, rfl⟩ := List.mem_map.mp hchild'
      obtain ⟨hstart, hstop⟩ := hbuilt.span_of_isChild hchild
      exact ih child hchild (Nat.le_trans hi hstart) (Nat.le_trans hstop hj)

/-- Branches that differ in their rules or spans still do when both are moved back. -/
theorem WellBuilt.constituent?_shiftBack_ne (hu : u.WellBuilt (OfRules rules) words)
    (hv : v.WellBuilt (OfRules rules) words)
    (hustart : offset ≤ u.span.start) (hvstart : offset ≤ v.span.start)
    (hne : v.constituent? ≠ u.constituent?) :
    (v.shiftBack offset).constituent? ≠ (u.shiftBack offset).constituent? := by
  have hustop := Nat.le_trans hustart hu.start_le_stop
  have hvstop := Nat.le_trans hvstart hv.start_le_stop
  rw [constituent?_shiftBack, constituent?_shiftBack]
  cases u with
  | leaf =>
    cases v with
    | leaf => exact absurd rfl hne
    | branch => simp [constituent?]
  | branch =>
    cases v with
    | leaf => simp [constituent?]
    | branch =>
      refine fun heq => hne (congrArg some ?_)
      exact Constituent.eq_of_shiftBack_eq (Option.some.inj heq) ⟨hvstart, hvstop⟩
        ⟨hustart, hustop⟩

/-- A tree without repetition has none when it is moved back. -/
theorem NoRepeat.shiftBack (hno : t.NoRepeat) (h : t.WellBuilt (OfRules rules) words)
    (ht : offset ≤ t.span.start) : (t.shiftBack offset).NoRepeat := by
  intro upper' hupper' lower' hlower'
  obtain ⟨upper, hupper, rfl⟩ := exists_of_within_shiftBack hupper'
  obtain ⟨lower, hlower, rfl⟩ := exists_of_below_shiftBack hlower'
  have hwithin : Within lower t := hlower.to_reflTransGen.trans hupper
  refine (h.of_within hupper).constituent?_shiftBack_ne (h.of_within hwithin) ?_ ?_
    (hno upper hupper lower hlower)
  · exact Nat.le_trans ht (h.span_of_within hupper).1
  · exact Nat.le_trans ht (h.span_of_within hwithin).1

end ShiftBack

end Tree

namespace Grammar

variable {g h : Grammar} {words : List String} {t : Tree}

theorem exists_ofRules_of_mem {start name : String} {given : List Rule}
    (hg : ofRules start given = .ok g) (hname : name ∈ Table.heads g.rules) :
    ∃ h, ofRules name given = .ok h := by
  have hrules := (start_and_rules_of_ofRules hg).2
  have hclosed := g.closed
  rw [hrules, Table.heads_arrange] at hname hclosed
  exact exists_ofRules hname fun rule hr => hclosed rule (Table.mem_arrange.mpr hr)

theorem IsDerivationTree.stop_le (ht : g.IsDerivationTree words t) {u : Tree}
    (hu : u.Within t) : u.span.stop ≤ words.length := by
  have := (ht.wellBuilt.span_of_within hu).2
  rw [ht.span] at this
  exact this

/-- A branch of a derivation tree derives its own words from its label. -/
theorem IsDerivationTree.shiftBack (ht : g.IsDerivationTree words t) {label : String} {span : Span}
    {children : List Tree} (hu : Tree.Within (.branch label span children) t)
    (hrules : h.rules = g.rules) (hstart : h.start = label) :
    h.IsDerivationTree (words.extract span.start span.stop)
      ((Tree.branch label span children).shiftBack span.start) where
  label := congrArg some hstart.symm
  span := by
    have hstop : span.stop ≤ words.length := ht.stop_le hu
    rw [Tree.span_shiftBack, Tree.span, Span.shiftBack, Nat.sub_self, length_extract hstop]
  wellBuilt := by
    rw [hrules]
    exact (ht.wellBuilt.of_within hu).shiftBack (Nat.le_refl _) (Nat.le_refl _)

/-- Every branch of a parse that covers words is, with its spans moved back to the beginning, a
parse of these words with the grammar of the same rules that begins with its label.  The words are
those of its span, and no span below it begins before it. -/
theorem shiftBack_mem_parse (start : String) (given : List Rule) (g : Grammar)
    (hg : ofRules start given = .ok g) (words : List String) (hne : words ≠ [])
    (hwords : "" ∉ words) :
    ∃ trees, g.parse words = .ok trees ∧ ∀ t ∈ trees, ∀ label span children,
      Tree.Within (.branch label span children) t → span.start < span.stop →
      span.stop ≤ words.length ∧
      (∀ u, Tree.Within u (.branch label span children) → span.start ≤ u.span.start) ∧
      ∃ h subtrees, ofRules label given = .ok h ∧
        h.parse (words.extract span.start span.stop) = .ok subtrees ∧
        (Tree.branch label span children).shiftBack span.start ∈ subtrees := by
  refine ⟨_, parse_eq g hne hwords, fun t ht label span children hu hlt => ?_⟩
  obtain ⟨htree, hno⟩ := mem_trees_build_iff.mp ht
  have hbuilt := htree.wellBuilt.of_within hu
  have hstop : span.stop ≤ words.length := htree.stop_le hu
  refine ⟨hstop, fun u hu => (hbuilt.span_of_within hu).1, ?_⟩
  have hrule : (⟨label, children.map Tree.symbol⟩ : Rule) ∈ g.rules := hbuilt.constituent rfl
  obtain ⟨h, hh⟩ := exists_ofRules_of_mem hg (Table.mem_heads.mpr ⟨_, hrule, rfl⟩)
  obtain ⟨hstart, hrules⟩ := start_and_rules_of_ofRules hh
  have hsame : h.rules = g.rules := hrules.trans (start_and_rules_of_ofRules hg).2.symm
  have hneSub : words.extract span.start span.stop ≠ [] := by
    rw [← List.length_pos_iff, length_extract hstop]
    omega
  have hwordsSub : "" ∉ words.extract span.start span.stop :=
    fun hmem => hwords (mem_of_mem_extract hmem)
  refine ⟨h, _, hh, parse_eq h hneSub hwordsSub, mem_trees_build_iff.mpr ⟨?_, ?_⟩⟩
  · exact htree.shiftBack hu hsame hstart
  · exact (hno.of_within hu).shiftBack hbuilt (Nat.le_refl _)

/-- Rules for clauses in which a noun phrase may be empty. -/
def clauses : List Rule :=
  [⟨"S", [.nonterminal "NP", .nonterminal "VP"]⟩, ⟨"VP", [.terminal "sat", .nonterminal "NP"]⟩,
    ⟨"NP", [.terminal "holmes"]⟩, ⟨"NP", []⟩]

/-- A phrase over the second word of a clause, with an empty phrase at its end. -/
def sat : Tree := .branch "VP" ⟨1, 2⟩ [.leaf "sat" ⟨1, 2⟩, .branch "NP" ⟨2, 2⟩ []]

/-- The same phrase over a sentence of one word. -/
def satAlone : Tree := .branch "VP" ⟨0, 1⟩ [.leaf "sat" ⟨0, 1⟩, .branch "NP" ⟨1, 1⟩ []]

theorem shiftBack_mem_parse_clauses : ∃ g, ofRules "S" clauses = .ok g ∧
    ["holmes", "sat"] ≠ [] ∧ "" ∉ ["holmes", "sat"] ∧
    ∃ trees, g.parse ["holmes", "sat"] = .ok trees ∧
      (∀ t ∈ trees, ∀ label span children,
        Tree.Within (.branch label span children) t → span.start < span.stop →
        span.stop ≤ 2 ∧
        (∀ u, Tree.Within u (.branch label span children) → span.start ≤ u.span.start) ∧
        ∃ h subtrees, ofRules label clauses = .ok h ∧
          h.parse (["holmes", "sat"].extract span.start span.stop) = .ok subtrees ∧
          (Tree.branch label span children).shiftBack span.start ∈ subtrees) ∧
      trees = [.branch "S" ⟨0, 2⟩ [.branch "NP" ⟨0, 1⟩ [.leaf "holmes" ⟨0, 1⟩], sat]] ∧
      (∀ t ∈ trees, sat.Within t) ∧ sat.shiftBack 1 = satAlone ∧
      ∃ h subtrees, ofRules "VP" clauses = .ok h ∧ h.parse ["sat"] = .ok subtrees ∧
        satAlone ∈ subtrees := by
  have hg : ofRules "S" clauses = .ok _ := rfl
  have hne : ["holmes", "sat"] ≠ [] := by decide
  have hwords : "" ∉ ["holmes", "sat"] := by decide
  obtain ⟨trees, hparse, hall⟩ :=
    shiftBack_mem_parse "S" clauses _ hg ["holmes", "sat"] hne hwords
  have htrees : trees =
      [.branch "S" ⟨0, 2⟩ [.branch "NP" ⟨0, 1⟩ [.leaf "holmes" ⟨0, 1⟩], sat]] := by
    refine Except.ok.inj (hparse.symm.trans ((parse_eq _ hne hwords).trans ?_))
    exact congrArg Except.ok (by decide +kernel)
  have hwithin : ∀ t ∈ trees, sat.Within t := by
    rw [htrees]
    rintro t (_ | ⟨_, ⟨⟩⟩)
    exact .single (List.mem_cons_of_mem _ (List.mem_cons_self ..))
  obtain ⟨-, -, hsub⟩ := hall _ (htrees ▸ List.mem_cons_self ..) "VP" ⟨1, 2⟩ _
    (hwithin _ (htrees ▸ List.mem_cons_self ..)) (by decide)
  exact ⟨_, hg, hne, hwords, trees, hparse, hall, htrees, hwithin, by decide, hsub⟩

end Grammar

end PhraseStructure
