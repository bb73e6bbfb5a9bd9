import PhraseStructure.Proofs.Forest.OfChart
import PhraseStructure.Tree.Node

/-! The order in which a forest lists its trees.  A tree is a series of choices, one for each of its
branches in preorder: the place of the branch's constituent among those that begin where it does.
The trees come in the lexicographic order of their choices, so that the first and outermost choice
varies slowest.

That two trees differ in a choice is more than that the choices of one come first, since it stays so
whatever further choices follow.  `Before` says this, and the enumeration keeps it at every step. -/

namespace PhraseStructure.Forest

/-- The place of a constituent among those of the forest that begin where it does. -/
def place (f : Forest) (c : Constituent) : Nat := (f.startingAt c.start).idxOf c

/-- The places of the constituents of a tree, each before those below it, from left to right. -/
def choices (f : Forest) (t : Tree) : List Nat :=
  (t.nodes.filterMap fun node => node.tree.constituent?).map f.place

/-! ### Choices -/

section Choices

variable {f : Forest} {c : Constituent} {t : Tree}

theorem filterMap_nodesFrom (index : Nat) (ts : List Tree) :
    ((Tree.nodesFrom index ts).filterMap fun node => node.tree.constituent?).map f.place =
      ts.flatMap f.choices := by
  induction ts generalizing index with
  | nil => rfl
  | cons t ts ih =>
    rw [Tree.nodesFrom, List.filterMap_append, List.map_append, ih, List.filterMap_map,
      List.flatMap_cons]
    rfl

@[simp] theorem choices_leaf (word : String) (span : Span) :
    f.choices (.leaf word span) = [] := rfl

theorem choices_of_constituent? (h : t.constituent? = some c) :
    f.choices t = f.place c :: t.children.flatMap f.choices := by
  obtain ⟨children, rfl, -⟩ := Tree.constituent?_eq_some.mp h
  rw [choices, Tree.nodes,
    List.filterMap_cons_some (f := fun node : Node => node.tree.constituent?) h, List.map_cons,
    filterMap_nodesFrom]
  rfl

end Choices

/-- The lists agree up to a place at which the number in the first is smaller. -/
inductive Before : List Nat → List Nat → Prop
  | here {a b : Nat} {as bs : List Nat} : a < b → Before (a :: as) (b :: bs)
  | later {a : Nat} {as bs : List Nat} : Before as bs → Before (a :: as) (a :: bs)

section Before

variable {as bs : List Nat}

theorem Before.lex (h : Before as bs) : List.Lex (· < ·) as bs := by
  induction h with
  | here hlt => exact .rel hlt
  | later _ ih => exact .cons ih

theorem Before.append (h : Before as bs) (cs ds : List Nat) : Before (as ++ cs) (bs ++ ds) := by
  induction h with
  | here hlt => exact .here hlt
  | later _ ih => exact .later ih

theorem Before.append_left (h : Before as bs) (shared : List Nat) :
    Before (shared ++ as) (shared ++ bs) := by
  induction shared with
  | nil => exact h
  | cons _ _ ih => exact .later ih

end Before

/-! ### The enumeration keeps the order -/

section Enumeration

variable {f below : Forest} {rank : Constituent → Nat}

/-- In every row of the forest the ranks rise. -/
def Ranked (rank : Constituent → Nat) (f : Forest) : Prop :=
  ∀ start, (f.startingAt start).Pairwise fun c d => rank c < rank d

/-- The places in a forest are ranks for it. -/
theorem ranked_place (hf : f.Aligned) (hnodup : ∀ start, (f.startingAt start).Nodup) :
    Ranked f.place f := by
  intro start
  rw [List.pairwise_iff_getElem]
  intro i j hi hj hij
  have hplace : ∀ k (hk : k < (f.startingAt start).length),
      f.place (f.startingAt start)[k] = k := by
    intro k hk
    rw [place, hf start _ (List.getElem_mem hk)]
    exact (hnodup start).idxOf_getElem k hk
  rw [hplace i hi, hplace j hj]
  exact hij

/-- Taking out a constituent leaves the others in their order. -/
theorem Ranked.without (h : Ranked rank f) (c : Constituent) : Ranked rank (f.without c) := by
  intro start
  rw [startingAt_without]
  split
  · exact (h start).filter _
  · exact h start

/-- What is listed for constituents of rising rank is in order, when the choices for each of them
begin with its rank and are in order themselves. -/
theorem pairwise_flatMap_before {α : Type} {cs : List Constituent} {part : Constituent → List α}
    {key : α → List Nat} (hcs : cs.Pairwise fun c d => rank c < rank d)
    (hkey : ∀ c ∈ cs, ∀ x ∈ part c, ∃ rest, key x = rank c :: rest)
    (hpart : ∀ c ∈ cs, (part c).Pairwise fun x y => Before (key x) (key y)) :
    (cs.flatMap part).Pairwise fun x y => Before (key x) (key y) := by
  rw [List.pairwise_flatMap]
  refine ⟨hpart, (List.Pairwise.and_mem.mp hcs).imp ?_⟩
  rintro c d ⟨hc, hd, hlt⟩ x hx y hy
  obtain ⟨as, has⟩ := hkey c hc x hx
  obtain ⟨bs, hbs⟩ := hkey d hd y hy
  rw [has, hbs]
  exact .here hlt

/-- Sequences that agree on their first trees differ in a choice when these trees or what follows
them do. -/
theorem pairwise_sequences (hrows : Ranked f.place below) {subtrees : Constituent → List Tree}
    (hconst : ∀ c, ∀ t ∈ subtrees c, t.constituent? = some c)
    (hsub : ∀ c, (subtrees c).Pairwise fun t u => Before (f.choices t) (f.choices u))
    (symbols : List Symbol) (start stop : Nat) :
    (below.sequences subtrees symbols start stop).Pairwise fun ts us =>
      Before (ts.flatMap f.choices) (us.flatMap f.choices) := by
  induction symbols generalizing start with
  | nil =>
    rw [sequences]
    split <;> simp
  | cons symbol rest ih =>
    have hcons : ∀ (t : Tree) (middle : Nat),
        ((below.sequences subtrees rest middle stop).map (t :: ·)).Pairwise fun ts us =>
          Before (ts.flatMap f.choices) (us.flatMap f.choices) := by
      intro t middle
      refine List.pairwise_map.mpr ((ih middle).imp fun h => ?_)
      rw [List.flatMap_cons, List.flatMap_cons]
      exact h.append_left _
    cases symbol with
    | terminal word =>
      rw [sequences]
      split
      · exact hcons _ _
      · exact List.Pairwise.nil
    | nonterminal name =>
      rw [sequences_nonterminal]
      refine pairwise_flatMap_before ((hrows start).filter _) (fun c _ ts hts => ?_) fun c _ => ?_
      · obtain ⟨t, ht, hts⟩ := List.mem_flatMap.mp hts
        obtain ⟨tail, -, rfl⟩ := List.mem_map.mp hts
        rw [List.flatMap_cons, choices_of_constituent? (hconst c t ht)]
        exact ⟨_, rfl⟩
      · rw [List.pairwise_flatMap]
        refine ⟨fun t _ => hcons t c.stop, (hsub c).imp fun hbefore ts hts us hus => ?_⟩
        obtain ⟨tail, -, rfl⟩ := List.mem_map.mp hts
        obtain ⟨tail', -, rfl⟩ := List.mem_map.mp hus
        rw [List.flatMap_cons, List.flatMap_cons]
        exact hbefore.append _ _

theorem pairwise_treesWithin (hrows : Ranked f.place below) (depth : Nat) (c : Constituent) :
    (treesWithin depth below c).Pairwise fun t u => Before (f.choices t) (f.choices u) := by
  induction depth generalizing below c with
  | zero => exact List.Pairwise.nil
  | succ depth ih =>
    have hbelow := hrows.without c
    have hroot : ∀ t ∈ treesWithin (depth + 1) below c,
        f.choices t = f.place c :: t.children.flatMap f.choices := fun t ht =>
      choices_of_constituent? (constituent?_of_mem_treesWithin ht)
    rw [treesWithin] at hroot ⊢
    have hsequences := pairwise_sequences hbelow (fun x t => constituent?_of_mem_treesWithin)
      (fun x => ih hbelow x) c.rule.rhs c.start c.stop
    refine List.pairwise_map.mpr ((List.Pairwise.and_mem.mp hsequences).imp ?_)
    rintro ts us ⟨hts, hus, hbefore⟩
    rw [hroot _ (List.mem_map_of_mem hts), hroot _ (List.mem_map_of_mem hus)]
    exact .later hbefore

theorem pairwise_trees (hrows : Ranked f.place f) (g : Grammar) :
    (f.trees g).Pairwise fun t u => Before (f.choices t) (f.choices u) := by
  refine pairwise_flatMap_before ((hrows 0).filter _) (fun c _ t ht => ?_) fun c _ => ?_
  · exact ⟨_, choices_of_constituent? (constituent?_of_mem_treesWithin ht)⟩
  · exact pairwise_treesWithin hrows _ c

end Enumeration

/-- From whatever chart, the forest lists its trees in the lexicographic order of their choices,
none of them with the choices of another.  Every choice of a listed tree is the place of a
constituent that is there. -/
theorem pairwise_choices_trees (g : Grammar) (chart : Chart) (h : chart.InBounds)
    (words : List String) :
    ∃ f, ofChart? chart words = .ok f ∧
      (∀ t ∈ f.trees g, ∀ u : Tree, u.Within t → ∀ c, u.constituent? = some c →
        c ∈ f.startingAt c.start) ∧
      (f.trees g).Pairwise fun t u => List.Lex (· < ·) (f.choices t) (f.choices u) := by
  have hf := aligned_ofChart chart words
  have hrows := ranked_place hf (nodup_startingAt_ofChart h)
  refine ⟨ofChart chart words, ofChart?_eq h words, fun t ht u hu c hc => ?_, ?_⟩
  · obtain ⟨-, -, hbuilt, -⟩ := (mem_trees hf).mp ht
    exact (hbuilt.of_within hu).constituent hc
  · exact (pairwise_trees hrows g).imp Before.lex

/-- The tree of the sentence with the one word only. -/
def plainWord : Tree := .branch "S" ⟨0, 1⟩ [.leaf "x" ⟨0, 1⟩]

/-- The same tree with an empty one beside it. -/
def besideNothing : Tree := .branch "S" ⟨0, 1⟩ [.branch "S" ⟨0, 0⟩ [], plainWord]

theorem pairwise_choices_trees_stray : strayChart.InBounds ∧
    ∃ f, ofChart? strayChart ["x"] = .ok f ∧
      (∀ t ∈ f.trees Grammar.looping, ∀ u : Tree, u.Within t → ∀ c, u.constituent? = some c →
        c ∈ f.startingAt c.start) ∧
      ((f.trees Grammar.looping).Pairwise fun t u =>
        List.Lex (· < ·) (f.choices t) (f.choices u)) ∧
      f.trees Grammar.looping = [plainWord, besideNothing] ∧
      f.choices plainWord = [1] ∧ f.choices besideNothing = [2, 0, 1] ∧
      List.Lex (· < ·) (f.choices plainWord) (f.choices besideNothing) := by
  have hbounds : strayChart.InBounds := by decide
  obtain ⟨f, hf, hplaces, hpairwise⟩ :=
    pairwise_choices_trees Grammar.looping strayChart hbounds ["x"]
  obtain rfl : ofChart strayChart ["x"] = f :=
    Except.ok.inj ((ofChart?_eq hbounds ["x"]).symm.trans hf)
  have htrees : (ofChart strayChart ["x"]).trees Grammar.looping = [plainWord, besideNothing] := by
    decide +kernel
  refine ⟨hbounds, _, hf, hplaces, hpairwise, htrees, by decide +kernel, by decide +kernel, ?_⟩
  rw [htrees] at hpairwise
  exact List.rel_of_pairwise_cons hpairwise (List.mem_singleton_self _)

end PhraseStructure.Forest
