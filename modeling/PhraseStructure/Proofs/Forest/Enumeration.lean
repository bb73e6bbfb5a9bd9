import Mathlib.Data.List.Nodup
import PhraseStructure.Forest.Trees
import PhraseStructure.Proofs.Tree.WellBuilt

/-! The trees that a forest lists.  They are exactly those that are built from its constituents,
cover all words under the wanted name and repeat no constituent below itself, each of them once.
The look-ahead and the bounds of the search drop none of them, since no part of such a tree runs
backwards, and a tree without a constituent is one from the forest without it. -/

namespace PhraseStructure.Forest

/-- The constituent is in its place in the forest. -/
def Has (f : Forest) (c : Constituent) : Prop := c ∈ f.startingAt c.start

/-- Every constituent is in the place of its start. -/
def Aligned (f : Forest) : Prop := ∀ start, ∀ c ∈ f.startingAt start, c.start = start

variable {f : Forest} {c : Constituent} {words : List String}

theorem Aligned.has (hf : f.Aligned) {start : Nat} (hc : c ∈ f.startingAt start) : f.Has c := by
  obtain rfl := hf start c hc
  exact hc

/-! ### Taking out a constituent -/

theorem mem_startingAt_without {start : Nat} {x : Constituent} :
    x ∈ (f.without c).startingAt start ↔
      x ∈ f.startingAt start ∧ (start = c.start → x ≠ c) := by
  rw [startingAt_without]
  split
  · next h => simp [h]
  · next h => simp [h]

theorem has_without {x : Constituent} : (f.without c).Has x ↔ f.Has x ∧ x ≠ c := by
  rw [Has, mem_startingAt_without]
  refine and_congr_right fun _ => ⟨?_, fun h _ => h⟩
  rintro h rfl
  exact h rfl rfl

theorem Aligned.without (hf : f.Aligned) (c : Constituent) : (f.without c).Aligned :=
  fun start x hx => hf start x (mem_startingAt_without.mp hx).1

theorem nodup_startingAt_without (hf : ∀ start, (f.startingAt start).Nodup) (c : Constituent)
    (start : Nat) : ((f.without c).startingAt start).Nodup := by
  rw [startingAt_without]
  split
  · exact (hf start).filter _
  · exact hf start

theorem length_flatten_modify_lt {rows : List (List Constituent)} {i : Nat}
    (h : c ∈ rows[i]?.getD []) :
    (rows.modify i fun row => row.filter (· != c)).flatten.length < rows.flatten.length := by
  induction rows generalizing i with
  | nil => simp at h
  | cons row rows ih =>
    cases i with
    | zero =>
      have : (row.filter (· != c)).length < row.length := by
        rw [List.length_filter_lt_length_iff_exists]
        exact ⟨c, by simpa using h, by simp⟩
      simp only [List.modify_zero_cons, List.flatten_cons, List.length_append]
      omega
    | succ i =>
      have := ih (i := i) (by simpa using h)
      simp only [List.modify_succ_cons, List.flatten_cons, List.length_append]
      omega

theorem size_without_lt (hc : f.Has c) : (f.without c).size < f.size :=
  length_flatten_modify_lt hc

/-! ### Sequences of children -/

section Sequences

variable {subtrees : Constituent → List Tree} {symbols rest : List Symbol} {name word : String}
  {start stop : Nat} {t : Tree} {ts : List Tree}

theorem mem_sequences_nil :
    ts ∈ f.sequences subtrees [] start stop ↔ ts = [] ∧ start = stop := by
  rw [sequences]
  split
  · next h => simp [h]
  · next h => simp [h]

theorem mem_sequences_terminal : ts ∈ f.sequences subtrees (.terminal word :: rest) start stop ↔
    (start < stop ∧ f.words[start]? = some word) ∧
      ∃ tail ∈ f.sequences subtrees rest (start + 1) stop,
        .leaf word ⟨start, start + 1⟩ :: tail = ts := by
  rw [sequences]
  split
  · next h => simp [h]
  · next h => simp [h]

theorem mem_candidates : c ∈ f.candidates name rest start stop ↔
    c ∈ f.startingAt start ∧ c.stop ≤ stop ∧ c.rule.lhs = name ∧ f.covers rest c.stop stop := by
  simp [candidates, and_assoc]

theorem mem_sequences_nonterminal :
    ts ∈ f.sequences subtrees (.nonterminal name :: rest) start stop ↔
      ∃ c ∈ f.candidates name rest start stop, ∃ t ∈ subtrees c,
        ∃ tail ∈ f.sequences subtrees rest c.stop stop, t :: tail = ts := by
  rw [sequences_nonterminal]
  simp only [List.mem_flatMap, List.mem_map]

/-- A list of trees matches a list of symbols and tiles a part of the sentence as its first tree
and the others do. -/
theorem matches_cons {symbol : Symbol} :
    ((t :: ts).map Tree.symbol = symbol :: rest ∧ Tiles start ((t :: ts).map Tree.span) stop) ↔
      (t.symbol = symbol ∧ t.span.start = start) ∧
        ts.map Tree.symbol = rest ∧ Tiles t.span.stop (ts.map Tree.span) stop := by
  rw [List.map_cons, List.map_cons, List.cons.injEq, Tiles]
  exact and_and_and_comm

/-- The look-ahead lets every sequence of trees pass. -/
theorem covers_of_wellBuilt (hsymbols : ts.map Tree.symbol = symbols)
    (htiles : Tiles start (ts.map Tree.span) stop)
    (hts : ∀ t ∈ ts, t.WellBuilt f.Has f.words) : f.covers symbols start stop := by
  induction ts generalizing symbols start with
  | nil =>
    subst hsymbols
    exact covers_nil.mpr htiles
  | cons t ts ih =>
    subst hsymbols
    obtain ⟨hstart, hrest⟩ := htiles
    have htail := fun u hu => hts u (List.mem_cons_of_mem _ hu)
    have hcovers := ih rfl hrest htail
    have hle := Tree.le_of_tiles_wellBuilt hrest htail
    cases hts t List.mem_cons_self with
    | @leaf word place hword =>
      obtain rfl : place = start := hstart
      exact covers_terminal.mpr ⟨hle, hword, hcovers⟩
    | @branch label span children hhas _ _ =>
      obtain rfl : span.start = start := hstart
      exact covers_nonterminal.mpr ⟨_, hhas, hle, rfl, hcovers⟩

/-- `subtrees` gives the trees without repetition of every constituent of the forest. -/
def ListsSubtrees (f : Forest) (subtrees : Constituent → List Tree) : Prop :=
  ∀ c, f.Has c → ∀ t, t ∈ subtrees c ↔
    t.constituent? = some c ∧ t.WellBuilt f.Has f.words ∧ t.NoRepeat

theorem matches_of_mem_sequences (hf : f.Aligned) (hsub : f.ListsSubtrees subtrees)
    (h : ts ∈ f.sequences subtrees symbols start stop) :
    (ts.map Tree.symbol = symbols ∧ Tiles start (ts.map Tree.span) stop) ∧
      ∀ t ∈ ts, t.WellBuilt f.Has f.words ∧ t.NoRepeat := by
  induction symbols generalizing start ts with
  | nil =>
    obtain ⟨rfl, hends⟩ := mem_sequences_nil.mp h
    exact ⟨⟨rfl, hends⟩, by simp⟩
  | cons symbol rest ih =>
    cases symbol with
    | terminal word =>
      obtain ⟨⟨-, hword⟩, tail, htail, rfl⟩ := mem_sequences_terminal.mp h
      obtain ⟨hmatch, hts⟩ := ih htail
      refine ⟨matches_cons.mpr ⟨⟨rfl, rfl⟩, hmatch⟩, List.forall_mem_cons.mpr ⟨?_, hts⟩⟩
      exact ⟨.leaf hword, Tree.noRepeat_leaf _ _⟩
    | nonterminal name =>
      obtain ⟨c, hc, t, ht, tail, htail, rfl⟩ := mem_sequences_nonterminal.mp h
      obtain ⟨hc, -, hname, -⟩ := mem_candidates.mp hc
      obtain ⟨hmatch, hts⟩ := ih htail
      obtain ⟨hconst, hhead⟩ := (hsub c (hf.has hc) t).mp ht
      obtain ⟨children, rfl, -⟩ := Tree.constituent?_eq_some.mp hconst
      exact ⟨matches_cons.mpr ⟨⟨congrArg Symbol.nonterminal hname, hf start c hc⟩, hmatch⟩,
        List.forall_mem_cons.mpr ⟨hhead, hts⟩⟩

theorem mem_sequences_of_matches (hsub : f.ListsSubtrees subtrees)
    (hmatch : ts.map Tree.symbol = symbols ∧ Tiles start (ts.map Tree.span) stop)
    (hts : ∀ t ∈ ts, t.WellBuilt f.Has f.words ∧ t.NoRepeat) :
    ts ∈ f.sequences subtrees symbols start stop := by
  induction symbols generalizing start ts with
  | nil =>
    obtain rfl := List.map_eq_nil_iff.mp hmatch.1
    exact mem_sequences_nil.mpr ⟨rfl, hmatch.2⟩
  | cons symbol rest ih =>
    obtain ⟨t, tail, rfl, -⟩ := List.map_eq_cons_iff.mp hmatch.1
    obtain ⟨⟨hsymbol, hstart⟩, hrest⟩ := matches_cons.mp hmatch
    obtain ⟨hhead, htail⟩ := List.forall_mem_cons.mp hts
    have hbuilt := fun u hu => (htail u hu).1
    have hle := Tree.le_of_tiles_wellBuilt hrest.2 hbuilt
    cases symbol with
    | terminal word =>
      obtain ⟨span, rfl⟩ := Tree.symbol_eq_terminal.mp hsymbol
      cases hhead.1 with
      | @leaf _ place hword =>
        obtain rfl : place = start := hstart
        exact mem_sequences_terminal.mpr ⟨⟨hle, hword⟩, tail, ih hrest htail, rfl⟩
    | nonterminal name =>
      obtain ⟨span, children, rfl⟩ := Tree.symbol_eq_nonterminal.mp hsymbol
      obtain rfl : span.start = start := hstart
      have hhas := hhead.1.constituent rfl
      have hcovers := covers_of_wellBuilt hrest.1 hrest.2 hbuilt
      exact mem_sequences_nonterminal.mpr ⟨_, mem_candidates.mpr ⟨hhas, hle, rfl, hcovers⟩, _,
        (hsub _ hhas _).mpr ⟨rfl, hhead⟩, tail, ih hrest htail, rfl⟩

/-- The sequences are the lists of trees without repetition that match the symbols and tile the part
of the sentence. -/
theorem mem_sequences (hf : f.Aligned) (hsub : f.ListsSubtrees subtrees) :
    ts ∈ f.sequences subtrees symbols start stop ↔
      (ts.map Tree.symbol = symbols ∧ Tiles start (ts.map Tree.span) stop) ∧
        ∀ t ∈ ts, t.WellBuilt f.Has f.words ∧ t.NoRepeat :=
  ⟨matches_of_mem_sequences hf hsub, fun h => mem_sequences_of_matches hsub h.1 h.2⟩

end Sequences

/-! ### Trees -/

/-- The trees of a constituent, where the depth allowed is enough for the forest. -/
theorem mem_treesWithin (hf : f.Aligned) (hc : f.Has c) {depth : Nat} (hdepth : f.size ≤ depth)
    {t : Tree} : t ∈ treesWithin depth f c ↔
      t.constituent? = some c ∧ t.WellBuilt f.Has f.words ∧ t.NoRepeat := by
  induction depth generalizing f c t with
  | zero =>
    have := size_without_lt hc
    omega
  | succ depth ih =>
    have hsize := size_without_lt hc
    have hwithout : ∀ t : Tree, t.WellBuilt (f.without c).Has f.words ↔
        t.WellBuilt f.Has f.words ∧ t.Avoids c := by
      intro t
      rw [Tree.wellBuilt_and_avoids_iff, show (f.without c).Has = fun x => f.Has x ∧ x ≠ c from
        funext fun x => propext has_without]
    have hsub : (f.without c).ListsSubtrees (treesWithin depth (f.without c)) :=
      fun x hx t => ih (hf.without c) hx (by omega)
    rw [treesWithin, List.mem_map]
    simp only [mem_sequences (hf.without c) hsub, words_without, hwithout]
    rw [Tree.constituent?_eq_some]
    constructor
    · rintro ⟨children, ⟨⟨hsymbols, htiles⟩, hchildren⟩, rfl⟩
      refine ⟨⟨children, rfl, hsymbols⟩, .branch (by rw [hsymbols]; exact hc) htiles
        fun child hchild => (hchildren child hchild).1.1, ?_⟩
      refine Tree.noRepeat_branch.mpr fun child hchild => ⟨(hchildren child hchild).2, ?_⟩
      rw [hsymbols]
      exact (hchildren child hchild).1.2
    · rintro ⟨⟨children, rfl, hsymbols⟩, hbuilt, hno⟩
      cases hbuilt with
      | branch _ htiles hchildren =>
        refine ⟨children, ⟨⟨hsymbols, htiles⟩, fun child hchild => ?_⟩, rfl⟩
        obtain ⟨hno, havoids⟩ := Tree.noRepeat_branch.mp hno child hchild
        rw [hsymbols] at havoids
        exact ⟨⟨hchildren child hchild, havoids⟩, hno⟩

theorem mem_treesOf (hf : f.Aligned) (hc : f.Has c) {t : Tree} :
    t ∈ f.treesOf c ↔ t.constituent? = some c ∧ t.WellBuilt f.Has f.words ∧ t.NoRepeat :=
  mem_treesWithin hf hc (Nat.le_succ _)

theorem mem_trees (hf : f.Aligned) {g : Grammar} {t : Tree} :
    t ∈ f.trees g ↔ t.label? = some g.start ∧ t.span = ⟨0, f.words.length⟩ ∧
      t.WellBuilt f.Has f.words ∧ t.NoRepeat := by
  simp only [trees, roots, List.mem_flatMap, List.mem_filter, Bool.and_eq_true, beq_iff_eq]
  constructor
  · rintro ⟨c, ⟨hc, hstop, hlhs⟩, ht⟩
    obtain ⟨hconst, hbuilt⟩ := (mem_treesOf hf (hf.has hc)).mp ht
    obtain ⟨children, rfl, -⟩ := Tree.constituent?_eq_some.mp hconst
    refine ⟨congrArg some hlhs, ?_, hbuilt⟩
    rw [Tree.span, hf 0 c hc, hstop]
  · rintro ⟨hlabel, hspan, hbuilt⟩
    cases t with
    | leaf => simp [Tree.label?] at hlabel
    | branch label span children =>
      obtain rfl : span = ⟨0, f.words.length⟩ := hspan
      have hhas := hbuilt.1.constituent rfl
      exact ⟨_, ⟨hhas, rfl, Option.some.inj hlabel⟩, (mem_treesOf hf hhas).mpr ⟨rfl, hbuilt⟩⟩

/-! ### Every tree once -/

/-- Lists put one after another have no repetition when none of them has and each element shows
from which of them it comes. -/
theorem nodup_flatMap_of_key {α β γ : Type} {xs : List α} {part : α → List β} (label : α → γ)
    (key : β → γ) (hlabel : (xs.map label).Nodup)
    (hkey : ∀ x ∈ xs, ∀ y ∈ part x, key y = label x) (hpart : ∀ x ∈ xs, (part x).Nodup) :
    (xs.flatMap part).Nodup := by
  rw [List.nodup_flatMap]
  refine ⟨hpart, (List.Pairwise.and_mem.mp (List.pairwise_map.mp hlabel)).imp ?_⟩
  rintro a b ⟨ha, hb, hne⟩ y hya hyb
  exact hne ((hkey a ha y hya).symm.trans (hkey b hb y hyb))

theorem nodup_map_some {α : Type} {xs : List α} (h : xs.Nodup) : (xs.map some).Nodup :=
  h.map fun _ _ hsome => Option.some.inj hsome

theorem map_symbol_of_mem_sequences {subtrees : Constituent → List Tree}
    (hconst : ∀ c, ∀ t ∈ subtrees c, t.constituent? = some c) {symbols : List Symbol}
    {start stop : Nat} {ts : List Tree} (h : ts ∈ f.sequences subtrees symbols start stop) :
    ts.map Tree.symbol = symbols := by
  induction symbols generalizing start ts with
  | nil => rw [(mem_sequences_nil.mp h).1, List.map_nil]
  | cons symbol rest ih =>
    cases symbol with
    | terminal word =>
      obtain ⟨-, tail, htail, rfl⟩ := mem_sequences_terminal.mp h
      rw [List.map_cons, ih htail]
      rfl
    | nonterminal name =>
      obtain ⟨c, hc, t, ht, tail, htail, rfl⟩ := mem_sequences_nonterminal.mp h
      obtain ⟨children, rfl, -⟩ := Tree.constituent?_eq_some.mp (hconst c t ht)
      rw [List.map_cons, ih htail, Tree.symbol, (mem_candidates.mp hc).2.2.1]

/-- A sequence shows its first tree, and a tree its constituent. -/
theorem nodup_sequences (hf : ∀ start, (f.startingAt start).Nodup)
    {subtrees : Constituent → List Tree}
    (hconst : ∀ c, ∀ t ∈ subtrees c, t.constituent? = some c)
    (hnodup : ∀ c, (subtrees c).Nodup) (symbols : List Symbol) (start stop : Nat) :
    (f.sequences subtrees symbols start stop).Nodup := by
  induction symbols generalizing start with
  | nil =>
    rw [sequences]
    split <;> simp
  | cons symbol rest ih =>
    have hcons : ∀ (t : Tree) (middle : Nat),
        ((f.sequences subtrees rest middle stop).map (t :: ·)).Nodup :=
      fun t middle => (ih middle).map fun _ _ h => (List.cons.inj h).2
    cases symbol with
    | terminal word =>
      rw [sequences]
      split
      · exact hcons _ _
      · exact List.nodup_nil
    | nonterminal name =>
      rw [sequences_nonterminal]
      have hcandidates : (f.candidates name rest start stop).Nodup := (hf start).filter _
      refine nodup_flatMap_of_key some (fun ts => ts.head?.bind Tree.constituent?)
        (nodup_map_some hcandidates) (fun c _ ts hts => ?_) fun c _ => ?_
      · obtain ⟨t, ht, hts⟩ := List.mem_flatMap.mp hts
        obtain ⟨tail, -, rfl⟩ := List.mem_map.mp hts
        exact hconst c t ht
      · refine nodup_flatMap_of_key some List.head? (nodup_map_some (hnodup c))
          (fun t _ ts hts => ?_) fun t _ => hcons t c.stop
        obtain ⟨tail, -, rfl⟩ := List.mem_map.mp hts
        rfl

theorem constituent?_of_mem_treesWithin {depth : Nat} {t : Tree} (h : t ∈ treesWithin depth f c) :
    t.constituent? = some c := by
  induction depth generalizing f c t with
  | zero => simp [treesWithin] at h
  | succ depth ih =>
    rw [treesWithin] at h
    obtain ⟨children, hchildren, rfl⟩ := List.mem_map.mp h
    have hsymbols := map_symbol_of_mem_sequences (fun x u hu => ih hu) hchildren
    exact Tree.constituent?_eq_some.mpr ⟨children, rfl, hsymbols⟩

theorem nodup_treesWithin (hf : ∀ start, (f.startingAt start).Nodup) (depth : Nat)
    (c : Constituent) : (treesWithin depth f c).Nodup := by
  induction depth generalizing f c with
  | zero => exact List.nodup_nil
  | succ depth ih =>
    have hbelow := nodup_startingAt_without hf c
    rw [treesWithin]
    refine (nodup_sequences hbelow (fun x t => constituent?_of_mem_treesWithin)
      (fun x => ih hbelow x) _ _ _).map fun _ _ h => ?_
    injection h

theorem nodup_trees (hf : ∀ start, (f.startingAt start).Nodup) (g : Grammar) :
    (f.trees g).Nodup :=
  nodup_flatMap_of_key some Tree.constituent? (nodup_map_some ((hf 0).filter _))
    (fun _ _ _ => constituent?_of_mem_treesWithin) fun c _ => nodup_treesWithin hf _ c

end PhraseStructure.Forest
