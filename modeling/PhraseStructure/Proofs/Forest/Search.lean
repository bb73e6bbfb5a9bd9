import PhraseStructure.Proofs.Forest.OfChart

/-! The search for the trees of a forest, with its accesses and its depth checked.  It leaves the
forest as it is and keeps the constituents above the present one in a list instead, so as not to go
into one of them again.  Reading a word that is not there is a fault, and so is going deeper than
allowed.

Neither happens.  The part that is searched ends within the words, since it does for a root and a
constituent is only looked at if it ends within the part.  The constituents above the present one
are different ones of the forest, so that there are never more of them than the forest has.  What
the search gives are the trees of `Forest.trees`, whose paths are bounded in the same way. -/

namespace PhraseStructure.Forest

open Relation

/-- Why a search is given up. -/
inductive Fault where
  | outOfRange (error : OutOfRange)
  | tooDeep

/-! ### The search -/

def wordAt (f : Forest) (k : Nat) : Except Fault String :=
  match f.words[k]? with
  | none => .error (.outOfRange ⟨f.words.length, k⟩)
  | some word => .ok word

/-- The parts that a computation gives for the elements of a list, one after another. -/
def collect {α β : Type} (part : α → Except Fault (List β)) : List α → Except Fault (List β)
  | [] => .ok []
  | x :: xs => do
    let first ← part x
    let rest ← collect part xs
    return first ++ rest

/-- Whether constituents and words can cover the part up to `stop`. -/
def canCover (f : Forest) (stop : Nat) : List Symbol → Nat → Except Fault Bool
  | [], start => .ok (start == stop)
  | .terminal word :: rest, start =>
    if start < stop then do
      let found ← f.wordAt start
      if found = word then f.canCover stop rest (start + 1) else return false
    else
      .ok false
  | .nonterminal name :: rest, start =>
    (f.startingAt start).anyM fun c =>
      if c.stop ≤ stop ∧ c.rule.lhs = name then f.canCover stop rest c.stop else .ok false

/-- The sequences of trees that match the symbols up to `stop`, with no constituent in `above` as
the root of one. -/
def fill (f : Forest) (subtrees : Constituent → Except Fault (List Tree))
    (above : List Constituent) (stop : Nat) : List Symbol → Nat → Except Fault (List (List Tree))
  | [], start => .ok (if start = stop then [[]] else [])
  | .terminal word :: rest, start =>
    if start < stop then do
      let found ← f.wordAt start
      if found = word then
        let tails ← f.fill subtrees above stop rest (start + 1)
        return tails.map (.leaf word ⟨start, start + 1⟩ :: ·)
      else
        return []
    else
      .ok []
  | .nonterminal name :: rest, start =>
    (f.startingAt start).filter (fun c => c.stop ≤ stop ∧ c.rule.lhs = name) |> collect fun c => do
      let coverable ← f.canCover stop rest c.stop
      if coverable ∧ c ∉ above then
        let trees ← subtrees c
        trees |> collect fun tree => do
          let tails ← f.fill subtrees above stop rest c.stop
          return tails.map (tree :: ·)
      else
        return []

/-- The trees of a constituent below those in `above`, with at most `depth` branches on a path. -/
def grow (f : Forest) : Nat → List Constituent → Constituent → Except Fault (List Tree)
  | 0, _, _ => .error .tooDeep
  | depth + 1, above, c => do
    let sequences ← f.fill (f.grow depth (c :: above)) (c :: above) c.stop c.rule.rhs c.start
    return sequences.map (branch c)

/-- The trees of the whole sentence, with at most `depth` branches on a path. -/
def search (f : Forest) (depth : Nat) (g : Grammar) : Except Fault (List Tree) :=
  collect (f.grow depth []) (f.roots g.start)

/-- The different constituents, each once. -/
def constituents (f : Forest) : List Constituent := f.rows.flatten.eraseDups

variable {f below : Forest} {above : List Constituent} {c : Constituent}

theorem mem_constituents_of_mem {start : Nat} (h : c ∈ f.startingAt start) :
    c ∈ f.constituents := by
  rw [constituents, List.mem_eraseDups, List.mem_flatten]
  rw [startingAt] at h
  cases hrow : f.rows[start]? with
  | none => simp [hrow] at h
  | some row =>
    rw [hrow, Option.getD_some] at h
    exact ⟨row, List.mem_of_getElem? hrow, h⟩

/-! ### Nothing is read past the words -/

theorem wordAt_eq {k : Nat} {word : String} (h : f.words[k]? = some word) :
    f.wordAt k = .ok word := by
  rw [wordAt, h]

theorem collect_eq {α β : Type} {part : α → Except Fault (List β)} {value : α → List β}
    {xs : List α} (h : ∀ x ∈ xs, part x = .ok (value x)) :
    collect part xs = .ok (xs.flatMap value) := by
  induction xs with
  | nil => rfl
  | cons x xs ih =>
    obtain ⟨hx, hxs⟩ := List.forall_mem_cons.mp h
    rw [collect, hx, ih hxs, List.flatMap_cons]
    rfl

theorem anyM_eq {α : Type} {test : α → Except Fault Bool} {value : α → Bool} {xs : List α}
    (h : ∀ x ∈ xs, test x = .ok (value x)) : xs.anyM test = .ok (xs.any value) := by
  induction xs with
  | nil => rfl
  | cons x xs ih =>
    obtain ⟨hx, hxs⟩ := List.forall_mem_cons.mp h
    rw [List.anyM, hx, List.any_cons]
    show (match value x with | true => _ | false => _) = _
    cases value x with
    | true => rfl
    | false => exact ih hxs

theorem canCover_eq {stop : Nat} (hstop : stop ≤ f.words.length) (symbols : List Symbol)
    (start : Nat) : f.canCover stop symbols start = .ok (f.covers symbols start stop) := by
  induction symbols generalizing start with
  | nil =>
    rw [canCover, Except.ok.injEq, Bool.eq_iff_iff, covers_nil, beq_iff_eq]
  | cons symbol rest ih =>
    cases symbol with
    | terminal word =>
      rw [canCover]
      by_cases hlt : start < stop
      · have hword := List.getElem?_eq_getElem (Nat.lt_of_lt_of_le hlt hstop)
        rw [if_pos hlt, wordAt_eq hword]
        show (if _ = word then _ else _) = _
        split
        · next h => 
          rw [ih, Except.ok.injEq, Bool.eq_iff_iff, covers_terminal]
          simp [hlt, hword, h]
        · next h =>
          show Except.ok false = _
          rw [Except.ok.injEq, eq_comm, Bool.eq_false_iff, ne_eq, covers_terminal]
          simp [hword, h]
      · rw [if_neg hlt, Except.ok.injEq, eq_comm, Bool.eq_false_iff, ne_eq, covers_terminal]
        exact fun h => hlt h.1
    | nonterminal name =>
      have htest : ∀ c ∈ f.startingAt start,
          (if c.stop ≤ stop ∧ c.rule.lhs = name then f.canCover stop rest c.stop
            else .ok false) =
          .ok (decide (c.stop ≤ stop ∧ c.rule.lhs = name) && f.covers rest c.stop stop) := by
        intro c _
        split
        · next h => rw [ih, decide_eq_true h, Bool.true_and]
        · next h => rw [decide_eq_false h, Bool.false_and]
      rw [canCover, anyM_eq htest, Except.ok.injEq, Bool.eq_iff_iff, covers_nonterminal]
      simp [and_assoc]

/-! ### The search and the forest without what is above -/

/-- The forest below is the other one without the constituents above. -/
structure Lacks (f below : Forest) (above : List Constituent) : Prop where
  words_eq : below.words = f.words
  startingAt_eq : ∀ start,
    below.startingAt start = (f.startingAt start).filter fun c => c ∉ above

theorem Lacks.nil (f : Forest) : f.Lacks f [] := ⟨rfl, by simp⟩

theorem Lacks.without (hf : f.Aligned) (h : f.Lacks below above) (c : Constituent) :
    f.Lacks (below.without c) (c :: above) where
  words_eq := h.words_eq
  startingAt_eq start := by
    rw [startingAt_without, h.startingAt_eq]
    split
    · rw [List.filter_filter]
      refine List.filter_congr fun x _ => ?_
      rw [Bool.eq_iff_iff]
      simp
    · next hne =>
      refine List.filter_congr fun x hx => ?_
      have hxc : x ≠ c := fun hxc => hne (hxc ▸ hf start x hx).symm
      simp [hxc]

theorem Lacks.has_iff (h : f.Lacks below above) : below.Has c ↔ f.Has c ∧ c ∉ above := by
  rw [Has, h.startingAt_eq, List.mem_filter, decide_eq_true_iff]
  rfl

theorem covers_of_lacks (h : f.Lacks below above) {symbols : List Symbol} {start stop : Nat}
    (hcovers : below.covers symbols start stop) : f.covers symbols start stop := by
  induction symbols generalizing start with
  | nil => simpa using hcovers
  | cons symbol rest ih =>
    cases symbol with
    | terminal word =>
      obtain ⟨hlt, hword, hrest⟩ := covers_terminal.mp hcovers
      exact covers_terminal.mpr ⟨hlt, h.words_eq ▸ hword, ih hrest⟩
    | nonterminal name =>
      obtain ⟨c, hc, hstop, hname, hrest⟩ := covers_nonterminal.mp hcovers
      rw [h.startingAt_eq] at hc
      exact covers_nonterminal.mpr ⟨c, List.mem_of_mem_filter hc, hstop, hname, ih hrest⟩

/-- Where nothing covers the part, there are no sequences for it. -/
theorem sequences_eq_nil {subtrees : Constituent → List Tree} {symbols : List Symbol}
    {start stop : Nat} (h : ¬f.covers symbols start stop) :
    f.sequences subtrees symbols start stop = [] := by
  rw [List.eq_nil_iff_forall_not_mem]
  intro ts hts
  apply h
  clear h
  induction symbols generalizing start ts with
  | nil => exact covers_nil.mpr (mem_sequences_nil.mp hts).2
  | cons symbol rest ih =>
    cases symbol with
    | terminal word =>
      obtain ⟨⟨hlt, hword⟩, tail, htail, -⟩ := mem_sequences_terminal.mp hts
      exact covers_terminal.mpr ⟨hlt, hword, ih tail htail⟩
    | nonterminal name =>
      obtain ⟨c, hc, -⟩ := mem_sequences_nonterminal.mp hts
      exact covers_nonterminal.mpr ⟨c, mem_candidates.mp hc⟩

theorem flatMap_filter {α β : Type} (test : α → Bool) (part : α → List β) (xs : List α) :
    (xs.filter test).flatMap part = xs.flatMap fun x => if test x then part x else [] := by
  induction xs with
  | nil => rfl
  | cons x xs ih =>
    rw [List.filter_cons, List.flatMap_cons, ← ih]
    split
    · rw [List.flatMap_cons]
    · rfl

/-- The candidates can be chosen with whatever look-ahead lets those of the forest without what is
above pass, and what is above can be left out afterwards.  It comes to the same, because a candidate
that only passes the one test has nothing after it. -/
theorem flatMap_candidates (h : f.Lacks below above) {subtrees : Constituent → List Tree}
    {name : String} {rest : List Symbol} {stop : Nat} {ahead : Constituent → Prop}
    [DecidablePred ahead] (hahead : ∀ c, below.covers rest c.stop stop → ahead c) (start : Nat) :
    (((f.startingAt start).filter fun c => c.stop ≤ stop ∧ c.rule.lhs = name).flatMap fun c =>
      if ahead c ∧ c ∉ above then
        (subtrees c).flatMap fun tree =>
          (below.sequences subtrees rest c.stop stop).map (tree :: ·)
      else []) =
    below.sequences subtrees (.nonterminal name :: rest) start stop := by
  rw [sequences_nonterminal, candidates, h.startingAt_eq, flatMap_filter, flatMap_filter,
    flatMap_filter]
  refine List.flatMap_congr fun c _ => ?_
  by_cases hcovers : below.covers rest c.stop stop
  · have hpasses := hahead c hcovers
    by_cases htest : c.stop ≤ stop ∧ c.rule.lhs = name
    · simp [htest, hcovers, hpasses]
    · grind
  · have hnone : ((subtrees c).flatMap fun tree =>
        (below.sequences subtrees rest c.stop stop).map (tree :: ·)) = [] := by
      simp [sequences_eq_nil hcovers, List.flatMap_eq_nil_iff]
    simp only [hnone, ite_self]

/-- Where the part ends within the words, the search below the constituents above gives the
sequences of the forest without these, if the subtrees are those of this forest. -/
theorem fill_eq (hf : f.Aligned) (h : f.Lacks below above)
    {subtrees : Constituent → Except Fault (List Tree)} {trees : Constituent → List Tree}
    (hsub : ∀ c, below.Has c → c.stop ≤ f.words.length → subtrees c = .ok (trees c))
    {stop : Nat} (hstop : stop ≤ f.words.length) (symbols : List Symbol) (start : Nat) :
    f.fill subtrees above stop symbols start = .ok (below.sequences trees symbols start stop) := by
  induction symbols generalizing start with
  | nil => rw [fill, sequences]
  | cons symbol rest ih =>
    cases symbol with
    | terminal word =>
      rw [fill, sequences, h.words_eq]
      by_cases hlt : start < stop
      · have hword := List.getElem?_eq_getElem (Nat.lt_of_lt_of_le hlt hstop)
        rw [if_pos hlt, wordAt_eq hword, ih]
        simp only [hlt, hword, true_and, Option.some.injEq]
        show (if _ = word then _ else _) = _
        split <;> rfl
      · simp [hlt]
    | nonterminal name =>
      rw [fill, ← flatMap_candidates h fun c => covers_of_lacks h]
      refine collect_eq fun c hc => ?_
      obtain ⟨hc, htest⟩ := List.mem_filter.mp hc
      rw [decide_eq_true_iff] at htest
      rw [canCover_eq hstop]
      show (if f.covers rest c.stop stop ∧ c ∉ above then _ else _) = _
      split
      · next hcandidate =>
        have hhas := h.has_iff.mpr ⟨hf.has hc, hcandidate.2⟩
        rw [hsub c hhas (Nat.le_trans htest.1 hstop)]
        refine collect_eq fun tree _ => ?_
        rw [ih]
        rfl
      · rfl

/-! ### The depth -/

/-- The constituents that the search is below: different ones of the forest. -/
structure IsPath (f : Forest) (above : List Constituent) : Prop where
  nodup : above.Nodup
  has : ∀ c ∈ above, f.Has c

theorem IsPath.length_le (h : f.IsPath above) : above.length ≤ f.constituents.length :=
  (List.subperm_of_subset h.nodup fun c hc => mem_constituents_of_mem (h.has c hc)).length_le

theorem IsPath.cons (h : f.IsPath above) (hc : f.Has c) (hnew : c ∉ above) :
    f.IsPath (c :: above) :=
  ⟨List.nodup_cons.mpr ⟨hnew, h.nodup⟩, List.forall_mem_cons.mpr ⟨hc, h.has⟩⟩

/-- The depth is enough when together with what is above it comes to the number of constituents. -/
theorem grow_eq (hf : f.Aligned) (h : f.Lacks below above) (hpath : f.IsPath above) {depth : Nat}
    (hdepth : f.constituents.length ≤ depth + above.length) (hc : below.Has c)
    (hstop : c.stop ≤ f.words.length) {enough : Nat} (henough : below.size ≤ enough) :
    f.grow depth above c = .ok (treesWithin enough below c) := by
  induction depth generalizing below above c enough with
  | zero =>
    obtain ⟨hhas, hnew⟩ := h.has_iff.mp hc
    have := (hpath.cons hhas hnew).length_le
    rw [List.length_cons] at this
    omega
  | succ depth ih =>
    obtain ⟨hhas, hnew⟩ := h.has_iff.mp hc
    have hsize := size_without_lt hc
    cases enough with
    | zero => omega
    | succ enough =>
      have hbelow := h.without hf c
      have hdeeper : f.constituents.length ≤ depth + (c :: above).length := by
        rw [List.length_cons]
        omega
      have hsub : ∀ child, (below.without c).Has child → child.stop ≤ f.words.length →
          f.grow depth (c :: above) child = .ok (treesWithin enough (below.without c) child) :=
        fun child hchild hend =>
          ih hbelow (hpath.cons hhas hnew) hdeeper hchild hend (by omega)
      rw [grow, treesWithin, fill_eq hf hbelow hsub hstop]
      rfl

theorem search_eq (hf : f.Aligned) (g : Grammar) {depth : Nat}
    (hdepth : f.constituents.length ≤ depth) : f.search depth g = .ok (f.trees g) := by
  rw [search, trees]
  refine collect_eq fun c hc => ?_
  obtain ⟨hc, htest⟩ := List.mem_filter.mp hc
  have hstop : c.stop = f.words.length := by
    rw [Bool.and_eq_true, beq_iff_eq] at htest
    exact htest.1
  exact grow_eq hf (Lacks.nil f) ⟨List.nodup_nil, by simp⟩ hdepth (hf.has hc)
    (Nat.le_of_eq hstop) (Nat.le_succ _)

/-- Going down a tree without repetition meets different constituents of the forest, so that it
passes no more branches than there are. -/
theorem length_branches_le {t : Tree} (hbuilt : t.WellBuilt f.Has f.words) (hno : t.NoRepeat)
    {path : List Tree} (hpath : (t :: path).IsChain fun upper lower => lower.IsChild upper) :
    ((t :: path).filter Tree.isBranch).length ≤ f.constituents.length := by
  have htrans : IsTrans Tree fun upper lower => Tree.Below lower upper :=
    ⟨fun _ _ _ h h' => h'.trans h⟩
  have hchain : (t :: path).IsChain fun upper lower => Tree.Below lower upper :=
    hpath.imp fun _ _ h => TransGen.single h
  have hbelow := hchain.pairwise
  have hwithin : ∀ u ∈ t :: path, u.Within t := by
    intro u hu
    rcases List.mem_cons.mp hu with rfl | hu
    · exact ReflTransGen.refl
    · exact ((List.pairwise_cons.mp hbelow).1 u hu).to_reflTransGen
  have hbranches : ((t :: path).filter Tree.isBranch).length =
      ((t :: path).filterMap Tree.constituent?).length := by
    rw [List.length_filterMap_eq_countP, List.countP_eq_length_filter]
    congr 2
    funext u
    cases u <;> rfl
  have hnodup : ((t :: path).filterMap Tree.constituent?).Nodup := by
    rw [List.Nodup, List.pairwise_filterMap]
    refine (List.Pairwise.and_mem.mp hbelow).imp ?_
    rintro upper lower ⟨hupper, -, h⟩ c hc d hd rfl
    exact hno upper (hwithin upper hupper) lower h (hd.trans hc.symm)
  rw [hbranches]
  refine (List.subperm_of_subset hnodup fun c hc => ?_).length_le
  obtain ⟨u, hu, hconst⟩ := List.mem_filterMap.mp hc
  exact mem_constituents_of_mem ((hbuilt.of_within (hwithin u hu)).constituent hconst)

/-- From whatever chart in which every item begins, the search ends with the trees of its forest,
reads no word that is not there and does not go deeper than the forest has constituents.  No path
in a tree has more branches than that. -/
theorem search_ends_in_range (g : Grammar) (chart : Chart)
    (h : ∀ items ∈ chart.sets, ∀ item ∈ items, item.origin < chart.length) (words : List String) :
    ∃ f, ofChart? chart words = .ok f ∧
      (∀ depth, f.constituents.length ≤ depth → f.search depth g = .ok (f.trees g)) ∧
      ∀ t ∈ f.trees g, ∀ path : List Tree,
        (t :: path).IsChain (fun upper lower => lower.IsChild upper) →
        ((t :: path).filter Tree.isBranch).length ≤ f.constituents.length := by
  have hf := aligned_ofChart chart words
  refine ⟨ofChart chart words, ofChart?_eq_of_origins h words, fun depth => search_eq hf g,
    fun t ht path hpath => ?_⟩
  obtain ⟨-, -, hbuilt, hno⟩ := (mem_trees hf).mp ht
  exact length_branches_le hbuilt hno hpath

/-- A chart with dots past the end of their rule, with spans that run backwards and with a rule
complete over nothing below itself. -/
def loopingChart : Chart where
  sets := [[⟨0, 0, ⟨"S", []⟩⟩, ⟨0, 2, ⟨"S", [.nonterminal "S", .nonterminal "S"]⟩⟩,
      ⟨2, 2, ⟨"S", [.nonterminal "S", .nonterminal "S"]⟩⟩],
    [⟨0, 1, ⟨"S", [.terminal "x"]⟩⟩, ⟨0, 3, ⟨"S", [.terminal "x"]⟩⟩,
      ⟨0, 2, ⟨"S", [.nonterminal "S", .nonterminal "S"]⟩⟩], []]
  nodup := by decide

/-- A branch over nothing without children. -/
def hollow : Tree := .branch "S" ⟨0, 0⟩ []

/-- A branch over nothing with two branches below it. -/
def pairedHollow : Tree := .branch "S" ⟨0, 0⟩ [hollow, hollow]

/-- A tree with a path down through three constituents. -/
def looped : Tree :=
  .branch "S" ⟨0, 1⟩ [pairedHollow, .branch "S" ⟨0, 1⟩ [.leaf "x" ⟨0, 1⟩]]

theorem search_ends_in_range_looping :
    (∀ items ∈ loopingChart.sets, ∀ item ∈ items, item.origin < loopingChart.length) ∧
    ∃ f, ofChart? loopingChart ["x"] = .ok f ∧ f.constituents.length = 5 ∧
      (∀ depth, 5 ≤ depth →
        f.search depth Grammar.looping = .ok (f.trees Grammar.looping)) ∧
      (∀ t ∈ f.trees Grammar.looping, ∀ path : List Tree,
        (t :: path).IsChain (fun upper lower => lower.IsChild upper) →
        ((t :: path).filter Tree.isBranch).length ≤ 5) ∧
      looped ∈ f.trees Grammar.looping ∧
      [looped, pairedHollow, hollow].IsChain (fun upper lower => lower.IsChild upper) ∧
      ([looped, pairedHollow, hollow].filter Tree.isBranch).length = 3 := by
  have horigins : ∀ items ∈ loopingChart.sets, ∀ item ∈ items,
      item.origin < loopingChart.length := by decide
  obtain ⟨f, hf, hsearch, hpaths⟩ :=
    search_ends_in_range Grammar.looping loopingChart horigins ["x"]
  obtain rfl : ofChart loopingChart ["x"] = f :=
    Except.ok.inj ((ofChart?_eq_of_origins horigins ["x"]).symm.trans hf)
  have hconstituents : (ofChart loopingChart ["x"]).constituents.length = 5 := by decide +kernel
  rw [hconstituents] at hsearch hpaths
  refine ⟨horigins, _, hf, hconstituents, hsearch, hpaths, by decide +kernel, ?_, by decide⟩
  simp [List.isChain_cons_cons, looped, pairedHollow, Tree.IsChild, Tree.children]

end PhraseStructure.Forest
