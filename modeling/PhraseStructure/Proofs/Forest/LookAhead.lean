import PhraseStructure.Proofs.Forest.Search
import PhraseStructure.Proofs.Parse

/-! What looking ahead does to the search for trees.  `sequencesBy` and `treesBy` search below the
constituents in a list, with a look-ahead that is given to them: before the search goes into a
constituent it asks whether the symbols after it may cover what is left.  As long as the look-ahead
lets pass what the forest can cover it makes no difference, not even to the order of the results,
because what it stops has nothing after it.  So the search with the look-ahead in the forest is the
search without any, and both are what the forest lists when what is above is taken out.

In the forest of a sentence the look-ahead is exact, because every constituent there has a tree. -/

namespace PhraseStructure.Forest

/-- Whether symbols may cover the part from one position up to another. -/
abbrev LookAhead := List Symbol → Nat → Nat → Bool

/-- The look-ahead that lets everything pass. -/
def noLookAhead : LookAhead := fun _ _ _ => true

/-- The sequences of trees that match the symbols and follow one another from `start` to `stop`,
with no constituent in `above` as the root of one.  The search only goes into a constituent if
`ahead` lets pass the symbols after it. -/
def sequencesBy (f : Forest) (ahead : LookAhead) (above : List Constituent)
    (subtrees : Constituent → List Tree) : List Symbol → Nat → Nat → List (List Tree)
  | [], start, stop => if start = stop then [[]] else []
  | .terminal word :: rest, start, stop =>
    if start < stop ∧ f.words[start]? = some word then
      (f.sequencesBy ahead above subtrees rest (start + 1) stop).map
        (.leaf word ⟨start, start + 1⟩ :: ·)
    else
      []
  | .nonterminal name :: rest, start, stop =>
    (f.startingAt start).filter (fun c => c.stop ≤ stop ∧ c.rule.lhs = name) |>.flatMap fun c =>
      if ahead rest c.stop stop ∧ c ∉ above then
        (subtrees c).flatMap fun tree =>
          (f.sequencesBy ahead above subtrees rest c.stop stop).map (tree :: ·)
      else
        []

/-- The trees of a constituent below those in `above` that have at most `depth` branches on a
path. -/
def treesBy (f : Forest) (ahead : LookAhead) : Nat → List Constituent → Constituent → List Tree
  | 0, _, _ => []
  | depth + 1, above, c =>
    (f.sequencesBy ahead (c :: above) (f.treesBy ahead depth (c :: above))
      c.rule.rhs c.start c.stop).map (branch c)

/-- The sequences of trees that complete a rule from a dot on, with no constituent in `above` as the
root of one and with at most `depth` branches on a path. -/
def completions (f : Forest) (ahead : LookAhead) (depth : Nat) (above : List Constituent)
    (rule : Rule) (dot start stop : Nat) : List (List Tree) :=
  f.sequencesBy ahead above (f.treesBy ahead depth above) (rule.rhs.drop dot) start stop

/-- The forest without the constituents in a list. -/
def withoutAll (f : Forest) (above : List Constituent) : Forest :=
  above.foldr (fun c below => below.without c) f

variable {f below : Forest} {above : List Constituent} {ahead : LookAhead}
  {subtrees subtrees' : Constituent → List Tree} {symbols : List Symbol} {start stop : Nat}

theorem aligned_withoutAll (hf : f.Aligned) (above : List Constituent) :
    (f.withoutAll above).Aligned := by
  induction above with
  | nil => exact hf
  | cons c above ih => exact ih.without c

theorem lacks_withoutAll (hf : f.Aligned) (above : List Constituent) :
    f.Lacks (f.withoutAll above) above := by
  induction above with
  | nil => exact Lacks.nil f
  | cons c above ih => exact ih.without hf c

/-! ### The look-ahead makes no difference -/

/-- With a look-ahead that lets pass what the forest covers, the search gives the sequences of the
forest without what is above. -/
theorem sequencesBy_eq (hf : f.Aligned) (h : f.Lacks below above)
    (hahead : ∀ symbols start stop, f.covers symbols start stop → ahead symbols start stop)
    (hsub : ∀ c, below.Has c → subtrees c = subtrees' c) (symbols : List Symbol)
    (start stop : Nat) :
    f.sequencesBy ahead above subtrees symbols start stop =
      below.sequences subtrees' symbols start stop := by
  induction symbols generalizing start with
  | nil => rw [sequencesBy, sequences]
  | cons symbol rest ih =>
    cases symbol with
    | terminal word => rw [sequencesBy, sequences, h.words_eq, ih]
    | nonterminal name =>
      have hpasses : ∀ c : Constituent, below.covers rest c.stop stop → ahead rest c.stop stop :=
        fun c hcovers => hahead rest c.stop stop (covers_of_lacks h hcovers)
      rw [sequencesBy, ← flatMap_candidates h hpasses]
      refine List.flatMap_congr fun c hc => ?_
      split
      · next hcandidate =>
        have hhas := h.has_iff.mpr ⟨hf.has (List.mem_of_mem_filter hc), hcandidate.2⟩
        rw [hsub c hhas, ih]
      · rfl

theorem treesBy_eq (hf : f.Aligned) (h : f.Lacks below above)
    (hahead : ∀ symbols start stop, f.covers symbols start stop → ahead symbols start stop)
    (depth : Nat) (c : Constituent) :
    f.treesBy ahead depth above c = treesWithin depth below c := by
  induction depth generalizing below above c with
  | zero => rfl
  | succ depth ih =>
    have hbelow := h.without hf c
    rw [treesBy, treesWithin, sequencesBy_eq hf hbelow hahead fun child _ => ih hbelow child]

/-- The sequences depend on the subtrees of the constituents that are there. -/
theorem sequences_congr (hf : f.Aligned) (hsub : ∀ c, f.Has c → subtrees c = subtrees' c)
    (symbols : List Symbol) (start stop : Nat) :
    f.sequences subtrees symbols start stop = f.sequences subtrees' symbols start stop := by
  have hcovers : ∀ symbols start stop, f.covers symbols start stop → f.covers symbols start stop :=
    fun _ _ _ => id
  rw [← sequencesBy_eq hf (Lacks.nil f) hcovers hsub,
    sequencesBy_eq hf (Lacks.nil f) hcovers fun _ _ => rfl]

/-- No more depth is needed than the forest has constituents. -/
theorem treesWithin_eq (hf : f.Aligned) {c : Constituent} (hc : f.Has c) {m n : Nat}
    (hm : f.size ≤ m) (hn : f.size ≤ n) : treesWithin m f c = treesWithin n f c := by
  have hsize := size_without_lt hc
  induction m generalizing n f c with
  | zero => omega
  | succ m ih =>
    cases n with
    | zero => omega
    | succ n =>
      rw [treesWithin, treesWithin]
      have hsub : ∀ x, (f.without c).Has x →
          treesWithin m (f.without c) x = treesWithin n (f.without c) x := fun x hx =>
        ih (hf.without c) hx (by omega) (by omega) (size_without_lt hx)
      rw [sequences_congr (hf.without c) hsub]

/-- The completions are those that the forest without what is above lists, with any look-ahead that
lets pass what the forest covers. -/
theorem completions_eq (hf : f.Aligned)
    (hahead : ∀ symbols start stop, f.covers symbols start stop → ahead symbols start stop)
    {depth : Nat} (hdepth : (f.withoutAll above).size ≤ depth) (rule : Rule)
    (dot start stop : Nat) :
    f.completions ahead depth above rule dot start stop =
      (f.withoutAll above).sequences (f.withoutAll above).treesOf (rule.rhs.drop dot) start
        stop := by
  have h := lacks_withoutAll hf above
  refine sequencesBy_eq hf h hahead (fun c hc => ?_) _ start stop
  rw [treesBy_eq hf h hahead]
  exact treesWithin_eq (aligned_withoutAll hf above) hc hdepth (Nat.le_succ _)

/-! ### The look-ahead is exact where every constituent has a tree -/

theorem sequences_ne_nil (hf : f.Aligned) (hsub : ∀ c, f.Has c → subtrees c ≠ [])
    (h : f.covers symbols start stop) : f.sequences subtrees symbols start stop ≠ [] := by
  induction symbols generalizing start with
  | nil =>
    rw [sequences, if_pos (covers_nil.mp h)]
    exact List.cons_ne_nil _ _
  | cons symbol rest ih =>
    cases symbol with
    | terminal word =>
      obtain ⟨hlt, hword, hrest⟩ := covers_terminal.mp h
      rw [sequences, if_pos ⟨hlt, hword⟩]
      exact fun hnil => ih hrest (List.map_eq_nil_iff.mp hnil)
    | nonterminal name =>
      obtain ⟨c, hc, hstop, hname, hrest⟩ := covers_nonterminal.mp h
      obtain ⟨t, ht⟩ := List.exists_mem_of_ne_nil _ (hsub c (hf.has hc))
      obtain ⟨tail, htail⟩ := List.exists_mem_of_ne_nil _ (ih hrest)
      have hcandidate := mem_candidates.mpr ⟨hc, hstop, hname, hrest⟩
      exact List.ne_nil_of_mem
        (mem_sequences_nonterminal.mpr ⟨c, hcandidate, t, ht, tail, htail, rfl⟩)

theorem covers_iff_sequences_ne_nil (hf : f.Aligned) (hsub : ∀ c, f.Has c → subtrees c ≠ []) :
    f.covers symbols start stop ↔ f.sequences subtrees symbols start stop ≠ [] :=
  ⟨sequences_ne_nil hf hsub, fun h => Decidable.not_not.mp fun hn => h (sequences_eq_nil hn)⟩

/-- In the forest of any chart in which every item begins, and below whatever constituents, a rule
has the same completions in the same order with the look-ahead and without it: those of the forest
without what is above.  In the forest of a sentence what is left of a rule passes the look-ahead
exactly when it has a completion. -/
theorem completions_lookAhead (g : Grammar) (chart : Chart)
    (h : ∀ items ∈ chart.sets, ∀ item ∈ items, item.origin < chart.length)
    (tokens words : List String) (hne : words ≠ []) (hwords : "" ∉ words) :
    (∃ f, ofChart? chart tokens = .ok f ∧
      ∀ (rule : Rule) (dot start stop : Nat) (above : List Constituent) (depth : Nat),
        (f.withoutAll above).size ≤ depth →
        f.completions f.covers depth above rule dot start stop =
          f.completions noLookAhead depth above rule dot start stop ∧
        f.completions f.covers depth above rule dot start stop =
          (f.withoutAll above).sequences (f.withoutAll above).treesOf (rule.rhs.drop dot) start
            stop) ∧
    ∃ f, g.forest words = .ok f ∧
      ∀ (rule : Rule) (dot start stop : Nat) (depth : Nat), f.size ≤ depth →
        (f.covers (rule.rhs.drop dot) start stop ↔
          f.completions f.covers depth [] rule dot start stop ≠ []) := by
  refine ⟨⟨_, ofChart?_eq_of_origins h tokens, fun rule dot start stop above depth hdepth => ?_⟩,
    _, Grammar.forest_eq g hne hwords, fun rule dot start stop depth hdepth => ?_⟩
  · have hf := aligned_ofChart chart tokens
    have hcovers := completions_eq hf (fun _ _ _ => id) hdepth rule dot start stop
    refine ⟨hcovers.trans ?_, hcovers⟩
    exact (completions_eq hf (fun _ _ _ _ => rfl) hdepth rule dot start stop).symm
  · have hf := aligned_ofChart (Chart.build g words) words
    rw [completions_eq hf (fun _ _ _ => id) hdepth]
    exact covers_iff_sequences_ne_nil hf fun c => Grammar.treesOf_build_ne_nil

theorem completions_lookAhead_looping :
    (∀ items ∈ loopingChart.sets, ∀ item ∈ items, item.origin < loopingChart.length) ∧
    ["x", "x"] ≠ [] ∧ "" ∉ ["x", "x"] ∧
    (∃ f, ofChart? loopingChart ["x"] = .ok f ∧
      ∀ (rule : Rule) (dot start stop : Nat) (above : List Constituent) (depth : Nat),
        (f.withoutAll above).size ≤ depth →
        f.completions f.covers depth above rule dot start stop =
          f.completions noLookAhead depth above rule dot start stop ∧
        f.completions f.covers depth above rule dot start stop =
          (f.withoutAll above).sequences (f.withoutAll above).treesOf (rule.rhs.drop dot) start
            stop) ∧
    ∃ f, Grammar.looping.forest ["x", "x"] = .ok f ∧
      ∀ (rule : Rule) (dot start stop : Nat) (depth : Nat), f.size ≤ depth →
        (f.covers (rule.rhs.drop dot) start stop ↔
          f.completions f.covers depth [] rule dot start stop ≠ []) :=
  ⟨by decide, by decide, by decide, completions_lookAhead Grammar.looping loopingChart (by decide)
    ["x"] ["x", "x"] (by decide) (by decide)⟩

end PhraseStructure.Forest
