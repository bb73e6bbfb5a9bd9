import PhraseStructure.Forest.Trees

/-! The first trees of a sentence that may have too many to list them all.  `firstTrees n` builds
little more than the trees that it returns, and these are the first `n` of the full list. -/

namespace PhraseStructure.Forest

/-- The first `count` results for the elements of a list, where `part x n` gives the first `n` of
those for `x`. -/
def gather {α β : Type} (part : α → Nat → List β) : List α → Nat → List β
  | [], _ => []
  | x :: xs, count =>
    if count = 0 then
      []
    else
      let found := part x count
      found ++ gather part xs (count - found.length)

theorem gather_eq {α β : Type} {part : α → Nat → List β} {full : α → List β}
    (h : ∀ x n, part x n = (full x).take n) (xs : List α) (count : Nat) :
    gather part xs count = (xs.flatMap full).take count := by
  induction xs generalizing count with
  | nil => simp [gather]
  | cons x xs ih =>
    rw [gather, List.flatMap_cons]
    split
    · simp_all
    · simp only [h, ih, List.take_append, List.length_take]
      congr 2
      omega

/-- The first `count` of the sequences that begin with a tree and go on with a tail, where `first n`
gives the first `n` trees and `tails n` the first `n` tails.  Tails are looked for only if there is
a tree, and no more trees are asked for than the tails found make necessary. -/
def prepend (first : Nat → List Tree) (tails : Nat → List (List Tree)) (count : Nat) :
    List (List Tree) :=
  match first 1 with
  | [] => []
  | one =>
    let found := tails count
    if found = [] then
      []
    else
      let needed := (count + found.length - 1) / found.length
      let trees := if needed = 1 then one else first needed
      (trees.flatMap fun tree => found.map (tree :: ·)).take count

/-- As many lists of one length as make up `count` elements are enough for the first `count`. -/
theorem take_flatMap_take {α β : Type} {xs : List α} {part : α → List β} {size needed count : Nat}
    (hsize : ∀ x ∈ xs, (part x).length = size) (hcount : count ≤ needed * size) :
    ((xs.take needed).flatMap part).take count = (xs.flatMap part).take count := by
  induction xs generalizing needed count with
  | nil => simp
  | cons x xs ih =>
    cases needed with
    | zero =>
      have : count = 0 := by omega
      simp [this]
    | succ needed =>
      have hx := hsize x List.mem_cons_self
      rw [Nat.succ_mul] at hcount
      rw [List.take_succ_cons, List.flatMap_cons, List.flatMap_cons, List.take_append,
        List.take_append, ih (fun y hy => hsize y (List.mem_cons_of_mem _ hy)) (by omega)]

theorem prepend_eq {first : Nat → List Tree} {tails : Nat → List (List Tree)} {trees : List Tree}
    {full : List (List Tree)} (hfirst : ∀ n, first n = trees.take n)
    (htails : ∀ n, tails n = full.take n) (count : Nat) :
    prepend first tails count =
      (trees.flatMap fun tree => full.map (tree :: ·)).take count := by
  cases trees with
  | nil => simp [prepend, hfirst]
  | cons tree trees =>
    have hone : first 1 = [tree] := by rw [hfirst]; rfl
    simp only [prepend, hone, htails]
    by_cases hc : count = 0
    · simp [hc]
    by_cases hf : full = []
    · simp [hf]
    have hfound : full.take count ≠ [] := by simp [List.take_eq_nil_iff, hc, hf]
    have hpos : 0 < (full.take count).length := List.length_pos_iff.mpr hfound
    generalize hneeded : (count + (full.take count).length - 1) / (full.take count).length = needed
    have hcount : count ≤ needed * (full.take count).length := by
      have := Nat.div_add_mod (count + (full.take count).length - 1) (full.take count).length
      have := Nat.mod_lt (count + (full.take count).length - 1) hpos
      rw [← hneeded, Nat.mul_comm]
      omega
    have htrees : (if needed = 1 then [tree] else first needed) = (tree :: trees).take needed := by
      split
      · next h => rw [h]; rfl
      · exact hfirst needed
    rw [if_neg hfound, htrees, take_flatMap_take (fun tree _ => List.length_map _) hcount]
    by_cases hlen : full.length ≤ count
    · rw [List.take_of_length_le hlen]
    · have hfull : count ≤ (full.map (tree :: ·)).length := by rw [List.length_map]; omega
      have htake : count ≤ ((full.take count).map (tree :: ·)).length := by
        rw [List.length_map, List.length_take]
        omega
      rw [List.flatMap_cons, List.flatMap_cons, List.take_append_of_le_length htake,
        List.take_append_of_le_length hfull, ← List.map_take, ← List.map_take, List.take_take,
        Nat.min_self]

/-- The first `count` sequences of trees, where `first` gives the first trees of a constituent. -/
def firstSequences (f : Forest) (first : Constituent → Nat → List Tree) :
    List Symbol → Nat → Nat → Nat → List (List Tree)
  | [], start, stop, count => if start = stop then [[]].take count else []
  | .terminal word :: rest, start, stop, count =>
    if start < stop ∧ f.words[start]? = some word then
      (f.firstSequences first rest (start + 1) stop count).map
        (.leaf word ⟨start, start + 1⟩ :: ·)
    else
      []
  | .nonterminal name :: rest, start, stop, count =>
    gather (fun c n => prepend (first c) (f.firstSequences first rest c.stop stop) n)
      (f.candidates name rest start stop) count

theorem firstSequences_eq {f : Forest} {first : Constituent → Nat → List Tree}
    {subtrees : Constituent → List Tree} (h : ∀ c n, first c n = (subtrees c).take n)
    (symbols : List Symbol) (start stop count : Nat) :
    f.firstSequences first symbols start stop count =
      (f.sequences subtrees symbols start stop).take count := by
  induction symbols generalizing start stop count with
  | nil => rw [firstSequences, sequences]; split <;> simp
  | cons symbol rest ih =>
    cases symbol with
    | terminal word => rw [firstSequences, sequences]; split <;> simp [ih]
    | nonterminal name =>
      rw [firstSequences, sequences_nonterminal]
      exact gather_eq (fun c n => prepend_eq (h c) (ih c.stop stop) n) _ _

/-- The first `count` trees of a constituent that have at most `depth` branches on a path. -/
def firstTreesWithin (depth : Nat) (f : Forest) (c : Constituent) (count : Nat) : List Tree :=
  match depth with
  | 0 => []
  | depth + 1 =>
    let below := f.without c
    (below.firstSequences (fun child n => firstTreesWithin depth below child n)
      c.rule.rhs c.start c.stop count).map (branch c)

theorem firstTreesWithin_eq (depth : Nat) (f : Forest) (c : Constituent) (count : Nat) :
    firstTreesWithin depth f c count = (treesWithin depth f c).take count := by
  induction depth generalizing f c count with
  | zero => simp [firstTreesWithin, treesWithin]
  | succ depth ih =>
    rw [firstTreesWithin, treesWithin, firstSequences_eq fun child n => ih _ child n,
      List.map_take]

/-- The first `count` trees of the whole sentence. -/
def firstTrees (f : Forest) (g : Grammar) (count : Nat) : List Tree :=
  gather (firstTreesWithin (f.size + 1) f) (f.roots g.start) count

/-- The first trees are the beginning of the list of all trees. -/
theorem firstTrees_eq (f : Forest) (g : Grammar) (count : Nat) :
    f.firstTrees g count = (f.trees g).take count :=
  gather_eq (firstTreesWithin_eq (f.size + 1) f) _ _

end PhraseStructure.Forest
