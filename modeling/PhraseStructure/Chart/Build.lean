import PhraseStructure.Chart.Basic
import PhraseStructure.Grammar.Basic

/-! The chart of a list of words.  At the first position stand the alternatives of the start symbol.
A position is closed by going through its items in order, those included that are added on the way:

- an item that waits for a nonterminal adds the alternatives of that nonterminal, which begin here,
  and itself with the nonterminal found if that is nullable;
- a complete item adds the items that waited for its left-hand side where it begins.

An item that waits for a word goes on at the next position, if this is the word that stands there.
The items at the first positions depend on the words before them alone. -/

namespace PhraseStructure.Chart

/-- The items that an item adds to its own position, which comes after the positions in `earlier`
and has the items in `current`. -/
def additions (g : Grammar) (earlier : List (List Item)) (current : List Item) (item : Item) :
    List Item :=
  match item.next? with
  | none =>
    let waiting := (earlier ++ [current])[item.origin]?.getD []
    waiting.filterMap (Item.afterName? item.rule.lhs)
  | some (.nonterminal name) =>
    let predicted := (g.rulesFor name).map (Item.atStart · earlier.length)
    if g.isNullable name then predicted ++ [item.advance] else predicted
  | some (.terminal _) => []

/-- The items of a position after at most `steps` further items have been gone through, the first
of which is the one at `index`. -/
def closeFrom (g : Grammar) (earlier : List (List Item)) :
    Nat → Nat → List Item → List Item
  | 0, _, items => items
  | steps + 1, index, items =>
    match items[index]? with
    | none => items
    | some item =>
      closeFrom g earlier steps (index + 1) (insertAll items (additions g earlier items item))

/-- The number of places that a dot can have in the rules. -/
def dotPlaces (rules : List Rule) : Nat :=
  rules.foldr (fun rule total => rule.rhs.length + 1 + total) 0

/-- The number of items that position `k` can have: each rule with each place for its dot and each
origin up to `k`. -/
def maxItems (g : Grammar) (k : Nat) : Nat := (k + 1) * dotPlaces g.rules

/-- All items of a position that begins with the given ones. -/
def close (g : Grammar) (earlier : List (List Item)) (items : List Item) : List Item :=
  closeFrom g earlier (maxItems g earlier.length) 0 items

/-- The items of all positions: those in `earlier`, the next one, which begins with `items`, and
those after each of the words. -/
def buildFrom (g : Grammar) (earlier : List (List Item)) (items : List Item) :
    List String → List (List Item)
  | [] => earlier ++ [close g earlier items]
  | word :: words =>
    let closed := close g earlier items
    buildFrom g (earlier ++ [closed]) (closed.filterMap (Item.afterWord? word)) words

theorem nodup_closeFrom (g : Grammar) (earlier : List (List Item)) {items : List Item}
    (h : items.Nodup) (steps index : Nat) : (closeFrom g earlier steps index items).Nodup := by
  induction steps generalizing index items with
  | zero => exact h
  | succ steps ih =>
    rw [closeFrom]
    split
    · exact h
    · exact ih (nodup_insertAll h _) _

/-- Different items go on as different items after a word. -/
theorem nodup_afterWord {items : List Item} (h : items.Nodup) (word : String) :
    (items.filterMap (Item.afterWord? word)).Nodup := by
  rw [List.Nodup, List.pairwise_filterMap]
  refine h.imp fun hne x hx y hy => ?_
  obtain ⟨-, rfl⟩ := Item.afterWord?_eq_some.mp hx
  obtain ⟨-, rfl⟩ := Item.afterWord?_eq_some.mp hy
  exact fun hxy => hne (Item.advance_injective hxy)

theorem nodup_buildFrom (g : Grammar) {earlier : List (List Item)} {items : List Item}
    (hearlier : ∀ set ∈ earlier, set.Nodup) (hitems : items.Nodup) (words : List String) :
    ∀ set ∈ buildFrom g earlier items words, set.Nodup := by
  have hclosed : (close g earlier items).Nodup := nodup_closeFrom g earlier hitems _ _
  have hall : ∀ set ∈ earlier ++ [close g earlier items], set.Nodup := by
    intro set hs
    rcases List.mem_append.mp hs with hs | hs
    · exact hearlier set hs
    · rw [List.mem_singleton.mp hs]
      exact hclosed
  induction words generalizing earlier items with
  | nil => exact hall
  | cons word words ih =>
    have hnext := nodup_afterWord hclosed word
    have hnextClosed := nodup_closeFrom g (earlier ++ [close g earlier items]) hnext
    refine ih hall hnext (hnextClosed _ _) ?_
    intro set hs
    rcases List.mem_append.mp hs with hs | hs
    · exact hall set hs
    · rw [List.mem_singleton.mp hs]
      exact hnextClosed _ _

/-- The items that stand at the first position from the beginning. -/
def startItems (g : Grammar) : List Item := g.startRules.map (Item.atStart · 0)

theorem nodup_startItems (g : Grammar) : (startItems g).Nodup := by
  rw [startItems, List.Nodup, List.pairwise_map]
  exact (g.nodup_rules.filter _).imp fun hne h => hne (congrArg Item.rule h)

def build (g : Grammar) (words : List String) : Chart where
  sets := buildFrom g [] (startItems g) words
  nodup := nodup_buildFrom g (by simp) (nodup_startItems g) words

end PhraseStructure.Chart
