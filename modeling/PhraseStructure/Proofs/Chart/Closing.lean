import Mathlib.Data.List.Induction
import Mathlib.Data.List.Perm.Subperm
import PhraseStructure.Chart.Build

/-! How a position of a chart is closed.  Items are only added at the end, an item that was gone
through has its additions there, and the number of steps allowed is enough to go through all.  What
closing leaves is `Settled`.  A longer sentence adds one closed position to the chart of the
shorter one. -/

namespace PhraseStructure

/-- The item has a rule from the list, its dot within the rule and its origin up to `k`. -/
structure Item.InRange (rules : List Rule) (k : Nat) (item : Item) : Prop where
  rule_mem : item.rule ∈ rules
  dot_le : item.dot ≤ item.rule.rhs.length
  origin_le : item.origin ≤ k

namespace Chart

theorem eq_of_sets_eq {first second : Chart} (hsets : first.sets = second.sets) :
    first = second := by
  cases first
  cases second
  subst hsets
  rfl

variable {g : Grammar} {earlier : List (List Item)} {items : List Item}

/-! ### What one item adds -/

section Additions

variable {item x : Item}

theorem mem_additions_complete (h : item.isComplete) : x ∈ additions g earlier items item ↔
    ∃ waiting ∈ (earlier ++ [items])[item.origin]?.getD [],
      waiting.next? = some (.nonterminal item.rule.lhs) ∧ waiting.advance = x := by
  rw [additions, Item.next?_eq_none.mpr h]
  simp only [List.mem_filterMap, Item.afterName?_eq_some]

theorem mem_additions_name {name : String} (h : item.next? = some (.nonterminal name)) :
    x ∈ additions g earlier items item ↔
      (∃ rule ∈ g.rules, rule.lhs = name ∧ Item.atStart rule earlier.length = x) ∨
        g.isNullable name ∧ item.advance = x := by
  rw [additions, h]
  dsimp only
  split
  · next hnull => simp [hnull, and_assoc, eq_comm]
  · next hnull => simp [hnull, and_assoc]

theorem additions_word {word : String} (h : item.next? = some (.terminal word)) :
    additions g earlier items item = [] := by
  rw [additions, h]

end Additions

/-! ### Going through the items -/

theorem prefix_insert (items : List Item) (item : Item) : items <+: insert items item := by
  unfold insert
  split
  · exact List.prefix_rfl
  · exact List.prefix_append _ _

theorem prefix_insertAll (items new : List Item) : items <+: insertAll items new := by
  induction new generalizing items with
  | nil => exact List.prefix_rfl
  | cons item new ih => exact (prefix_insert items item).trans (ih _)

theorem prefix_closeFrom (g : Grammar) (earlier : List (List Item)) (steps index : Nat)
    (items : List Item) : items <+: closeFrom g earlier steps index items := by
  induction steps generalizing index items with
  | zero => exact List.prefix_rfl
  | succ steps ih =>
    rw [closeFrom]
    split
    · exact List.prefix_rfl
    · exact (prefix_insertAll _ _).trans (ih _ _)

/-- What holds of the items at the beginning and of all additions holds of all items. -/
theorem forall_mem_closeFrom {P : Item → Prop}
    (hadd : ∀ current : List Item, (∀ item ∈ current, P item) → ∀ item ∈ current,
      ∀ x ∈ additions g earlier current item, P x)
    (h : ∀ item ∈ items, P item) (steps index : Nat) :
    ∀ item ∈ closeFrom g earlier steps index items, P item := by
  induction steps generalizing index items with
  | zero => exact h
  | succ steps ih =>
    rw [closeFrom]
    split
    · exact h
    · next item hitem =>
      refine ih (fun x hx => ?_) _
      rcases mem_insertAll.mp hx with hx | hx
      · exact h x hx
      · exact hadd items h item (List.mem_of_getElem? hitem) x hx

/-- The additions of an item that was gone through are there at the end. -/
theorem exists_additions_subset {steps index place : Nat} (hindex : index ≤ place)
    (hsteps : place < index + steps) {item : Item}
    (hitem : (closeFrom g earlier steps index items)[place]? = some item) :
    ∃ current, additions g earlier current item ⊆ closeFrom g earlier steps index items := by
  induction steps generalizing index items with
  | zero => omega
  | succ steps ih =>
    rw [closeFrom] at hitem ⊢
    split at hitem
    · next hnone =>
      rw [List.getElem?_eq_none_iff] at hnone
      rw [List.getElem?_eq_none (by omega)] at hitem
      simp at hitem
    · next first hfirst =>
      generalize hnext : insertAll items (additions g earlier items first) = next at hitem ⊢
      by_cases hplace : place = index
      · subst hplace
        -- The item at this place is the one gone through now, since nothing before it moves.
        have hpre : items <+: closeFrom g earlier steps (place + 1) next :=
          (hnext ▸ prefix_insertAll items _).trans (prefix_closeFrom _ _ _ _ _)
        have hlt := (List.getElem?_eq_some_iff.mp hfirst).1
        obtain ⟨more, hmore⟩ := hpre
        rw [← hmore, List.getElem?_append_left hlt, hfirst] at hitem
        obtain rfl := Option.some.inj hitem
        refine ⟨items, fun x hx => ?_⟩
        have hx : x ∈ next := hnext ▸ mem_insertAll.mpr (.inr hx)
        exact (prefix_closeFrom _ _ _ _ _).subset hx
      · exact ih (by omega) (by omega) hitem

/-! ### The number of steps -/

/-- All items in range of position `k`. -/
def itemsInRange (rules : List Rule) (k : Nat) : List Item :=
  (List.range (k + 1)).flatMap fun origin =>
    rules.flatMap fun rule => (List.range (rule.rhs.length + 1)).map fun dot => ⟨origin, dot, rule⟩

theorem mem_itemsInRange {rules : List Rule} {k : Nat} {item : Item} :
    item ∈ itemsInRange rules k ↔ item.InRange rules k := by
  simp only [itemsInRange, List.mem_flatMap, List.mem_map, List.mem_range]
  constructor
  · rintro ⟨origin, ho, rule, hr, dot, hd, rfl⟩
    exact ⟨hr, by dsimp only; omega, by dsimp only; omega⟩
  · intro ⟨hr, hd, ho⟩
    exact ⟨item.origin, by omega, item.rule, hr, item.dot, by omega, rfl⟩

theorem length_itemsInRange (g : Grammar) (k : Nat) :
    (itemsInRange g.rules k).length = maxItems g k := by
  have hrules : ∀ (rules : List Rule) (origin : Nat), (rules.flatMap fun rule =>
      (List.range (rule.rhs.length + 1)).map fun dot => Item.mk origin dot rule).length =
        dotPlaces rules := by
    intro rules origin
    induction rules with
    | nil => rfl
    | cons rule rules ih => simp [ih, dotPlaces]
  have horigins : ∀ origins : List Nat, (origins.flatMap fun origin => g.rules.flatMap fun rule =>
      (List.range (rule.rhs.length + 1)).map fun dot => Item.mk origin dot rule).length =
        origins.length * dotPlaces g.rules := by
    intro origins
    induction origins with
    | nil => simp
    | cons origin origins ih =>
      rw [List.flatMap_cons, List.length_append, hrules, ih, List.length_cons, Nat.succ_mul,
        Nat.add_comm]
  rw [itemsInRange, horigins, List.length_range, maxItems]

/-- Different items in range are no more than the bound. -/
theorem length_le_maxItems {k : Nat} (hnodup : items.Nodup)
    (hrange : ∀ item ∈ items, item.InRange g.rules k) : items.length ≤ maxItems g k := by
  rw [← length_itemsInRange]
  have hsub : items ⊆ itemsInRange g.rules k :=
    fun item hi => mem_itemsInRange.mpr (hrange item hi)
  exact (List.subperm_of_subset hnodup hsub).length_le

/-- Nothing is left to be added to the items of the position after those in `earlier`.  A complete
item that begins at this position itself is not asked for anything: its left-hand side is nullable,
so that the items that wait for it go on without it. -/
structure Settled (g : Grammar) (earlier : List (List Item)) (items : List Item) : Prop where
  predict : ∀ item ∈ items, ∀ name, item.next? = some (.nonterminal name) →
    ∀ rule ∈ g.rules, rule.lhs = name → Item.atStart rule earlier.length ∈ items
  skip : ∀ item ∈ items, ∀ name, item.next? = some (.nonterminal name) → g.isNullable name →
    item.advance ∈ items
  complete : ∀ item ∈ items, item.isComplete → ∀ origin, earlier[item.origin]? = some origin →
    ∀ waiting ∈ origin, waiting.next? = some (.nonterminal item.rule.lhs) →
      waiting.advance ∈ items

theorem settled_of_additions
    (h : ∀ item ∈ items, ∃ current, additions g earlier current item ⊆ items) :
    Settled g earlier items where
  predict := by
    intro item hi name hnext rule hr hlhs
    obtain ⟨current, hsub⟩ := h item hi
    exact hsub ((mem_additions_name hnext).mpr (.inl ⟨rule, hr, hlhs, rfl⟩))
  skip := by
    intro item hi name hnext hnull
    obtain ⟨current, hsub⟩ := h item hi
    exact hsub ((mem_additions_name hnext).mpr (.inr ⟨hnull, rfl⟩))
  complete := by
    intro item hi hcomplete origin horigin waiting hw hnext
    obtain ⟨current, hsub⟩ := h item hi
    refine hsub ((mem_additions_complete hcomplete).mpr ⟨waiting, ?_, hnext, rfl⟩)
    rw [List.getElem?_append_left (List.getElem?_eq_some_iff.mp horigin).1, horigin]
    exact hw

/-- The number of steps is enough to go through all items. -/
theorem settled_close (hnodup : items.Nodup)
    (hrange : ∀ item ∈ close g earlier items, item.InRange g.rules earlier.length) :
    Settled g earlier (close g earlier items) := by
  refine settled_of_additions fun item hi => ?_
  obtain ⟨place, hplace, rfl⟩ := List.mem_iff_getElem.mp hi
  have hle : (close g earlier items).length ≤ maxItems g earlier.length :=
    length_le_maxItems (nodup_closeFrom g earlier hnodup _ _) hrange
  exact exists_additions_subset (Nat.zero_le place) (by omega) (List.getElem?_eq_getElem hplace)

/-! ### One more word -/

/-- The items with which a position begins after the word, where the positions before it are those
in `sets`. -/
def scanned (sets : List (List Item)) (word : String) : List Item :=
  (sets.getLast?.getD []).filterMap (Item.afterWord? word)

theorem nodup_scanned {sets : List (List Item)} (h : ∀ set ∈ sets, set.Nodup) (word : String) :
    (scanned sets word).Nodup := by
  refine nodup_afterWord ?_ word
  cases hlast : sets.getLast? with
  | none => exact List.nodup_nil
  | some set => exact h set (List.mem_of_getLast? hlast)

/-- One more word adds one closed position. -/
theorem buildFrom_append_word (g : Grammar) (earlier : List (List Item)) (items : List Item)
    (words : List String) (word : String) :
    buildFrom g earlier items (words ++ [word]) =
      buildFrom g earlier items words ++ [close g (buildFrom g earlier items words)
        (scanned (buildFrom g earlier items words) word)] := by
  induction words generalizing earlier items with
  | nil => simp [buildFrom, scanned]
  | cons first words ih => exact ih _ _

theorem sets_build_nil (g : Grammar) : (build g []).sets = [close g [] (startItems g)] := rfl

theorem sets_build_append_word (g : Grammar) (words : List String) (word : String) :
    (build g (words ++ [word])).sets = (build g words).sets ++
      [close g (build g words).sets (scanned (build g words).sets word)] :=
  buildFrom_append_word g [] (startItems g) words word

theorem length_sets_build (g : Grammar) (words : List String) :
    (build g words).sets.length = words.length + 1 := by
  induction words using List.reverseRecOn with
  | nil => rfl
  | append_singleton words word ih =>
    rw [sets_build_append_word, List.length_append, ih, List.length_append]
    rfl

end Chart

end PhraseStructure
