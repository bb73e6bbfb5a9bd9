import Mathlib.Logic.Relation
import PhraseStructure.Proofs.Chart.Exact
import PhraseStructure.Proofs.Chart.History

/-! The construction of a chart, step by step.  Here it is a loop over the positions, with a loop
inside it over the items of a position, and a further one over the items that a complete item may
take along or over the rules of a name that is waited for.  Every access is checked: it fails for a
position or a place that is not there, and an assertion about an item fails when it does not hold.

`Sound` holds from the beginning and is kept by every step.  A sound moment is in range, so that no
step fails, and the bound on the items of a position holds at all times, not only at the end. -/

namespace PhraseStructure

open Relation

namespace Chart

/-- Why a step fails. -/
inductive Fault where
  | outOfRange (error : OutOfRange)
  | assertion

/-- What a construction is about to do. -/
inductive Task where
  /-- Add the rules at the first position. -/
  | start (rules : List Rule)
  /-- Take the next item of the position. -/
  | pick
  /-- Go through the items where a complete item begins, from a place up to the number of them that
  there were when this began. -/
  | complete (item : Item) (place size : Nat)
  /-- Add the rules of the name that the item waits for. -/
  | predict (item : Item) (name : String) (rules : List Rule)

/-- A moment in a construction: the chart so far, the position that is gone through, the place of
the next item in it, and what is to be done. -/
structure Moment where
  chart : Chart
  position : Nat
  index : Nat
  task : Task

/-! ### Steps -/

/-- The item at a place of a position. -/
def itemAt (chart : Chart) (k place : Nat) : Except OutOfRange Item :=
  match chart.sets[k]? with
  | none => .error ⟨chart.length, k⟩
  | some items =>
    match items[place]? with
    | none => .error ⟨items.length, place⟩
    | some item => .ok item

def wordAt (words : List String) (k : Nat) : Except OutOfRange String :=
  match words[k]? with
  | none => .error ⟨words.length, k⟩
  | some word => .ok word

def checked {α : Type} (access : Except OutOfRange α) : Except Fault α :=
  access.mapError .outOfRange

def assert (condition : Bool) : Except Fault Unit :=
  if condition then .ok () else .error .assertion

/-- The item with its dot one symbol further on, if it is asserted rightly that there is one. -/
def advanced (item : Item) : Except Fault Item :=
  match item.advance? with
  | none => .error .assertion
  | some after => .ok after

namespace Moment

/-- The moment before the first step. -/
def first (g : Grammar) (words : List String) : Moment :=
  ⟨Chart.empty (words.length + 1), 0, 0, .start g.startRules⟩

/-- The moment after an item is added, with the given task. -/
def adding (m : Moment) (k : Nat) (item : Item) (task : Task) : Except Fault (Option Moment) := do
  let chart ← checked (m.chart.add k item)
  return some { m with chart, task }

/-- An item that waits for a word goes on at the next position if the word stands there. -/
def scan (words : List String) (m : Moment) (item : Item) (word : String) :
    Except Fault (Option Moment) :=
  if m.position < words.length then do
    let found ← checked (wordAt words m.position)
    if found = word then
      let after ← advanced item
      m.adding (m.position + 1) after .pick
    else
      return some m
  else
    .ok (some m)

/-- What is done at an item depends on the symbol after its dot. -/
def take (g : Grammar) (words : List String) (m : Moment) (item : Item) :
    Except Fault (Option Moment) :=
  match item.next? with
  | none => do
    assert item.isComplete
    let size ← checked (m.chart.sizeAt item.origin)
    return some { m with task := .complete item 0 size }
  | some (.nonterminal name) => do
    assert !item.isComplete
    return some { m with task := .predict item name (g.rulesFor name) }
  | some (.terminal word) => do
    assert !item.isComplete
    m.scan words item word

/-- The next item of the position is taken, or else the next position, or else all is done. -/
def pick (g : Grammar) (words : List String) (m : Moment) : Except Fault (Option Moment) :=
  if m.position < m.chart.length then do
    let size ← checked (m.chart.sizeAt m.position)
    if m.index < size then
      let item ← checked (m.chart.itemAt m.position m.index)
      take g words { m with index := m.index + 1 } item
    else
      return some { m with position := m.position + 1, index := 0 }
  else
    .ok none

/-- One step, or none when all is done. -/
def next (g : Grammar) (words : List String) (m : Moment) : Except Fault (Option Moment) :=
  match m.task with
  | .start [] => .ok (some { m with task := .pick })
  | .start (rule :: rules) => m.adding 0 (Item.atStart rule 0) (.start rules)
  | .pick => m.pick g words
  | .complete item place size =>
    if place < size then do
      let other ← checked (m.chart.itemAt item.origin place)
      if other.next? = some (.nonterminal item.rule.lhs) then
        let after ← advanced other
        m.adding m.position after (.complete item (place + 1) size)
      else
        return some { m with task := .complete item (place + 1) size }
    else
      .ok (some { m with task := .pick })
  | .predict item name [] =>
    if g.isNullable name then do
      let after ← advanced item
      m.adding m.position after .pick
    else
      .ok (some { m with task := .pick })
  | .predict item name (rule :: rules) =>
    m.adding m.position (Item.atStart rule m.position) (.predict item name rules)

/-- Any number of steps lead from one moment to another. -/
def Reaches (g : Grammar) (words : List String) : Moment → Moment → Prop :=
  ReflTransGen fun m after => m.next g words = .ok (some after)

end Moment

/-! ### Each step, if it is in range -/

namespace Moment

section Steps

variable {g : Grammar} {words : List String} {chart : Chart} {k index : Nat} {item : Item}
variable {items : List Item}

theorem sizeAt_eq (h : chart.sets[k]? = some items) : chart.sizeAt k = .ok items.length := by
  obtain ⟨hk, rfl⟩ := List.getElem?_eq_some_iff.mp h
  rw [sizeAt, dif_pos hk]

theorem itemAt_eq {place : Nat} (h : chart.sets[k]? = some items)
    (hitem : items[place]? = some item) : chart.itemAt k place = .ok item := by
  simp only [itemAt, h, hitem]

theorem isComplete_eq_false {symbol : Symbol} (h : item.next? = some symbol) :
    item.isComplete = false := by
  rw [Bool.eq_false_iff, ne_eq, ← Item.next?_eq_none, h]
  simp

theorem advanced_eq {symbol : Symbol} (h : item.next? = some symbol) :
    advanced item = .ok item.advance := by
  simp only [advanced, Item.advance?, isComplete_eq_false h]
  rfl

theorem adding_eq {m : Moment} (hk : k < m.chart.sets.length) (item : Item) (task : Task) :
    m.adding k item task = .ok (some { m with chart := m.chart.put k item, task }) := by
  rw [adding, add_eq_put hk]
  rfl

theorem next_start (rule : Rule) (rules : List Rule) (hk : 0 < chart.sets.length) :
    next g words ⟨chart, k, index, .start (rule :: rules)⟩ =
      .ok (some ⟨chart.put 0 (Item.atStart rule 0), k, index, .start rules⟩) :=
  adding_eq hk _ _

theorem next_predict {name : String} (rule : Rule) (rules : List Rule)
    (hk : k < chart.sets.length) :
    next g words ⟨chart, k, index, .predict item name (rule :: rules)⟩ =
      .ok (some ⟨chart.put k (Item.atStart rule k), k, index, .predict item name rules⟩) :=
  adding_eq hk _ _

theorem next_predict_nil {name : String} (hk : k < chart.sets.length)
    (hnext : item.next? = some (.nonterminal name)) :
    next g words ⟨chart, k, index, .predict item name []⟩ =
      .ok (some ⟨if g.isNullable name then chart.put k item.advance else chart, k, index,
        .pick⟩) := by
  simp only [next]
  split
  · rw [advanced_eq hnext]
    exact adding_eq hk _ _
  · rfl

theorem next_complete {place size : Nat} {waiting : List Item} {other : Item}
    (hk : k < chart.sets.length) (horigin : chart.sets[item.origin]? = some waiting)
    (hother : waiting[place]? = some other) (hplace : place < size) :
    next g words ⟨chart, k, index, .complete item place size⟩ =
      .ok (some ⟨if other.next? = some (.nonterminal item.rule.lhs) then chart.put k other.advance
        else chart, k, index, .complete item (place + 1) size⟩) := by
  simp only [next, if_pos hplace, itemAt_eq horigin hother]
  show (if _ then _ else _) = _
  split
  · next hnext =>
    rw [advanced_eq hnext]
    exact adding_eq hk _ _
  · rfl

theorem next_complete_end {place size : Nat} (hplace : size ≤ place) :
    next g words ⟨chart, k, index, .complete item place size⟩ =
      .ok (some ⟨chart, k, index, .pick⟩) := by
  simp only [next, if_neg (Nat.not_lt.mpr hplace)]

theorem next_pick_end (hk : chart.sets.length ≤ k) :
    next g words ⟨chart, k, index, .pick⟩ = .ok none :=
  if_neg (Nat.not_lt.mpr hk)

theorem next_pick_close (hitems : chart.sets[k]? = some items) (hindex : items.length ≤ index) :
    next g words ⟨chart, k, index, .pick⟩ = .ok (some ⟨chart, k + 1, 0, .pick⟩) := by
  have hk := (List.getElem?_eq_some_iff.mp hitems).1
  simp only [next, pick, Chart.length, if_pos hk, sizeAt_eq hitems]
  exact if_neg (Nat.not_lt.mpr hindex)

theorem next_pick (hitems : chart.sets[k]? = some items) (hitem : items[index]? = some item) :
    next g words ⟨chart, k, index, .pick⟩ = take g words ⟨chart, k, index + 1, .pick⟩ item := by
  have hk := (List.getElem?_eq_some_iff.mp hitems).1
  have hindex := (List.getElem?_eq_some_iff.mp hitem).1
  simp only [next, pick, Chart.length, if_pos hk, sizeAt_eq hitems, itemAt_eq hitems hitem]
  exact if_pos hindex

theorem take_complete {waiting : List Item} (hnext : item.next? = none)
    (horigin : chart.sets[item.origin]? = some waiting) :
    take g words ⟨chart, k, index, .pick⟩ item =
      .ok (some ⟨chart, k, index, .complete item 0 waiting.length⟩) := by
  simp only [take, hnext, Item.next?_eq_none.mp hnext, sizeAt_eq horigin]
  rfl

theorem take_name {name : String} (hnext : item.next? = some (.nonterminal name)) :
    take g words ⟨chart, k, index, .pick⟩ item =
      .ok (some ⟨chart, k, index, .predict item name (g.rulesFor name)⟩) := by
  simp only [take, hnext, isComplete_eq_false hnext]
  rfl

theorem take_word (hk : k < words.length → k + 1 < chart.sets.length) {word : String}
    (hnext : item.next? = some (.terminal word)) :
    take g words ⟨chart, k, index, .pick⟩ item =
      .ok (some ⟨if words[k]? = some word then chart.put (k + 1) item.advance else chart, k, index,
        .pick⟩) := by
  simp only [take, hnext, isComplete_eq_false hnext]
  show scan words _ item word = _
  rw [scan]
  split
  · next hlt =>
    have hlt : k < words.length := hlt
    simp only [wordAt, List.getElem?_eq_getElem hlt, Option.some.injEq]
    show (if words[k] = word then _ else _) = _
    split
    · rw [advanced_eq hnext]
      exact adding_eq (hk hlt) _ _
    · rfl
  · next hge =>
    rw [List.getElem?_eq_none (Nat.not_lt.mp hge), if_neg (by simp)]

end Steps

end Moment

/-! ### What every moment keeps -/

/-- Every set keeps its items in their places. -/
theorem prefix_sets_put {chart : Chart} {k : Nat} {items : List Item} (j : Nat) (item : Item)
    (h : chart.sets[k]? = some items) :
    ∃ more, (chart.put j item).sets[k]? = some more ∧ items <+: more := by
  rw [getElem?_sets_put, h, Option.map_some]
  refine ⟨_, rfl, ?_⟩
  split
  · exact prefix_insert items item
  · exact List.prefix_rfl

/-- The task is in range for the chart and the position that it is about. -/
def Task.Ready (g : Grammar) (chart : Chart) (k : Nat) : Task → Prop
  | .start rules => k = 0 ∧ ∀ rule ∈ rules, rule ∈ g.rules
  | .pick => True
  | .complete item _ size => k < chart.sets.length ∧ item.InRange g.rules k ∧
      ∃ waiting, chart.sets[item.origin]? = some waiting ∧ size ≤ waiting.length
  | .predict item name rules => k < chart.sets.length ∧ item.InRange g.rules k ∧
      item.next? = some (.nonterminal name) ∧ ∀ rule ∈ rules, rule ∈ g.rules

theorem Task.Ready.put {g : Grammar} {chart : Chart} {k : Nat} {task : Task}
    (h : task.Ready g chart k) (j : Nat) (item : Item) : task.Ready g (chart.put j item) k := by
  cases task with
  | start rules => exact h
  | pick => trivial
  | complete other place size =>
    obtain ⟨hk, hother, waiting, horigin, hsize⟩ := h
    obtain ⟨more, hmore, hprefix⟩ := prefix_sets_put j item horigin
    exact ⟨(length_sets_put chart j item).symm ▸ hk, hother, more, hmore,
      Nat.le_trans hsize hprefix.length_le⟩
  | predict other name rules =>
    obtain ⟨hk, hother⟩ := h
    exact ⟨(length_sets_put chart j item).symm ▸ hk, hother⟩

namespace Moment

/-- What holds at every moment: all items are in range and so is what is about to be done. -/
structure Sound (g : Grammar) (words : List String) (m : Moment) : Prop where
  length_eq : m.chart.sets.length = words.length + 1
  inRange : ∀ k (items : List Item), m.chart.sets[k]? = some items →
    ∀ item ∈ items, item.InRange g.rules k
  index_le : m.index ≤ (m.chart.sets[m.position]?.getD []).length
  ready : m.task.Ready g m.chart m.position

/-- The positions before the present one stay as they are from one moment to the other. -/
structure Follows (m after : Moment) : Prop where
  position_le : m.position ≤ after.position
  sets_eq : ∀ k < m.position, after.chart.sets[k]? = m.chart.sets[k]?

variable {g : Grammar} {words : List String} {m : Moment}

theorem sound_first (g : Grammar) (words : List String) : Sound g words (first g words) where
  length_eq := List.length_replicate
  inRange k items hitems item hi := by
    have hmem := List.mem_of_getElem? hitems
    rw [List.eq_of_mem_replicate hmem] at hi
    simp at hi
  index_le := Nat.zero_le _
  ready := ⟨rfl, fun _ hrule => (Grammar.mem_rulesFor.mp hrule).1⟩

theorem Follows.refl (m : Moment) : Follows m m := ⟨Nat.le_refl _, fun _ _ => rfl⟩

theorem Follows.trans {middle after : Moment} (h : Follows m middle) (h' : Follows middle after) :
    Follows m after where
  position_le := Nat.le_trans h.position_le h'.position_le
  sets_eq k hk :=
    (h'.sets_eq k (Nat.lt_of_lt_of_le hk h.position_le)).trans (h.sets_eq k hk)

/-- An item in range may be added at any position from the present one on. -/
theorem Sound.put (h : Sound g words m) {j : Nat} {item : Item} {task : Task}
    (hj : m.position ≤ j) (hitem : item.InRange g.rules j)
    (htask : task.Ready g m.chart m.position) :
    Sound g words { m with chart := m.chart.put j item, task } ∧
      Follows m { m with chart := m.chart.put j item, task } := by
  refine ⟨⟨?_, ?_, ?_, htask.put j item⟩, Nat.le_refl _, fun k hk => ?_⟩
  · rw [← h.length_eq]
    exact length_sets_put _ _ _
  · intro k items hitems x hx
    rw [getElem?_sets_put, Option.map_eq_some_iff] at hitems
    obtain ⟨before, hbefore, rfl⟩ := hitems
    have hrange := h.inRange k before hbefore
    split at hx
    · next hjk =>
      subst hjk
      rcases mem_insert.mp hx with hx | rfl
      · exact hrange x hx
      · exact hitem
    · exact hrange x hx
  · refine Nat.le_trans h.index_le ?_
    cases hitems : m.chart.sets[m.position]? with
    | none => exact Nat.zero_le _
    | some items =>
      obtain ⟨more, hmore, hprefix⟩ := prefix_sets_put j item hitems
      simpa [hmore] using hprefix.length_le
  · show (m.chart.put j item).sets[k]? = _
    rw [getElem?_sets_put]
    simp [show j ≠ k by omega]

theorem Sound.withTask (h : Sound g words m) {task : Task}
    (htask : task.Ready g m.chart m.position) :
    Sound g words { m with task } ∧ Follows m { m with task } :=
  ⟨⟨h.length_eq, h.inRange, h.index_le, htask⟩, Nat.le_refl _, fun _ _ => rfl⟩

/-! ### One step -/

section Step

variable {chart : Chart} {k index : Nat} {item : Item}

/-- The result is not a fault, and a moment that it leads to is sound and follows. -/
def Proceeds (g : Grammar) (words : List String) (m : Moment)
    (result : Except Fault (Option Moment)) : Prop :=
  ∃ after?, result = .ok after? ∧ ∀ after ∈ after?, Sound g words after ∧ Follows m after

theorem proceeds_of_eq {result : Except Fault (Option Moment)} {after : Moment}
    (heq : result = .ok (some after)) (h : Sound g words after ∧ Follows m after) :
    Proceeds g words m result := by
  refine ⟨some after, heq, ?_⟩
  rintro _ ⟨⟩
  exact h

theorem inRange_advance {symbol : Symbol} {j : Nat} (h : item.InRange g.rules k)
    (hnext : item.next? = some symbol) (hkj : k ≤ j) : item.advance.InRange g.rules j :=
  ⟨h.rule_mem, (List.getElem?_eq_some_iff.mp hnext).1, Nat.le_trans h.origin_le hkj⟩

theorem inRange_atStart {rule : Rule} (h : rule ∈ g.rules) (k : Nat) :
    (Item.atStart rule k).InRange g.rules k :=
  ⟨h, Nat.zero_le _, Nat.le_refl _⟩

theorem proceeds_start {rules : List Rule} (h : Sound g words ⟨chart, k, index, .start rules⟩) :
    Proceeds g words ⟨chart, k, index, .start rules⟩
      (next g words ⟨chart, k, index, .start rules⟩) := by
  obtain ⟨hzero, hrules⟩ := h.ready
  cases rules with
  | nil => exact proceeds_of_eq rfl (h.withTask trivial)
  | cons rule rules =>
    obtain ⟨hrule, hrest⟩ := List.forall_mem_cons.mp hrules
    have hlen : 0 < chart.sets.length := by
      have := h.length_eq
      dsimp only at this
      omega
    exact proceeds_of_eq (next_start rule rules hlen)
      (h.put (Nat.le_of_eq hzero) (inRange_atStart hrule 0) ⟨hzero, hrest⟩)

theorem proceeds_predict {name : String} {rules : List Rule}
    (h : Sound g words ⟨chart, k, index, .predict item name rules⟩) :
    Proceeds g words ⟨chart, k, index, .predict item name rules⟩
      (next g words ⟨chart, k, index, .predict item name rules⟩) := by
  obtain ⟨hk, hitem, hnext, hrules⟩ := h.ready
  cases rules with
  | nil =>
    refine proceeds_of_eq (next_predict_nil hk hnext) ?_
    split
    · exact h.put (Nat.le_refl k) (inRange_advance hitem hnext (Nat.le_refl k)) trivial
    · exact h.withTask trivial
  | cons rule rules =>
    obtain ⟨hrule, hrest⟩ := List.forall_mem_cons.mp hrules
    exact proceeds_of_eq (next_predict rule rules hk)
      (h.put (Nat.le_refl k) (inRange_atStart hrule k) ⟨hk, hitem, hnext, hrest⟩)

theorem proceeds_complete {place size : Nat}
    (h : Sound g words ⟨chart, k, index, .complete item place size⟩) :
    Proceeds g words ⟨chart, k, index, .complete item place size⟩
      (next g words ⟨chart, k, index, .complete item place size⟩) := by
  obtain ⟨hk, hitem, waiting, horigin, hsize⟩ := h.ready
  have hready : Task.Ready g chart k (.complete item (place + 1) size) :=
    ⟨hk, hitem, waiting, horigin, hsize⟩
  rcases Nat.lt_or_ge place size with hplace | hplace
  · have hother := List.getElem?_eq_getElem (Nat.lt_of_lt_of_le hplace hsize)
    have hrange := h.inRange _ _ horigin _ (List.mem_of_getElem? hother)
    refine proceeds_of_eq (next_complete hk horigin hother hplace) ?_
    split
    · next hnext =>
      exact h.put (Nat.le_refl k) (inRange_advance hrange hnext hitem.origin_le) hready
    · exact h.withTask hready
  · exact proceeds_of_eq (next_complete_end hplace) (h.withTask trivial)

theorem proceeds_take (h : Sound g words ⟨chart, k, index, .pick⟩) (hk : k < chart.sets.length)
    (hitem : item.InRange g.rules k) :
    Proceeds g words ⟨chart, k, index, .pick⟩ (take g words ⟨chart, k, index, .pick⟩ item) := by
  cases hnext : item.next? with
  | none =>
    have horigin := List.getElem?_eq_getElem (Nat.lt_of_le_of_lt hitem.origin_le hk)
    exact proceeds_of_eq (take_complete hnext horigin)
      (h.withTask ⟨hk, hitem, _, horigin, Nat.le_refl _⟩)
  | some symbol =>
    cases symbol with
    | nonterminal name =>
      exact proceeds_of_eq (take_name hnext)
        (h.withTask ⟨hk, hitem, hnext, fun _ hrule => (Grammar.mem_rulesFor.mp hrule).1⟩)
    | terminal word =>
      have hlen : k < words.length → k + 1 < chart.sets.length := by
        have := h.length_eq
        dsimp only at this
        omega
      refine proceeds_of_eq (take_word hlen hnext) ?_
      split
      · exact h.put (Nat.le_succ k) (inRange_advance hitem hnext (Nat.le_succ k)) trivial
      · exact ⟨h, Follows.refl _⟩

theorem proceeds_pick (h : Sound g words ⟨chart, k, index, .pick⟩) :
    Proceeds g words ⟨chart, k, index, .pick⟩ (next g words ⟨chart, k, index, .pick⟩) := by
  rcases Nat.lt_or_ge k chart.sets.length with hk | hk
  · have hitems := List.getElem?_eq_getElem hk
    rcases Nat.lt_or_ge index chart.sets[k].length with hindex | hindex
    · have hitem := List.getElem?_eq_getElem hindex
      have hrange := h.inRange k _ hitems _ (List.mem_of_getElem? hitem)
      -- Taking the item moves the place in the position, and nothing else.
      have htaken : Sound g words ⟨chart, k, index + 1, .pick⟩ := {
        h with
        index_le := by
          show index + 1 ≤ (chart.sets[k]?.getD []).length
          rw [hitems]
          exact hindex }
      obtain ⟨after?, heq, hafter⟩ := proceeds_take htaken hk hrange
      refine ⟨after?, (next_pick hitems hitem).trans heq, fun after ha => ?_⟩
      obtain ⟨hsound, hfollows⟩ := hafter after ha
      exact ⟨hsound, hfollows.position_le, hfollows.sets_eq⟩
    · refine proceeds_of_eq (next_pick_close hitems hindex) ⟨?_, Nat.le_succ k, fun _ _ => rfl⟩
      exact { h with index_le := Nat.zero_le _, ready := trivial }
  · exact ⟨none, next_pick_end hk, fun after ha => by simp at ha⟩

/-- A step from a sound moment does not fail and leads to a sound moment. -/
theorem Sound.proceeds (h : Sound g words m) : Proceeds g words m (m.next g words) := by
  obtain ⟨chart, k, index, task⟩ := m
  cases task with
  | start rules => exact proceeds_start h
  | pick => exact proceeds_pick h
  | complete item place size => exact proceeds_complete h
  | predict item name rules => exact proceeds_predict h

end Step

/-! ### All steps -/

theorem Sound.of_reaches (h : Sound g words m) {after : Moment} (hr : Reaches g words m after) :
    Sound g words after ∧ Follows m after := by
  induction hr with
  | refl => exact ⟨h, Follows.refl m⟩
  | tail _ hstep ih =>
    obtain ⟨hsound, hfollows⟩ := ih
    obtain ⟨after?, heq, hafter⟩ := hsound.proceeds
    obtain rfl := Except.ok.inj (hstep.symm.trans heq)
    obtain ⟨hsound', hfollows'⟩ := hafter _ rfl
    exact ⟨hsound', hfollows.trans hfollows'⟩

/-- A position never has more items than the bound. -/
theorem Sound.length_le (h : Sound g words m) {k : Nat} {items : List Item}
    (hitems : m.chart.sets[k]? = some items) : items.length ≤ maxItems g k :=
  length_le_maxItems (m.chart.nodup items (List.mem_of_getElem? hitems)) (h.inRange k items hitems)

theorem Sound.index_le_maxItems (h : Sound g words m) : m.index ≤ maxItems g m.position := by
  refine Nat.le_trans h.index_le ?_
  cases hitems : m.chart.sets[m.position]? with
  | none => exact Nat.zero_le _
  | some items => exact h.length_le hitems

end Moment

end Chart

end PhraseStructure
