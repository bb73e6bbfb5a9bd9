import PhraseStructure.Chart.Basic
import PhraseStructure.Proofs.Table

/-! Charts by what was added to them.  An addition puts an item at the end of one position, unless
it is there already, and leaves the others as they are.  One outside the chart is refused and
changes nothing.  So a position has the items that were added there, each once, in the order of
their first additions, in whatever order the positions took turns. -/

namespace PhraseStructure.Chart

/-! ### One addition -/

/-- The chart with one more item at a position that it has, unless the item is there. -/
def put (chart : Chart) (k : Nat) (item : Item) : Chart where
  sets := chart.sets.modify k (insert · item)
  nodup := by
    intro items hi
    obtain ⟨j, hj⟩ := List.mem_iff_getElem?.mp hi
    rw [List.getElem?_modify, Option.map_eq_map, Option.map_eq_some_iff] at hj
    obtain ⟨before, hbefore, rfl⟩ := hj
    have hnodup := chart.nodup before (List.mem_of_getElem? hbefore)
    split
    · exact nodup_insert hnodup item
    · exact hnodup

theorem add_eq_put {chart : Chart} {k : Nat} (hk : k < chart.sets.length) (item : Item) :
    chart.add k item = .ok (chart.put k item) := by
  have hsets : chart.sets.set k (insert chart.sets[k] item) =
      chart.sets.modify k (insert · item) := by
    rw [List.modify_eq_set_getElem?, List.getElem?_eq_getElem hk]
    rfl
  simp only [add, dif_pos hk, put, hsets]

theorem getElem?_sets_put (chart : Chart) (j : Nat) (item : Item) (k : Nat) :
    (chart.put j item).sets[k]? =
      chart.sets[k]?.map fun items => if j = k then insert items item else items := by
  rw [put, List.getElem?_modify]
  rfl

theorem length_sets_put (chart : Chart) (j : Nat) (item : Item) :
    (chart.put j item).sets.length = chart.sets.length := List.length_modify ..

theorem add_eq_error {chart : Chart} {k : Nat} (hk : chart.length ≤ k) (item : Item) :
    chart.add k item = .error ⟨chart.length, k⟩ :=
  dif_neg (Nat.not_lt.mpr hk)

theorem insert_eq_note (items : List Item) (item : Item) :
    insert items item = Table.note items item := by
  simp [insert, Table.note]

/-! ### Any number of additions -/

/-- An item that is to be added, and the position for it. -/
structure Addition where
  position : Nat
  item : Item
deriving DecidableEq

/-- The chart after an addition, or the same chart if it is refused. -/
def attempt (chart : Chart) (addition : Addition) : Chart :=
  match chart.add addition.position addition.item with
  | .ok after => after
  | .error _ => chart

/-- The chart of the given length after all additions. -/
def replay (length : Nat) (history : List Addition) : Chart :=
  history.foldl attempt (empty length)

/-- The items that were to be added at a position, in order. -/
def addedAt (k : Nat) (history : List Addition) : List Item :=
  (history.filter (·.position = k)).map Addition.item

variable {chart : Chart} {addition : Addition} {history : List Addition} {k n : Nat} {item : Item}

theorem attempt_of_lt (h : addition.position < chart.length) :
    chart.attempt addition = chart.put addition.position addition.item := by
  rw [attempt, add_eq_put h]

theorem attempt_of_length_le (h : chart.length ≤ addition.position) :
    chart.attempt addition = chart := by
  rw [attempt, add_eq_error h]

theorem length_attempt (chart : Chart) (addition : Addition) :
    (chart.attempt addition).length = chart.length := by
  rcases Nat.lt_or_ge addition.position chart.length with h | h
  · rw [attempt_of_lt h]
    exact length_sets_put ..
  · rw [attempt_of_length_le h]

/-- An attempt inserts its item at its position and changes no other one. -/
theorem getElem?_sets_attempt (hk : k < chart.length) (addition : Addition) :
    (chart.attempt addition).sets[k]? = chart.sets[k]?.map fun items =>
      if addition.position = k then insert items addition.item else items := by
  rcases Nat.lt_or_ge addition.position chart.length with h | h
  · rw [attempt_of_lt h, getElem?_sets_put]
  · rw [attempt_of_length_le h]
    have hne : addition.position ≠ k := by omega
    simp [hne]

theorem replay_concat (n : Nat) (history : List Addition) (addition : Addition) :
    replay n (history ++ [addition]) = (replay n history).attempt addition := by
  rw [replay, List.foldl_append, List.foldl_cons, List.foldl_nil, replay]

theorem length_replay (n : Nat) (history : List Addition) : (replay n history).length = n := by
  induction history using List.reverseRecOn with
  | nil => exact List.length_replicate
  | append_singleton history addition ih => rw [replay_concat, length_attempt, ih]

theorem addedAt_concat (k : Nat) (history : List Addition) (addition : Addition) :
    addedAt k (history ++ [addition]) =
      addedAt k history ++ if addition.position = k then [addition.item] else [] := by
  rw [addedAt, List.filter_append, List.map_append, ← addedAt]
  by_cases h : addition.position = k
  · simp [h]
  · simp [h]

theorem mem_addedAt : item ∈ addedAt k history ↔ ⟨k, item⟩ ∈ history := by
  simp only [addedAt, List.mem_map, List.mem_filter, decide_eq_true_eq]
  constructor
  · rintro ⟨⟨_, _⟩, ⟨hmem, rfl⟩, rfl⟩
    exact hmem
  · exact fun hmem => ⟨_, ⟨hmem, rfl⟩, rfl⟩

/-- A position has the items that were added there, each once, in the order of their first
additions. -/
theorem firstAppearances_replay (h : k < n) (history : List Addition) :
    ∃ items, (replay n history).sets[k]? = some items ∧
      Table.FirstAppearances (addedAt k history) items := by
  induction history using List.reverseRecOn with
  | nil => exact ⟨[], List.getElem?_replicate_of_lt h, .nil⟩
  | append_singleton history addition ih =>
    obtain ⟨items, hset, hitems⟩ := ih
    have hk : k < (replay n history).length := by rwa [length_replay]
    refine ⟨_, by rw [replay_concat, getElem?_sets_attempt hk, hset, Option.map_some], ?_⟩
    rw [addedAt_concat]
    split
    · rw [insert_eq_note]
      exact hitems.note addition.item
    · rwa [List.append_nil]

/-- What a chart has at a position was added there. -/
theorem exists_mem_replay_iff :
    (∃ items, (replay n history).sets[k]? = some items ∧ item ∈ items) ↔
      k < n ∧ ⟨k, item⟩ ∈ history := by
  rw [← mem_addedAt]
  constructor
  · rintro ⟨items, hset, hitem⟩
    have hk := (List.getElem?_eq_some_iff.mp hset).1
    rw [← Chart.length, length_replay] at hk
    obtain ⟨others, hothers, hfirst⟩ := firstAppearances_replay hk history
    obtain rfl := Option.some.inj (hset.symm.trans hothers)
    exact ⟨hk, (hfirst.mem item).mp hitem⟩
  · rintro ⟨hk, hmem⟩
    obtain ⟨items, hset, hfirst⟩ := firstAppearances_replay hk history
    exact ⟨items, hset, (hfirst.mem item).mpr hmem⟩

end PhraseStructure.Chart
