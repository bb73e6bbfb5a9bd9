import PhraseStructure.Chart.Item

/-! Charts: for every position in a sentence, the items that end there.  The items of a position
keep the order in which they were added, and none is there twice. -/

namespace PhraseStructure

structure Chart where
  sets : List (List Item)
  nodup : ∀ items ∈ sets, items.Nodup
deriving DecidableEq

/-- A position that a chart of the given length does not have. -/
structure OutOfRange where
  length : Nat
  index : Nat
deriving DecidableEq

def OutOfRange.message (error : OutOfRange) : String :=
  "index out of bounds: the len is " ++ toString error.length ++ " but the index is " ++
    toString error.index

namespace Chart

/-- The items followed by a further one, unless it is among them.  Rules are compared as values:
each stands for the one copy of it that the grammar owns, and no grammar has two equal ones. -/
def insert (items : List Item) (item : Item) : List Item :=
  if items.contains item then items else items ++ [item]

/-- The items followed by those of a list that are not among them. -/
def insertAll (items new : List Item) : List Item := new.foldl insert items

@[simp] theorem mem_insert {items : List Item} {item x : Item} :
    x ∈ insert items item ↔ x ∈ items ∨ x = item := by
  unfold insert
  split
  · next h =>
    have := List.contains_iff_mem.mp h
    grind
  · simp

@[simp] theorem mem_insertAll {items new : List Item} {x : Item} :
    x ∈ insertAll items new ↔ x ∈ items ∨ x ∈ new := by
  induction new generalizing items with
  | nil => simp [insertAll]
  | cons item new ih =>
    rw [insertAll, List.foldl_cons, ← insertAll, ih, mem_insert, List.mem_cons, or_assoc]

theorem nodup_insert {items : List Item} (h : items.Nodup) (item : Item) :
    (insert items item).Nodup := by
  unfold insert
  split
  · exact h
  · next hc =>
    rw [List.contains_iff_mem] at hc
    rw [List.nodup_append]
    refine ⟨h, by simp, ?_⟩
    intro x hx y hy hxy
    rw [List.mem_singleton] at hy
    exact hc (hy ▸ hxy ▸ hx)

theorem nodup_insertAll {items : List Item} (h : items.Nodup) (new : List Item) :
    (insertAll items new).Nodup := by
  induction new generalizing items with
  | nil => exact h
  | cons item new ih => exact ih (nodup_insert h item)

/-- The chart with the given number of positions and no items. -/
def empty (length : Nat) : Chart where
  sets := List.replicate length []
  nodup := by
    intro items h
    rw [List.eq_of_mem_replicate h]
    exact List.nodup_nil

def length (chart : Chart) : Nat := chart.sets.length

def isEmpty (chart : Chart) : Bool := chart.length == 0

/-- The number of items that end at a position. -/
def sizeAt (chart : Chart) (k : Nat) : Except OutOfRange Nat :=
  if h : k < chart.sets.length then .ok chart.sets[k].length else .error ⟨chart.length, k⟩

/-- Whether the item is there at a position. -/
def has (chart : Chart) (k : Nat) (item : Item) : Except OutOfRange Bool :=
  if h : k < chart.sets.length then .ok (chart.sets[k].contains item)
  else .error ⟨chart.length, k⟩

theorem nodup_set_insert (chart : Chart) {k : Nat} (h : k < chart.sets.length) (item : Item) :
    ∀ items ∈ chart.sets.set k (insert chart.sets[k] item), items.Nodup := by
  intro items hi
  rcases List.mem_or_eq_of_mem_set hi with hi | rfl
  · exact chart.nodup items hi
  · exact nodup_insert (chart.nodup _ (List.getElem_mem h)) item

/-- The chart with one more item at a position, unless the item is there. -/
def add (chart : Chart) (k : Nat) (item : Item) : Except OutOfRange Chart :=
  if h : k < chart.sets.length then
    .ok ⟨chart.sets.set k (insert chart.sets[k] item), chart.nodup_set_insert h item⟩
  else
    .error ⟨chart.length, k⟩

/-- Whether some rule for `name` was found complete over the whole sentence. -/
def accepts (chart : Chart) (name : String) : Bool :=
  match chart.sets.getLast? with
  | none => false
  | some items =>
    items.any fun item => item.origin == 0 && item.isComplete && item.rule.lhs == name

/-- An item on its line below the position `k`, with the part of the sentence that it covers. -/
def itemLine (k : Nat) (item : Item) : String :=
  "  " ++ toString item.origin ++ ".." ++ toString k ++ ": " ++ item.text ++ "\n"

/-- The chart as text: each position, and the items that end there below it. -/
def text (chart : Chart) : String :=
  String.join (chart.sets.zipIdx.map fun (items, k) =>
    "State " ++ toString k ++ ":\n" ++ String.join (items.map (itemLine k)))

end Chart

end PhraseStructure
