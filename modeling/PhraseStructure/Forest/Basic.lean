import PhraseStructure.Chart.Basic

/-! Forests: the complete rules of a chart, gathered by the position at which they begin, with the
words of the sentence.  The constituents of one position come in the order in which they end, and
among those that end together in the order of the chart. -/

namespace PhraseStructure

/-- A rule found complete over a part of the sentence. -/
structure Constituent where
  start : Nat
  stop : Nat
  rule : Rule
deriving DecidableEq

def Constituent.text (c : Constituent) : String :=
  toString c.start ++ ".." ++ toString c.stop ++ ": " ++ c.rule.text

/-- The constituents that begin at each position, and the words. -/
structure Forest where
  rows : List (List Constituent)
  words : List String
deriving DecidableEq

namespace Forest

/-- The constituent of an item that ends at `k`, if the item is complete and begins at `origin`. -/
def constituent? (origin k : Nat) (item : Item) : Option Constituent :=
  if item.isComplete ∧ item.origin = origin then some ⟨origin, k, item.rule⟩ else none

/-- The constituents of a chart that begin at `origin`. -/
def row (chart : Chart) (origin : Nat) : List Constituent :=
  chart.sets.zipIdx.flatMap fun (items, k) => items.filterMap (constituent? origin k)

/-- The forest of a chart.  Constituents that begin outside the chart are left out. -/
def ofChart (chart : Chart) (words : List String) : Forest :=
  ⟨(List.range chart.length).map (row chart), words⟩

/-- The first complete item of a chart that begins outside it. -/
def stray? (chart : Chart) : Option Item :=
  chart.sets.flatten.find? fun item => item.isComplete && chart.length ≤ item.origin

/-- The forest of a chart in which every complete item begins. -/
def ofChart? (chart : Chart) (words : List String) : Except OutOfRange Forest :=
  match stray? chart with
  | some item => .error ⟨chart.length, item.origin⟩
  | none => .ok (ofChart chart words)

def length (f : Forest) : Nat := f.rows.length

def isEmpty (f : Forest) : Bool := f.length == 0

/-- The constituents that begin at a position.  There are none outside the forest. -/
def startingAt (f : Forest) (start : Nat) : List Constituent := f.rows[start]?.getD []

def size (f : Forest) : Nat := f.rows.flatten.length

def without (f : Forest) (c : Constituent) : Forest :=
  { f with rows := f.rows.modify c.start fun row => row.filter (· != c) }

/-- The forest as text: each position, and the constituents that begin there below it. -/
def text (f : Forest) : String :=
  String.join (f.rows.zipIdx.map fun (row, k) =>
    "Origin " ++ toString k ++ ":\n" ++ String.join (row.map fun c => "  " ++ c.text ++ "\n"))

@[simp] theorem words_without (f : Forest) (c : Constituent) : (f.without c).words = f.words := rfl

/-- Taking out a constituent leaves the others where they are. -/
theorem startingAt_without (f : Forest) (c : Constituent) (start : Nat) :
    (f.without c).startingAt start =
      if start = c.start then (f.startingAt start).filter (· != c) else f.startingAt start := by
  simp only [startingAt, without, List.getElem?_modify]
  by_cases h : c.start = start
  · subst h
    cases f.rows[c.start]? <;> simp
  · simp [h, Ne.symm h]

end Forest

end PhraseStructure
