/-! Classes of characters, given as ranges of code points. -/

namespace PhraseStructure.Text

/-- A class of characters: those whose code point lies in one of the ranges, ends included. -/
structure CharClass where
  ranges : List (Nat × Nat)

def CharClass.contains (cls : CharClass) (c : Char) : Bool :=
  cls.ranges.any fun range => range.1 ≤ c.toNat && c.toNat ≤ range.2

theorem CharClass.contains_iff {cls : CharClass} {c : Char} :
    cls.contains c ↔ ∃ range ∈ cls.ranges, range.1 ≤ c.toNat ∧ c.toNat ≤ range.2 := by
  simp [CharClass.contains]

end PhraseStructure.Text
