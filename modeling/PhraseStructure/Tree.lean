import PhraseStructure.Text.Line

/-! Parse trees.  A branch has the nonterminal that it stands for, the part of the sentence that it
covers and its children.  A leaf has a word of the sentence and its place.  A branch without
children covers no words. -/

namespace PhraseStructure

/-- A part of a sentence: the words from `start` on, up to `stop`. -/
structure Span where
  start : Nat
  stop : Nat
deriving DecidableEq

inductive Tree where
  | branch (label : String) (span : Span) (children : List Tree)
  | leaf (word : String) (span : Span)

namespace Tree

mutual

def decEq : (t u : Tree) → Decidable (t = u)
  | .branch label span children, .branch label' span' children' =>
    if hl : label = label' then
      if hs : span = span' then
        match decEqAll children children' with
        | isTrue hc => isTrue (by rw [hl, hs, hc])
        | isFalse hc => isFalse fun h => hc (by injection h)
      else isFalse fun h => hs (by injection h)
    else isFalse fun h => hl (by injection h)
  | .leaf word span, .leaf word' span' =>
    if hw : word = word' then
      if hs : span = span' then isTrue (by rw [hw, hs])
      else isFalse fun h => hs (by injection h)
    else isFalse fun h => hw (by injection h)
  | .branch .., .leaf .. => isFalse nofun
  | .leaf .., .branch .. => isFalse nofun

def decEqAll : (ts us : List Tree) → Decidable (ts = us)
  | [], [] => isTrue rfl
  | t :: ts, u :: us =>
    match decEq t u with
    | isTrue ht =>
      match decEqAll ts us with
      | isTrue hts => isTrue (by rw [ht, hts])
      | isFalse hts => isFalse fun h => hts (by injection h)
    | isFalse ht => isFalse fun h => ht (by injection h)
  | [], _ :: _ => isFalse nofun
  | _ :: _, [] => isFalse nofun

end

instance : DecidableEq Tree := decEq

def isLeaf : Tree → Bool
  | branch .. => false
  | leaf .. => true

def isBranch (t : Tree) : Bool := !t.isLeaf

def label? : Tree → Option String
  | branch label _ _ => some label
  | leaf .. => none

def word? : Tree → Option String
  | branch .. => none
  | leaf word _ => some word

/-- The part of the sentence that the tree covers. -/
def span : Tree → Span
  | branch _ span _ => span
  | leaf _ span => span

/-- The trees directly below this one. -/
def children : Tree → List Tree
  | branch _ _ children => children
  | leaf .. => []

mutual

/-- The words of the leaves, from left to right. -/
def leaves : Tree → List String
  | .branch _ _ children => leavesAll children
  | .leaf word _ => [word]

/-- The words of the leaves of all trees in a list. -/
def leavesAll : List Tree → List String
  | [] => []
  | t :: ts => leaves t ++ leavesAll ts

end

mutual

/-- Whether there is no leaf in the tree. -/
def isEmpty : Tree → Bool
  | .branch _ _ children => areEmpty children
  | .leaf .. => false

/-- Whether there is no leaf in any tree of a list. -/
def areEmpty : List Tree → Bool
  | [] => true
  | t :: ts => isEmpty t && areEmpty ts

end

/-- What holds of every leaf, and of a branch when it holds of its children, holds of every tree. -/
@[elab_as_elim, induction_eliminator]
theorem induction {motive : Tree → Prop}
    (leaf : ∀ word span, motive (.leaf word span))
    (branch : ∀ label span children, (∀ child ∈ children, motive child) →
      motive (.branch label span children)) (t : Tree) : motive t :=
  match t with
  | .leaf word span => leaf word span
  | .branch label span children =>
    branch label span children fun child _ => induction leaf branch child

theorem leavesAll_eq (ts : List Tree) : leavesAll ts = ts.flatMap leaves := by
  induction ts with
  | nil => rfl
  | cons t ts ih => rw [leavesAll, ih, List.flatMap_cons]

@[simp] theorem leaves_branch (label : String) (span : Span) (children : List Tree) :
    leaves (.branch label span children) = children.flatMap leaves := by
  rw [leaves, leavesAll_eq]

@[simp] theorem leaves_leaf (word : String) (span : Span) : leaves (.leaf word span) = [word] := rfl

theorem areEmpty_eq (ts : List Tree) : areEmpty ts = ts.all isEmpty := by
  induction ts with
  | nil => rfl
  | cons t ts ih => rw [areEmpty, ih, List.all_cons]

@[simp] theorem isEmpty_branch (label : String) (span : Span) (children : List Tree) :
    isEmpty (.branch label span children) = children.all isEmpty := by
  rw [isEmpty, areEmpty_eq]

@[simp] theorem isEmpty_leaf (word : String) (span : Span) :
    isEmpty (.leaf word span) = false := rfl

/-- The words that the tree covers, with blanks between them. -/
def text (t : Tree) : String := " ".intercalate t.leaves

end Tree

end PhraseStructure
