import PhraseStructure.Tree

/-! The nodes of a tree, each with the path that leads to it, and the phrases that chunking picks.
A chunk is a branch with the wanted label that covers words and has no other such branch below it.
A branch without leaves is never a chunk, and it does not keep the branches above it from being
one. -/

namespace PhraseStructure

/-- A subtree at its place: the path holds the index of the child to go to at each step from the
root. -/
structure Node where
  path : List Nat
  tree : Tree
deriving DecidableEq

/-- The node as it is seen from the parent of the tree it lies in, where this tree is child
`index`. -/
def Node.under (index : Nat) (node : Node) : Node := { node with path := index :: node.path }

namespace Tree

mutual

/-- The nodes of the tree, each before those below it, from left to right. -/
def nodes : Tree → List Node
  | .branch label span children =>
    ⟨[], .branch label span children⟩ :: nodesFrom 0 children
  | .leaf word span => [⟨[], .leaf word span⟩]

/-- The nodes below a branch, from the child with the given index on. -/
def nodesFrom (index : Nat) : List Tree → List Node
  | [] => []
  | t :: ts => (nodes t).map (Node.under index) ++ nodesFrom (index + 1) ts

end

/-- Whether the tree is a branch with the label and covers words. -/
def isPhrase (label : String) (t : Tree) : Bool := t.label? == some label && !t.isEmpty

mutual

/-- Whether there is a phrase with the label anywhere in the tree. -/
def hasPhrase (label : String) : Tree → Bool
  | .branch name span children =>
    isPhrase label (.branch name span children) || anyHasPhrase label children
  | .leaf .. => false

/-- Whether there is a phrase with the label in some tree of a list. -/
def anyHasPhrase (label : String) : List Tree → Bool
  | [] => false
  | t :: ts => hasPhrase label t || anyHasPhrase label ts

end

mutual

/-- The innermost phrases with the label, from left to right. -/
def chunks (label : String) : Tree → List Node
  | .branch name span children =>
    if isPhrase label (.branch name span children) && !anyHasPhrase label children then
      [⟨[], .branch name span children⟩]
    else
      chunksFrom label 0 children
  | .leaf .. => []

/-- The innermost phrases below a branch, from the child with the given index on. -/
def chunksFrom (label : String) (index : Nat) : List Tree → List Node
  | [] => []
  | t :: ts => (chunks label t).map (Node.under index) ++ chunksFrom label (index + 1) ts

end

def nounPhrase : String := "NP"

def nounPhraseChunks (t : Tree) : List Node := t.chunks nounPhrase

theorem anyHasPhrase_eq (label : String) (ts : List Tree) :
    anyHasPhrase label ts = ts.any (hasPhrase label) := by
  induction ts with
  | nil => rfl
  | cons t ts ih => rw [anyHasPhrase, ih, List.any_cons]

theorem nodesFrom_eq (index : Nat) (ts : List Tree) :
    nodesFrom index ts =
      (ts.zipIdx index).flatMap fun child => child.1.nodes.map (Node.under child.2) := by
  induction ts generalizing index with
  | nil => rfl
  | cons t ts ih => rw [nodesFrom, ih, List.zipIdx_cons, List.flatMap_cons]

end Tree

end PhraseStructure
