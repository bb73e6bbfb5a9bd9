import PhraseStructure.Proofs.Tree.WellBuilt
import PhraseStructure.Tree.Node

/-! Chunks as innermost phrases.  A node has its place in the tree, the path that leads to it, and
the nodes are listed in the order of their paths, each once.  The chunks are those of them that are
phrases, which are branches with the wanted label and a leaf below them, with no phrase further
down.  A branch without a leaf is neither, at whatever depth it stands. -/

namespace PhraseStructure

namespace Tree

variable {label name : String} {span : Span} {children : List Tree} {t u : Tree} {node : Node}

/-! ### Paths -/

/-- The subtree to which a path leads, if there is one. -/
def subtreeAt? (t : Tree) : List Nat → Option Tree
  | [] => some t
  | index :: path => t.children[index]?.bind (subtreeAt? · path)

theorem subtreeAt?_cons {index : Nat} {path : List Nat} : t.subtreeAt? (index :: path) = some u ↔
    ∃ child, t.children[index]? = some child ∧ child.subtreeAt? path = some u :=
  Option.bind_eq_some_iff

/-- A path goes on from where its first part leads. -/
theorem subtreeAt?_append (t : Tree) (path more : List Nat) :
    t.subtreeAt? (path ++ more) = (t.subtreeAt? path).bind (subtreeAt? · more) := by
  induction path generalizing t with
  | nil => rfl
  | cons index path ih =>
    rw [List.cons_append, subtreeAt?, subtreeAt?]
    cases t.children[index]? with
    | none => rfl
    | some child => exact ih child

/-- Paths lead to the trees within a tree. -/
theorem within_iff_exists_path : Within u t ↔ ∃ path, t.subtreeAt? path = some u := by
  constructor
  · intro h
    induction h using Relation.ReflTransGen.head_induction_on with
    | refl => exact ⟨[], rfl⟩
    | @head lower upper hchild _ ih =>
      obtain ⟨path, hpath⟩ := ih
      obtain ⟨index, hindex⟩ := List.mem_iff_getElem?.mp hchild
      refine ⟨path ++ [index], ?_⟩
      rw [subtreeAt?_append, hpath]
      exact subtreeAt?_cons.mpr ⟨lower, hindex, rfl⟩
  · rintro ⟨path, h⟩
    induction path generalizing t with
    | nil =>
      obtain rfl := Option.some.inj h
      exact Relation.ReflTransGen.refl
    | cons index path ih =>
      obtain ⟨child, hchild, hpath⟩ := subtreeAt?_cons.mp h
      exact Relation.ReflTransGen.tail (ih hpath) (List.mem_of_getElem? hchild)

theorem below_of_path {path : List Nat} (h : t.subtreeAt? path = some u) (hne : path ≠ []) :
    Below u t := by
  cases path with
  | nil => exact absurd rfl hne
  | cons index path =>
    obtain ⟨child, hchild, hpath⟩ := subtreeAt?_cons.mp h
    have hwithin : Within u child := within_iff_exists_path.mpr ⟨path, hpath⟩
    exact Relation.TransGen.tail' hwithin (List.mem_of_getElem? hchild)

/-! ### The list of nodes -/

theorem mem_nodesFrom : node ∈ nodesFrom 0 children ↔
    ∃ (index : Nat) (child : Tree), children[index]? = some child ∧
      ∃ inner ∈ child.nodes, inner.under index = node := by
  rw [nodesFrom_eq, List.mem_flatMap]
  simp only [List.mem_map, Prod.exists, List.mem_zipIdx_iff_getElem?]
  rw [exists_comm]

/-- The nodes of a tree are the paths in it with the subtrees to which they lead. -/
theorem mem_nodes : node ∈ t.nodes ↔ t.subtreeAt? node.path = some node.tree := by
  induction t generalizing node with
  | leaf word span =>
    obtain ⟨path, u⟩ := node
    cases path <;> simp [nodes, subtreeAt?, children, eq_comm]
  | branch name span children ih =>
    obtain ⟨path, u⟩ := node
    rw [nodes, List.mem_cons, mem_nodesFrom]
    cases path with
    | nil => simp [subtreeAt?, Node.under, eq_comm]
    | cons index path =>
      rw [subtreeAt?_cons]
      constructor
      · rintro (h | ⟨place, child, hchild, inner, hinner, heq⟩)
        · simp at h
        · obtain ⟨⟨rfl, rfl⟩, rfl⟩ : (place = index ∧ inner.path = path) ∧ inner.tree = u := by
            simpa [Node.under] using heq
          exact ⟨child, hchild, (ih child (List.mem_of_getElem? hchild)).mp hinner⟩
      · rintro ⟨child, hchild, hpath⟩
        have hmem := (@ih child (List.mem_of_getElem? hchild) ⟨path, u⟩).mpr hpath
        exact .inr ⟨index, child, hchild, _, hmem, rfl⟩

theorem below_of_mem_nodesFrom (name : String) (span : Span) (h : node ∈ nodesFrom 0 children) :
    Below node.tree (.branch name span children) := by
  obtain ⟨index, child, hchild, inner, hinner, rfl⟩ := mem_nodesFrom.mp h
  have hwithin : Within inner.tree child := within_iff_exists_path.mpr ⟨_, mem_nodes.mp hinner⟩
  exact below_branch.mpr ⟨child, List.mem_of_getElem? hchild, hwithin⟩

/-- The nodes come in the order of their paths, in which a path stands before those that go on from
it.  So no node is listed twice. -/
theorem pairwise_nodes (t : Tree) :
    t.nodes.Pairwise fun a b => List.Lex (· < ·) a.path b.path := by
  induction t with
  | leaf word span => exact List.pairwise_singleton _ _
  | branch name span children ih =>
    have hindices : children.zipIdx.Pairwise fun a b => a.2 < b.2 := by
      rw [← List.pairwise_map (f := Prod.snd) (R := (· < ·)), List.zipIdx_map_snd]
      exact List.pairwise_lt_range'
    rw [nodes, nodesFrom_eq, List.pairwise_cons, List.pairwise_flatMap]
    refine ⟨?_, ?_, hindices.imp ?_⟩
    · intro node hnode
      obtain ⟨child, -, hnode⟩ := List.mem_flatMap.mp hnode
      obtain ⟨inner, -, rfl⟩ := List.mem_map.mp hnode
      exact .nil
    · intro child hchild
      rw [List.pairwise_map]
      exact (ih child.1 (List.fst_mem_of_mem_zipIdx hchild)).imp .cons
    · intro first second hlt a ha b hb
      obtain ⟨_, -, rfl⟩ := List.mem_map.mp ha
      obtain ⟨_, -, rfl⟩ := List.mem_map.mp hb
      exact .rel hlt

/-! ### Phrases -/

/-- A branch with the label that has a leaf below it. -/
def IsPhrase (label : String) (t : Tree) : Prop :=
  t.label? = some label ∧ ∃ u, Below u t ∧ u.isLeaf

/-- A phrase with no phrase below it. -/
def IsInnermost (label : String) (t : Tree) : Prop :=
  t.IsPhrase label ∧ ∀ u, Below u t → ¬u.IsPhrase label

/-- A tree is empty when it has no leaf. -/
theorem isEmpty_eq_false_iff : t.isEmpty = false ↔ ∃ u, Within u t ∧ u.isLeaf := by
  induction t with
  | leaf word span => simp [within_leaf, isLeaf]
  | branch name span children ih =>
    rw [isEmpty_branch, List.all_eq_false]
    constructor
    · rintro ⟨child, hchild, hempty⟩
      obtain ⟨u, hu, hleaf⟩ := (ih child hchild).mp (Bool.eq_false_iff.mpr hempty)
      exact ⟨u, within_branch.mpr (.inr ⟨child, hchild, hu⟩), hleaf⟩
    · rintro ⟨u, hu, hleaf⟩
      rcases within_branch.mp hu with rfl | ⟨child, hchild, hu⟩
      · simp [isLeaf] at hleaf
      · exact ⟨child, hchild, Bool.eq_false_iff.mp ((ih child hchild).mpr ⟨u, hu, hleaf⟩)⟩

theorem isPhrase_leaf (word : String) (span : Span) : ¬IsPhrase label (.leaf word span) := by
  rintro ⟨hlabel, -⟩
  simp [label?] at hlabel

theorem isPhrase_iff : t.isPhrase label ↔ t.IsPhrase label := by
  rw [isPhrase, Bool.and_eq_true, beq_iff_eq, Bool.not_eq_true']
  cases t with
  | leaf word span => simp [label?, isPhrase_leaf]
  | branch name span children =>
    refine and_congr_right fun _ => ?_
    rw [isEmpty_eq_false_iff]
    simp only [within_branch, below_branch, or_and_right, exists_or, exists_eq_left, isLeaf,
      Bool.false_eq_true, false_or]

theorem hasPhrase_iff : t.hasPhrase label ↔ ∃ u, Within u t ∧ u.IsPhrase label := by
  induction t with
  | leaf word span => simp [hasPhrase, within_leaf, isPhrase_leaf]
  | branch name span children ih =>
    rw [hasPhrase, Bool.or_eq_true, isPhrase_iff, anyHasPhrase_eq, List.any_eq_true]
    constructor
    · rintro (h | ⟨child, hchild, h⟩)
      · exact ⟨_, Relation.ReflTransGen.refl, h⟩
      · obtain ⟨u, hu, h⟩ := (ih child hchild).mp h
        exact ⟨u, within_branch.mpr (.inr ⟨child, hchild, hu⟩), h⟩
    · rintro ⟨u, hu, h⟩
      rcases within_branch.mp hu with rfl | ⟨child, hchild, hu⟩
      · exact .inl h
      · exact .inr ⟨child, hchild, (ih child hchild).mpr ⟨u, hu, h⟩⟩

/-- The test by which chunking stops at a branch. -/
theorem isInnermost_branch : IsInnermost label (.branch name span children) ↔
    isPhrase label (.branch name span children) ∧ ¬anyHasPhrase label children := by
  rw [IsInnermost, isPhrase_iff, anyHasPhrase_eq, List.any_eq_true]
  refine and_congr_right fun _ => ?_
  simp only [below_branch, hasPhrase_iff]
  grind

theorem isInnermost_leaf (word : String) (span : Span) : ¬IsInnermost label (.leaf word span) :=
  fun h => isPhrase_leaf word span h.1

instance decidableIsInnermost (label : String) : (t : Tree) → Decidable (t.IsInnermost label)
  | .branch .. => decidable_of_iff _ isInnermost_branch.symm
  | .leaf word span => .isFalse (isInnermost_leaf word span)

/-- Every phrase has an innermost phrase at or below it. -/
theorem exists_isInnermost (hu : Within u t) (h : u.IsPhrase label) :
    ∃ v, Within v t ∧ v.IsInnermost label := by
  induction t generalizing u with
  | leaf word span =>
    rw [within_leaf.mp hu] at h
    exact absurd h (isPhrase_leaf word span)
  | branch name span children ih =>
    by_cases hinner : ∃ v, Below v (.branch name span children) ∧ v.IsPhrase label
    · obtain ⟨v, hv, hphrase⟩ := hinner
      obtain ⟨child, hchild, hv⟩ := below_branch.mp hv
      obtain ⟨w, hw, hinnermost⟩ := ih child hchild hv hphrase
      exact ⟨w, within_branch.mpr (.inr ⟨child, hchild, hw⟩), hinnermost⟩
    · rcases within_branch.mp hu with rfl | ⟨child, hchild, hu⟩
      · exact ⟨_, Relation.ReflTransGen.refl, h, fun v hv hphrase => hinner ⟨v, hv, hphrase⟩⟩
      · exact absurd ⟨u, below_branch.mpr ⟨child, hchild, hu⟩, h⟩ hinner

/-! ### Chunks -/

theorem chunksFrom_eq_filter {ts : List Tree} (index : Nat)
    (h : ∀ t ∈ ts, t.chunks label = t.nodes.filter fun node => node.tree.IsInnermost label) :
    chunksFrom label index ts =
      (nodesFrom index ts).filter fun node => node.tree.IsInnermost label := by
  induction ts generalizing index with
  | nil => rfl
  | cons t ts ih =>
    obtain ⟨ht, hts⟩ := List.forall_mem_cons.mp h
    rw [chunksFrom, nodesFrom, List.filter_append, List.filter_map, ht, ih (index + 1) hts]
    rfl

/-- The chunks are the nodes that are innermost phrases. -/
theorem chunks_eq_filter (label : String) (t : Tree) :
    t.chunks label = t.nodes.filter fun node => node.tree.IsInnermost label := by
  induction t with
  | leaf word span => simp [chunks, nodes, isInnermost_leaf]
  | branch name span children ih =>
    rw [chunks, nodes, List.filter_cons, chunksFrom_eq_filter 0 ih]
    simp only [Bool.and_eq_true, Bool.not_eq_true', ← Bool.not_eq_true, ← isInnermost_branch,
      decide_eq_true_iff]
    by_cases h : IsInnermost label (.branch name span children)
    · have hnone :
          (nodesFrom 0 children).filter (fun node => node.tree.IsInnermost label) = [] := by
        rw [List.filter_eq_nil_iff]
        intro node hnode hinner
        have hbelow := below_of_mem_nodesFrom name span hnode
        exact h.2 node.tree hbelow (of_decide_eq_true hinner).1
      rw [if_pos h, if_pos h, hnone]
    · rw [if_neg h, if_neg h]

theorem mem_chunks {t : Tree} : node ∈ t.chunks label ↔
    t.subtreeAt? node.path = some node.tree ∧ node.tree.IsInnermost label := by
  rw [chunks_eq_filter, List.mem_filter, mem_nodes, decide_eq_true_iff]

/-- No chunk lies inside another. -/
theorem eq_of_path_prefix {a b : Node} (ha : a ∈ t.chunks label) (hb : b ∈ t.chunks label)
    (h : a.path <+: b.path) : a = b := by
  obtain ⟨path, upper⟩ := a
  obtain ⟨_, lower⟩ := b
  obtain ⟨more, rfl⟩ := h
  obtain ⟨hupper, hinnermost⟩ := mem_chunks.mp ha
  obtain ⟨hlower, hphrase, -⟩ := mem_chunks.mp hb
  rw [subtreeAt?_append, hupper] at hlower
  by_cases hmore : more = []
  · subst hmore
    obtain rfl : upper = lower := Option.some.inj hlower
    rw [List.append_nil]
  · exact absurd hphrase (hinnermost.2 lower (below_of_path hlower hmore))

/-- A phrase has a chunk at or below it. -/
theorem exists_chunk_of_isPhrase (hnode : node ∈ t.nodes) (hphrase : node.tree.IsPhrase label) :
    ∃ chunk ∈ t.chunks label, node.path <+: chunk.path := by
  obtain ⟨v, hv, hinnermost⟩ := exists_isInnermost Relation.ReflTransGen.refl hphrase
  obtain ⟨more, hmore⟩ := within_iff_exists_path.mp hv
  refine ⟨⟨node.path ++ more, v⟩, mem_chunks.mpr ⟨?_, hinnermost⟩, List.prefix_append _ _⟩
  rw [subtreeAt?_append, mem_nodes.mp hnode]
  exact hmore

/-- The chunks of a tree are its innermost phrases, in preorder and each once: the branches with the
label that have a leaf below them, but no further such branch.  So no chunk lies inside another, and
every branch with the label that has a leaf has a chunk at or below it. -/
theorem chunks_eq_innermost_nodes (label : String) (t : Tree) :
    t.chunks label = t.nodes.filter (fun node => node.tree.IsInnermost label) ∧
      (∀ node, node ∈ t.nodes ↔ t.subtreeAt? node.path = some node.tree) ∧
      (t.nodes.Pairwise fun a b => List.Lex (· < ·) a.path b.path) ∧
      (∀ a ∈ t.chunks label, ∀ b ∈ t.chunks label, a.path <+: b.path → a = b) ∧
      ∀ node ∈ t.nodes, node.tree.IsPhrase label →
        ∃ chunk ∈ t.chunks label, node.path <+: chunk.path :=
  ⟨chunks_eq_filter label t, fun _ => mem_nodes, pairwise_nodes t,
    fun _ ha _ hb h => eq_of_path_prefix ha hb h,
    fun _ hnode hphrase => exists_chunk_of_isPhrase hnode hphrase⟩

/-- A phrase around a phrase. -/
def double : Tree := .branch "NP" ⟨0, 1⟩ [.branch "NP" ⟨0, 0⟩ [], .branch "NP" ⟨0, 1⟩
  [.leaf "x" ⟨0, 1⟩, .branch "NP" ⟨1, 1⟩ [.branch "NP" ⟨1, 1⟩ []]]]

/-- A sentence with a phrase around a phrase, and with branches of the label without a leaf. -/
def layered : Tree := .branch "S" ⟨0, 2⟩ [double, .branch "NP" ⟨1, 2⟩
  [.branch "NP" ⟨1, 1⟩ [], .leaf "y" ⟨1, 2⟩]]

theorem chunks_eq_innermost_nodes_layered : ⟨[0], double⟩ ∈ layered.nodes ∧
    double.IsPhrase "NP" ∧ (∃ chunk ∈ layered.chunks "NP", [0] <+: chunk.path) ∧
    ∀ a ∈ layered.chunks "NP", ∀ b ∈ layered.chunks "NP", a.path <+: b.path → a = b := by
  have hnode : ⟨[0], double⟩ ∈ layered.nodes := mem_nodes.mpr rfl
  have hphrase : double.IsPhrase "NP" := isPhrase_iff.mp (by decide)
  obtain ⟨-, -, -, hprefix, hchunk⟩ := chunks_eq_innermost_nodes "NP" layered
  exact ⟨hnode, hphrase, hchunk _ hnode hphrase, hprefix⟩

example : (layered.chunks "NP").map Node.path = [[0, 1], [1]] := by decide

end Tree

end PhraseStructure
