import PhraseStructure.Proofs.Parse
import PhraseStructure.Proofs.Tree.Innermost

/-! The chunks of a parse as parts of the sentence.  The spans of a tree come from the chart, while
its leaves, whether it is empty and its chunks are read off its shape.  In a tree that is built over
words the two agree at every node, because the children of a branch tile it.  So the chunks of a
parse follow one another in the sentence, and each of them covers the words of its span. -/

namespace PhraseStructure

open Relation

/-- The spans follow one another between `start` and `stop`, and none of them is empty.  There may
be gaps between them. -/
def Packs (start : Nat) (spans : List Span) (stop : Nat) : Prop :=
  match spans with
  | [] => start ≤ stop
  | span :: rest => start ≤ span.start ∧ span.start < span.stop ∧ Packs span.stop rest stop

section Packs

variable {spans spans' : List Span} {i j k : Nat}

theorem Packs.of_le (hij : i ≤ j) (h : Packs j spans k) : Packs i spans k := by
  cases spans with
  | nil => exact Nat.le_trans hij h
  | cons span rest =>
    obtain ⟨hstart, hrest⟩ := h
    exact ⟨Nat.le_trans hij hstart, hrest⟩

theorem Packs.append (h : Packs i spans j) (h' : Packs j spans' k) :
    Packs i (spans ++ spans') k := by
  induction spans generalizing i with
  | nil => exact h'.of_le h
  | cons span rest ih =>
    obtain ⟨hstart, hlt, hrest⟩ := h
    exact ⟨hstart, hlt, ih hrest⟩

theorem Packs.bounds (h : Packs i spans j) :
    ∀ span ∈ spans, i ≤ span.start ∧ span.start < span.stop ∧ span.stop ≤ j := by
  induction spans generalizing i with
  | nil => simp
  | cons span rest ih =>
    obtain ⟨hstart, hlt, hrest⟩ := h
    intro s hs
    rcases List.mem_cons.mp hs with rfl | hs
    · refine ⟨hstart, hlt, ?_⟩
      cases rest with
      | nil => exact hrest
      | cons next rest =>
        have := ih hrest next List.mem_cons_self
        omega
    · have := ih hrest s hs
      omega

/-- No span begins before one that stands in front of it has ended. -/
theorem Packs.pairwise (h : Packs i spans j) : spans.Pairwise fun a b => a.stop ≤ b.start := by
  induction spans generalizing i with
  | nil => exact List.Pairwise.nil
  | cons span rest ih =>
    obtain ⟨-, -, hrest⟩ := h
    exact List.pairwise_cons.mpr ⟨fun s hs => (hrest.bounds s hs).1, ih hrest⟩

end Packs

namespace Tree

variable {allowed : Constituent → Prop} {words : List String} {t : Tree} {ts : List Tree}
  {i j : Nat}

/-! ### The words below a tree -/

theorem flatMap_leaves_of_tiles (hbuilt : ∀ t ∈ ts, t.WellBuilt allowed words)
    (hts : ∀ t ∈ ts, t.leaves = words.extract t.span.start t.span.stop)
    (h : Tiles i (ts.map span) j) : ts.flatMap leaves = words.extract i j := by
  induction ts generalizing i with
  | nil =>
    obtain rfl : i = j := h
    rw [extract_self]
    rfl
  | cons t ts ih =>
    obtain ⟨rfl, hrest⟩ := h
    obtain ⟨ht, hbuilt⟩ := List.forall_mem_cons.mp hbuilt
    obtain ⟨hleaves, hts⟩ := List.forall_mem_cons.mp hts
    have hle := le_of_tiles_wellBuilt hrest hbuilt
    rw [List.flatMap_cons, hleaves, ih hbuilt hts hrest, extract_append ht.start_le_stop hle]

/-- The leaves of a tree are the words of its span. -/
theorem WellBuilt.leaves_eq (h : t.WellBuilt allowed words) :
    t.leaves = words.extract t.span.start t.span.stop := by
  induction h with
  | leaf hword => exact (extract_succ hword).symm
  | branch _ htiles hchildren ih =>
    rw [leaves_branch]
    exact flatMap_leaves_of_tiles hchildren ih htiles

theorem all_isEmpty_of_tiles (hbuilt : ∀ t ∈ ts, t.WellBuilt allowed words)
    (hts : ∀ t ∈ ts, t.isEmpty ↔ t.span.start = t.span.stop)
    (h : Tiles i (ts.map span) j) : ts.all isEmpty ↔ i = j := by
  induction ts generalizing i with
  | nil =>
    obtain rfl : i = j := h
    simp
  | cons t ts ih =>
    obtain ⟨rfl, hrest⟩ := h
    obtain ⟨ht, hbuilt⟩ := List.forall_mem_cons.mp hbuilt
    obtain ⟨hempty, hts⟩ := List.forall_mem_cons.mp hts
    have hle := ht.start_le_stop
    have hle' := le_of_tiles_wellBuilt hrest hbuilt
    rw [List.all_cons, Bool.and_eq_true, hempty, ih hbuilt hts hrest]
    omega

/-- A tree has no leaves exactly when its span is empty. -/
theorem WellBuilt.isEmpty_iff (h : t.WellBuilt allowed words) :
    t.isEmpty ↔ t.span.start = t.span.stop := by
  induction h with
  | leaf =>
    rw [isEmpty_leaf, span]
    simp
  | branch _ htiles hchildren ih =>
    rw [isEmpty_branch]
    exact all_isEmpty_of_tiles hchildren ih htiles

/-! ### The spans of the chunks -/

section Chunks

variable {label : String}

/-- A chunk of a tree is a subtree of it. -/
theorem within_of_mem_chunks (t : Tree) {node : Node} (h : node ∈ t.chunks label) :
    Within node.tree t :=
  within_iff_exists_path.mpr ⟨node.path, (mem_chunks.mp h).1⟩

/-- The spans of the chunks with the label, from left to right. -/
def chunkSpans (label : String) (t : Tree) : List Span :=
  (t.chunks label).map fun node => node.tree.span

theorem packs_chunksFrom (index : Nat)
    (hts : ∀ t ∈ ts, Packs t.span.start (t.chunkSpans label) t.span.stop)
    (h : Tiles i (ts.map span) j) :
    Packs i ((chunksFrom label index ts).map fun node => node.tree.span) j := by
  induction ts generalizing i index with
  | nil => exact Nat.le_of_eq h
  | cons t ts ih =>
    obtain ⟨rfl, hrest⟩ := h
    obtain ⟨ht, hts⟩ := List.forall_mem_cons.mp hts
    rw [chunksFrom, List.map_append, List.map_map]
    exact ht.append (ih (index + 1) hts hrest)

/-- The chunks of a tree that is built over words follow one another within its span. -/
theorem WellBuilt.packs_chunkSpans (h : t.WellBuilt allowed words) (label : String) :
    Packs t.span.start (t.chunkSpans label) t.span.stop := by
  induction h with
  | leaf => exact Nat.le_succ _
  | @branch name span children hallowed htiles hchildren ih =>
    have hbuilt := WellBuilt.branch hallowed htiles hchildren
    rw [chunkSpans, chunks]
    split
    · next hphrase =>
      rw [Bool.and_eq_true, isPhrase, Bool.and_eq_true, Bool.not_eq_true'] at hphrase
      have hne : span.start ≠ span.stop := fun heq => by
        have := hbuilt.isEmpty_iff.mpr heq
        simp [this] at hphrase
      exact ⟨Nat.le_refl _, Nat.lt_of_le_of_ne hbuilt.start_le_stop hne, Nat.le_refl _⟩
    · exact packs_chunksFrom 0 ih htiles

end Chunks

end Tree

namespace Grammar

/-- The chunks of a parse are parts of the sentence that follow one another: none is empty, none
begins before the one in front of it has ended, and each covers the words of its span.  A subtree of
a parse has no leaves exactly when its span is empty. -/
theorem pairwise_chunkSpans_of_parse (g : Grammar) (words : List String) (hne : words ≠ [])
    (hwords : "" ∉ words) :
    ∃ trees, g.parse words = .ok trees ∧ ∀ t ∈ trees,
      (∀ label, (t.chunkSpans label).Pairwise (fun a b => a.stop ≤ b.start) ∧
        ∀ node ∈ t.chunks label,
          node.tree.span.start < node.tree.span.stop ∧ node.tree.span.stop ≤ words.length ∧
          node.tree.leaves = words.extract node.tree.span.start node.tree.span.stop ∧
          node.tree.text =
            " ".intercalate (words.extract node.tree.span.start node.tree.span.stop)) ∧
      ∀ u : Tree, u.Within t → (u.isEmpty ↔ u.span.start = u.span.stop) := by
  refine ⟨_, parse_eq g hne hwords, fun t ht => ?_⟩
  have htree := (mem_trees_build_iff.mp ht).1
  refine ⟨fun label => ?_, fun u hu => (htree.wellBuilt.of_within hu).isEmpty_iff⟩
  have hpacks := htree.wellBuilt.packs_chunkSpans label
  rw [htree.span] at hpacks
  refine ⟨hpacks.pairwise, fun node hnode => ?_⟩
  obtain ⟨-, hlt, hle⟩ := hpacks.bounds _ (List.mem_map_of_mem hnode)
  have hleaves := (htree.wellBuilt.of_within (Tree.within_of_mem_chunks t hnode)).leaves_eq
  exact ⟨hlt, hle, hleaves, by rw [Tree.text, hleaves]⟩

/-- A branch over the second of two words. -/
def secondWord : Tree := .branch "S" ⟨1, 2⟩ [.leaf "x" ⟨1, 2⟩]

/-- A tree over two words with an empty branch in front of them. -/
def ledByNothing : Tree :=
  .branch "S" ⟨0, 2⟩ [
    .branch "S" ⟨0, 1⟩ [.branch "S" ⟨0, 0⟩ [], .branch "S" ⟨0, 1⟩ [.leaf "x" ⟨0, 1⟩]],
    secondWord]

theorem pairwise_chunkSpans_of_parse_looping : ["x", "x"] ≠ [] ∧ "" ∉ ["x", "x"] ∧
    ∃ trees, looping.parse ["x", "x"] = .ok trees ∧
      (∀ t ∈ trees,
        (∀ label, (t.chunkSpans label).Pairwise (fun a b => a.stop ≤ b.start) ∧
          ∀ node ∈ t.chunks label,
            node.tree.span.start < node.tree.span.stop ∧ node.tree.span.stop ≤ 2 ∧
            node.tree.leaves = ["x", "x"].extract node.tree.span.start node.tree.span.stop ∧
            node.tree.text =
              " ".intercalate (["x", "x"].extract node.tree.span.start node.tree.span.stop)) ∧
        ∀ u : Tree, u.Within t → (u.isEmpty ↔ u.span.start = u.span.stop)) ∧
      ledByNothing ∈ trees ∧ ledByNothing.chunkSpans "S" = [⟨0, 1⟩, ⟨1, 2⟩] ∧
      ⟨[1], secondWord⟩ ∈ ledByNothing.chunks "S" ∧ secondWord.leaves = ["x"] ∧
      secondWord.text = "x" ∧
      Tree.Within (.branch "S" ⟨0, 0⟩ []) ledByNothing ∧
      (Tree.branch "S" ⟨0, 0⟩ []).isEmpty := by
  have hne : ["x", "x"] ≠ [] := by decide
  have hwords : "" ∉ ["x", "x"] := by decide
  obtain ⟨trees, hparse, hall⟩ := pairwise_chunkSpans_of_parse looping ["x", "x"] hne hwords
  obtain rfl := Except.ok.inj ((parse_eq looping hne hwords).symm.trans hparse)
  have hlisted : ledByNothing ∈
      (Forest.ofChart (Chart.build looping ["x", "x"]) ["x", "x"]).trees looping := by
    decide +kernel
  have hchunk : ⟨[1], secondWord⟩ ∈ ledByNothing.chunks "S" := by decide
  obtain ⟨-, -, hleaves, htext⟩ := ((hall _ hlisted).1 "S").2 _ hchunk
  have hempty : Tree.Within (.branch "S" ⟨0, 0⟩ []) ledByNothing :=
    .tail (.single (List.mem_cons_self ..)) (List.mem_cons_self ..)
  exact ⟨hne, hwords, _, hparse, hall, hlisted, by decide, hchunk, hleaves, htext, hempty,
    ((hall _ hlisted).2 _ hempty).mpr rfl⟩

end Grammar

end PhraseStructure
