import PhraseStructure.Grammar.Basic
import Mathlib.Data.List.Induction
import Mathlib.Data.List.Sort

/-! The table of a list of rules.  A table has a group for each left-hand side, and the groups and
the rules of each group stand in the order of their first appearance.  There is exactly one such
table, whether it is filled rule by rule or put together from the left-hand sides and their
alternatives, and its rules are all different. -/

namespace PhraseStructure.Table

/-! ### First appearances -/

section FirstAppearances

variable {α : Type} [DecidableEq α] {xs firsts : List α}

/-- The list has each member of `xs` once, in the order of their first appearance in `xs`. -/
structure FirstAppearances (xs firsts : List α) : Prop where
  mem : ∀ x, x ∈ firsts ↔ x ∈ xs
  ordered : firsts.Pairwise fun x y => xs.idxOf x < xs.idxOf y

/-- The list with `x` at its end, unless it has `x` already. -/
def note (firsts : List α) (x : α) : List α := if x ∈ firsts then firsts else firsts ++ [x]

theorem note_of_mem {x : α} (h : x ∈ firsts) : note firsts x = firsts := if_pos h

theorem note_of_not_mem {x : α} (h : x ∉ firsts) : note firsts x = firsts ++ [x] := if_neg h

theorem FirstAppearances.nil : FirstAppearances ([] : List α) [] := ⟨by simp, .nil⟩

theorem FirstAppearances.note (h : FirstAppearances xs firsts) (x : α) :
    FirstAppearances (xs ++ [x]) (note firsts x) := by
  have hkeep : firsts.Pairwise fun y z => (xs ++ [x]).idxOf y < (xs ++ [x]).idxOf z := by
    refine h.ordered.imp_of_mem fun {y z} hy hz hlt => ?_
    rwa [List.idxOf_append_of_mem ((h.mem y).mp hy), List.idxOf_append_of_mem ((h.mem z).mp hz)]
  by_cases hx : x ∈ firsts
  · rw [note_of_mem hx]
    refine ⟨fun y => ?_, hkeep⟩
    rw [h.mem, List.mem_append, List.mem_singleton, or_iff_left_of_imp]
    rintro rfl
    exact (h.mem y).mp hx
  · rw [note_of_not_mem hx]
    refine ⟨fun y => by simp [h.mem], List.pairwise_append.mpr ⟨hkeep, by simp, ?_⟩⟩
    intro y hy z hz
    obtain rfl := List.mem_singleton.mp hz
    have hlt := List.idxOf_lt_length_of_mem ((h.mem y).mp hy)
    rw [List.idxOf_append_of_mem ((h.mem y).mp hy),
      List.idxOf_append_of_notMem fun hz => hx ((h.mem z).mpr hz)]
    omega

theorem eraseDups_concat (xs : List α) (x : α) :
    (xs ++ [x]).eraseDups = note xs.eraseDups x := by
  rw [List.eraseDups_append]
  by_cases h : x ∈ xs
  · rw [note_of_mem (by simpa using h)]
    simp [List.removeAll, h]
  · rw [note_of_not_mem (by simpa using h)]
    simp [List.removeAll, h, List.eraseDups_cons]

theorem firstAppearances_eraseDups (xs : List α) : FirstAppearances xs xs.eraseDups := by
  induction xs using List.reverseRecOn with
  | nil => exact .nil
  | append_singleton xs x ih =>
    rw [eraseDups_concat]
    exact ih.note x

theorem FirstAppearances.nodup (h : FirstAppearances xs firsts) : firsts.Nodup := by
  refine h.ordered.imp fun {x y} hlt => ?_
  rintro rfl
  exact Nat.lt_irrefl _ hlt

theorem FirstAppearances.eq_eraseDups (h : FirstAppearances xs firsts) : firsts = xs.eraseDups := by
  have hperm : firsts.Perm xs.eraseDups := by
    rw [List.perm_ext_iff_of_nodup h.nodup (nodup_eraseDups xs)]
    exact fun x => (h.mem x).trans (by simp)
  refine hperm.eq_of_pairwise (fun x y _ _ hxy hyx => ?_) h.ordered
    (firstAppearances_eraseDups xs).ordered
  omega

end FirstAppearances

/-! ### Tables -/

variable {given : List Rule} {table : List (String × List Rule)}

/-- The table has a group for each left-hand side of the given rules, and in it the rules for that
left-hand side, all in the order of their first appearance. -/
structure IsTable (given : List Rule) (table : List (String × List Rule)) : Prop where
  names : FirstAppearances (given.map Rule.lhs) (table.map Prod.fst)
  alternatives : ∀ group ∈ table,
    FirstAppearances (given.filter fun rule => rule.lhs = group.1) group.2

/-- The left-hand sides of the rules with their alternatives. -/
def groups (rules : List Rule) : List (String × List Rule) :=
  (heads rules).map fun name => (name, alternatives rules name)

theorem isTable_iff : IsTable given table ↔ table = groups given := by
  constructor
  · intro h
    have hgroup : ∀ group ∈ table, group = (group.1, Table.alternatives given group.1) :=
      fun group hg => Prod.ext rfl (h.alternatives group hg).eq_eraseDups
    rw [groups, heads, ← h.names.eq_eraseDups, List.map_map]
    exact (List.map_id table).symm.trans (List.map_congr_left hgroup)
  · rintro rfl
    refine ⟨?_, fun group hg => ?_⟩
    · rw [groups, List.map_map]
      exact (List.map_id (heads given)).symm ▸ firstAppearances_eraseDups _
    · obtain ⟨name, -, rfl⟩ := List.mem_map.mp hg
      exact firstAppearances_eraseDups _

theorem groups_arrange (rules : List Rule) : groups (arrange rules) = groups rules := by
  rw [groups, heads_arrange, groups]
  exact List.map_congr_left fun name _ => by rw [alternatives_arrange]

theorem flatMap_groups (rules : List Rule) : (groups rules).flatMap Prod.snd = arrange rules := by
  rw [groups, List.flatMap_map, arrange]

namespace IsTable

theorem rules_eq (h : IsTable given table) : table.flatMap Prod.snd = arrange given := by
  rw [isTable_iff.mp h, flatMap_groups]

/-- No two rules of a table are equal, in whichever groups they stand. -/
theorem nodup (h : IsTable given table) : (table.flatMap Prod.snd).Nodup :=
  h.rules_eq ▸ nodup_arrange given

theorem ne_nil (h : IsTable given table) {group : String × List Rule} (hg : group ∈ table) :
    group.2 ≠ [] := by
  obtain ⟨name, hname, rfl⟩ := List.mem_map.mp (isTable_iff.mp h ▸ hg)
  exact alternatives_ne_nil hname

end IsTable

/-! ### Filling a table -/

/-- The table with one more rule: at the end of the group of its left-hand side, unless it is there
already, or in a new group. -/
def add (table : List (String × List Rule)) (rule : Rule) : List (String × List Rule) :=
  if rule.lhs ∈ table.map Prod.fst then
    table.map fun group =>
      if group.1 = rule.lhs then (group.1, note group.2 rule) else group
  else
    table ++ [(rule.lhs, [rule])]

/-- The table of the rules, filled in the order in which they are given. -/
def fill (given : List Rule) : List (String × List Rule) := given.foldl add []

theorem map_fst_add (table : List (String × List Rule)) (rule : Rule) :
    (add table rule).map Prod.fst = note (table.map Prod.fst) rule.lhs := by
  unfold add
  split
  · next h =>
    rw [note_of_mem h, List.map_map]
    refine List.map_congr_left fun group _ => ?_
    simp only [Function.comp]
    split <;> rfl
  · next h => rw [note_of_not_mem h, List.map_append, List.map_singleton]

/-- A rule that is added to the table of some rules makes the table of these rules and itself. -/
theorem IsTable.add (h : IsTable given table) (rule : Rule) :
    IsTable (given ++ [rule]) (add table rule) := by
  refine ⟨?_, fun group hg => ?_⟩
  · rw [map_fst_add, List.map_append, List.map_singleton]
    exact h.names.note rule.lhs
  · unfold Table.add at hg
    split at hg
    · obtain ⟨old, hold, rfl⟩ := List.mem_map.mp hg
      have halternatives := h.alternatives old hold
      by_cases heq : old.1 = rule.lhs
      · rw [if_pos heq]
        simpa [List.filter_append, heq] using halternatives.note rule
      · rw [if_neg heq]
        simpa [List.filter_append, Ne.symm heq] using halternatives
    · next hnew =>
      rcases List.mem_append.mp hg with hold | hlast
      · have hne : rule.lhs ≠ group.1 := fun heq => hnew (heq ▸ List.mem_map_of_mem hold)
        simpa [List.filter_append, hne] using h.alternatives group hold
      · obtain rfl := List.mem_singleton.mp hlast
        have hnone : given.filter (fun r => r.lhs = rule.lhs) = [] := by
          rw [List.filter_eq_nil_iff]
          intro r hr heq
          exact hnew ((h.names.mem _).mpr (List.mem_map.mpr ⟨r, hr, by simpa using heq⟩))
        simpa [List.filter_append, hnone, note] using FirstAppearances.nil.note rule

theorem isTable_fill (given : List Rule) : IsTable given (fill given) := by
  induction given using List.reverseRecOn with
  | nil => exact ⟨.nil, by simp [fill]⟩
  | append_singleton given rule ih =>
    rw [fill, List.foldl_append, List.foldl_cons, List.foldl_nil]
    exact ih.add rule

end PhraseStructure.Table
