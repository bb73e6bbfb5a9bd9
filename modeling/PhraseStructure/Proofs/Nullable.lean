import Mathlib.Data.List.Perm.Subperm
import PhraseStructure.Grammar.Basic
import PhraseStructure.Proofs.Derivation

/-! The passes over the rules find exactly the nonterminals that derive the empty sequence.  A pass
only adds left-hand sides at the end, so there is a pass that adds none within the number allowed,
and names to which a pass adds none are closed under the rules. -/

namespace PhraseStructure

namespace Nullable

open Relation

variable {rules : List Rule} {known : List String}

theorem vanishes_iff {symbols : List Symbol} :
    vanishes known symbols ↔ ∀ symbol ∈ symbols, ∃ name ∈ known, symbol = .nonterminal name := by
  rw [vanishes, List.all_eq_true]
  refine forall_congr' fun symbol => imp_congr_right fun _ => ?_
  cases symbol <;> simp

theorem mem_learn {rule : Rule} {name : String} :
    name ∈ learn known rule ↔ name ∈ known ∨ name = rule.lhs ∧ vanishes known rule.rhs := by
  unfold learn
  split
  · next h =>
    rw [Bool.and_eq_true] at h
    simp [h.2]
  · next h =>
    rw [Bool.and_eq_true, Bool.not_eq_true', List.contains_eq_mem, decide_eq_false_iff_not] at h
    constructor
    · exact .inl
    · rintro (hk | ⟨rfl, hv⟩)
      · exact hk
      · exact Decidable.not_not.mp fun hk => h ⟨hk, hv⟩

/-- What a step learns is a left-hand side that was not known. -/
theorem learn_cases (known : List String) (rule : Rule) :
    learn known rule = known ∨ rule.lhs ∉ known ∧ learn known rule = known ++ [rule.lhs] := by
  unfold learn
  split
  · next h => exact .inr ⟨by simpa using (Bool.and_eq_true_iff.mp h).1, rfl⟩
  · exact .inl rfl

theorem prefix_pass (rules : List Rule) (known : List String) : known <+: pass rules known := by
  induction rules generalizing known with
  | nil => exact List.prefix_rfl
  | cons rule rules ih =>
    refine List.IsPrefix.trans ?_ (ih (learn known rule))
    unfold learn
    split
    · exact List.prefix_append _ _
    · exact List.prefix_rfl

theorem nodup_pass (h : known.Nodup) : (pass rules known).Nodup := by
  induction rules generalizing known with
  | nil => exact h
  | cons rule rules ih =>
    refine ih ?_
    rcases learn_cases known rule with heq | ⟨hnew, heq⟩ <;> rw [heq]
    · exact h
    · exact List.nodup_append.mpr ⟨h, by simp, by
        intro x hx y hy hxy
        rw [List.mem_singleton] at hy
        exact hnew (hy ▸ hxy ▸ hx)⟩

/-- Whatever holds of the names known and of every name learned holds after a pass. -/
theorem forall_mem_pass {P : String → Prop}
    (hlearn : ∀ rule ∈ rules, ∀ known : List String, (∀ name ∈ known, P name) →
      vanishes known rule.rhs → P rule.lhs)
    (h : ∀ name ∈ known, P name) : ∀ name ∈ pass rules known, P name := by
  induction rules generalizing known with
  | nil => exact h
  | cons rule rules ih =>
    refine ih (fun r hr => hlearn r (List.mem_cons_of_mem _ hr)) fun name hn => ?_
    rcases mem_learn.mp hn with hn | ⟨rfl, hv⟩
    · exact h name hn
    · exact hlearn rule List.mem_cons_self known h hv

theorem pass_eq_of_length (h : (pass rules known).length = known.length) :
    pass rules known = known :=
  ((prefix_pass rules known).eq_of_length h.symm).symm

/-- Names to which a pass adds none are closed under the rules. -/
theorem closed_of_pass_eq (h : pass rules known = known) :
    ∀ rule ∈ rules, vanishes known rule.rhs → rule.lhs ∈ known := by
  induction rules with
  | nil => simp
  | cons rule rules ih =>
    have hstep : learn known rule = known := by
      have hle := (prefix_pass rules (learn known rule)).length_le
      rw [pass, List.foldl_cons, ← pass] at h
      rw [h] at hle
      rcases learn_cases known rule with heq | ⟨-, heq⟩
      · exact heq
      · rw [heq, List.length_append, List.length_singleton] at hle
        omega
    rw [pass, List.foldl_cons, hstep, ← pass] at h
    intro r hr hv
    rcases List.mem_cons.mp hr with rfl | hr
    · rw [← hstep]
      exact mem_learn.mpr (.inr ⟨rfl, hv⟩)
    · exact ih h r hr hv

/-- From the names known, `count` passes are made, of which the last and only the last learns
nothing, and then the names of `result` are known. -/
inductive Settles (rules : List Rule) : List String → Nat → List String → Prop
  | stop {known : List String} : (pass rules known).length = known.length →
      Settles rules known 1 (pass rules known)
  | again {known result : List String} {count : Nat} : (pass rules known).length ≠ known.length →
      Settles rules (pass rules known) count result → Settles rules known (count + 1) result

theorem Settles.pass_eq {count : Nat} {result : List String}
    (h : Settles rules known count result) : pass rules result = result := by
  induction h with
  | stop h => rw [pass_eq_of_length h, pass_eq_of_length h]
  | again _ _ ih => exact ih

theorem Settles.nodup {count : Nat} {result : List String}
    (h : Settles rules known count result) (hnodup : known.Nodup) : result.Nodup := by
  induction h with
  | stop => exact nodup_pass hnodup
  | again _ _ ih => exact ih (nodup_pass hnodup)

/-- Passes settle when more of them are allowed than there are left-hand sides to learn. -/
theorem exists_settles_passes {count : Nat} (hnodup : known.Nodup)
    (hsub : known ⊆ Table.heads rules)
    (hcount : (Table.heads rules).length < count + known.length) :
    ∃ made ≤ count, Settles rules known made (passes rules count known) := by
  induction count generalizing known with
  | zero =>
    have := (List.subperm_of_subset hnodup hsub).length_le
    omega
  | succ count ih =>
    rw [passes]
    split
    · next h =>
      have hstop := Settles.stop h
      rw [pass_eq_of_length h] at hstop
      exact ⟨1, by omega, hstop⟩
    · next h =>
      have hle := (prefix_pass rules known).length_le
      have hnext : pass rules known ⊆ Table.heads rules :=
        forall_mem_pass (fun rule hr _ _ _ => Table.mem_heads.mpr ⟨rule, hr, rfl⟩) hsub
      obtain ⟨made, hmade, hsettles⟩ := ih (nodup_pass hnodup) hnext (by omega)
      exact ⟨made + 1, by omega, .again h hsettles⟩

theorem exists_settles_names (rules : List Rule) :
    ∃ made ≤ (Table.heads rules).length + 1, Settles rules [] made (names rules) :=
  exists_settles_passes List.nodup_nil (List.nil_subset _) (by simp)

theorem forall_mem_passes {P : String → Prop} {count : Nat}
    (hlearn : ∀ rule ∈ rules, ∀ known : List String, (∀ name ∈ known, P name) →
      vanishes known rule.rhs → P rule.lhs)
    (h : ∀ name ∈ known, P name) : ∀ name ∈ passes rules count known, P name := by
  induction count generalizing known with
  | zero => exact h
  | succ count ih =>
    rw [passes]
    split
    · exact h
    · exact ih (forall_mem_pass hlearn h)

/-- Nonterminals that derive nothing derive nothing in a row. -/
theorem derives_nil_of_vanishes {symbols : List Symbol}
    (hknown : ∀ name ∈ known, Derives rules [.nonterminal name] [])
    (h : vanishes known symbols) : Derives rules symbols [] := by
  rw [vanishes_iff] at h
  induction symbols with
  | nil => exact Derives.refl _
  | cons symbol rest ih =>
    obtain ⟨name, hn, rfl⟩ := h symbol List.mem_cons_self
    exact (hknown name hn).append_append (ih fun s hs => h s (List.mem_cons_of_mem _ hs))

/-- Names that are closed under the rules include every name that derives nothing. -/
theorem vanishes_of_derives_nil (hclosed : ∀ rule ∈ rules, vanishes known rule.rhs →
    rule.lhs ∈ known) {symbols : List Symbol} (h : Derives rules symbols []) :
    vanishes known symbols := by
  induction h using ReflTransGen.head_induction_on with
  | refl => rfl
  | head hstep _ ih =>
    obtain ⟨left, rule, right, hr, rfl, rfl⟩ := hstep
    simp only [vanishes_iff, List.mem_append, List.mem_cons] at ih ⊢
    have hrhs := hclosed rule hr (vanishes_iff.mpr fun s hs => ih s (.inl (.inr hs)))
    rintro s (hs | rfl | hs)
    · exact ih s (.inl (.inl hs))
    · exact ⟨rule.lhs, hrhs, rfl⟩
    · exact ih s (.inr hs)

/-- The names found nullable are those that derive the empty sequence. -/
theorem mem_names_iff {name : String} :
    name ∈ names rules ↔ Derives rules [.nonterminal name] [] := by
  constructor
  · refine forall_mem_passes (P := fun name => Derives rules [.nonterminal name] [])
      (fun rule hr known hknown hv => ?_) (by simp) name
    exact (derives_rule hr).trans (derives_nil_of_vanishes hknown hv)
  · intro h
    obtain ⟨_, -, hsettles⟩ := exists_settles_names rules
    simpa [vanishes_iff] using vanishes_of_derives_nil (closed_of_pass_eq hsettles.pass_eq) h

end Nullable

/-- A name is nullable in a grammar when it derives the empty sequence. -/
theorem Grammar.isNullable_iff {g : Grammar} {name : String} :
    g.isNullable name ↔ Derives g.rules [.nonterminal name] [] := by
  rw [isNullable, List.contains_iff_mem, g.nullables_eq, Nullable.mem_names_iff]

/-- A grammar in which `S` is ambiguous and nullable and can stand for itself. -/
def Grammar.looping : Grammar where
  start := "S"
  rules := [⟨"S", [.nonterminal "S", .nonterminal "S"]⟩, ⟨"S", [.terminal "x"]⟩, ⟨"S", []⟩]
  nullables := ["S"]
  arranged := by decide
  start_mem := by decide
  closed := by decide
  nullables_eq := by decide

example : Grammar.looping.isNullable "S" := by decide

end PhraseStructure
