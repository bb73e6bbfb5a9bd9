import PhraseStructure.Grammar.Reachable
import PhraseStructure.Proofs.Prediction

/-! The names that the walk from the start symbol sees.  A name on the stack is seen at the end.
What a visited name uses is seen or on the stack, so that at the end the uses of every name seen are
seen as well.  Whatever names have this property, no derivation leads from them to others, and so
they include every name that occurs in what the start symbol derives. -/

namespace PhraseStructure.Grammar

variable {g : Grammar} {seen stack : List String} {name use top : String}

theorem mem_uses : use ∈ g.uses name ↔
    ∃ rule ∈ g.rules, rule.lhs = name ∧ .nonterminal use ∈ rule.rhs := by
  simp [uses, and_assoc]

theorem mem_or_mem_of_skip (htop : top ∈ seen) (h : name ∈ seen ∨ name ∈ top :: stack) :
    name ∈ seen ∨ name ∈ stack := by
  rw [List.mem_cons] at h
  rcases h with hseen | rfl | hstack
  · exact .inl hseen
  · exact .inl htop
  · exact .inr hstack

theorem mem_or_mem_of_visit (more : List String) (h : name ∈ seen ∨ name ∈ top :: stack) :
    name ∈ seen ++ [top] ∨ name ∈ more ++ stack := by
  rw [List.mem_cons] at h
  rcases h with hseen | rfl | hstack
  · exact .inl (List.mem_append_left _ hseen)
  · exact .inl (by simp)
  · exact .inr (List.mem_append_right _ hstack)

theorem mem_walk (h : name ∈ seen ∨ name ∈ stack) : name ∈ g.walk seen stack := by
  fun_induction walk with
  | case1 seen => simpa using h
  | case2 seen top stack htop ih => exact ih (mem_or_mem_of_skip htop h)
  | case3 seen top stack htop ih => exact ih (mem_or_mem_of_visit _ h)

/-- When what the names seen use is seen or on the stack, all that is used is seen at the end. -/
theorem mem_walk_of_uses (h : ∀ name ∈ seen, ∀ use ∈ g.uses name, use ∈ seen ∨ use ∈ stack) :
    ∀ name ∈ g.walk seen stack, ∀ use ∈ g.uses name, use ∈ g.walk seen stack := by
  fun_induction walk with
  | case1 seen => exact fun name hname use huse => (h name hname use huse).elim id (by simp)
  | case2 seen top stack htop ih =>
    exact ih fun name hname use huse => mem_or_mem_of_skip htop (h name hname use huse)
  | case3 seen top stack htop ih =>
    refine ih fun name hname use huse => ?_
    rw [List.mem_append, List.mem_singleton] at hname
    rcases hname with hname | rfl
    · exact mem_or_mem_of_visit _ (h name hname use huse)
    · exact .inr (List.mem_append_left _ (List.mem_reverse.mpr huse))

theorem start_mem_reachable (g : Grammar) : g.start ∈ g.reachable := mem_walk (.inr (by simp))

theorem mem_reachable_of_uses (hname : name ∈ g.reachable) (huse : use ∈ g.uses name) :
    use ∈ g.reachable :=
  mem_walk_of_uses (by simp) name hname use huse

/-! ### Names that occur -/

/-- The nonterminals among the symbols are among the names. -/
def Over (names : List String) (symbols : List Symbol) : Prop :=
  ∀ name, .nonterminal name ∈ symbols → name ∈ names

/-- The name occurs in something that the start symbol derives. -/
def Occurs (g : Grammar) (name : String) : Prop :=
  ∃ symbols, Derives g.rules [.nonterminal g.start] symbols ∧ .nonterminal name ∈ symbols

section Occurs

variable {names : List String} {xs ys : List Symbol}

/-- No derivation leads from names with their uses to others. -/
theorem Over.derives (h : Over names xs)
    (hclosed : ∀ name ∈ names, ∀ use ∈ g.uses name, use ∈ names)
    (hderives : Derives g.rules xs ys) : Over names ys := by
  induction hderives with
  | refl => exact h
  | tail _ hstep ih =>
    obtain ⟨left, rule, right, hr, rfl, rfl⟩ := hstep
    have hlhs : rule.lhs ∈ names := ih rule.lhs (by simp)
    intro name hname
    simp only [List.mem_append] at hname
    rcases hname with (hname | hname) | hname
    · exact ih name (by simp [hname])
    · exact hclosed rule.lhs hlhs name (mem_uses.mpr ⟨rule, hr, rfl, hname⟩)
    · exact ih name (by simp [hname])

theorem Occurs.mem (h : g.Occurs name) (hstart : g.start ∈ names)
    (hclosed : ∀ name ∈ names, ∀ use ∈ g.uses name, use ∈ names) : name ∈ names := by
  obtain ⟨symbols, hderives, hname⟩ := h
  have hover : Over names [.nonterminal g.start] := by simpa [Over] using hstart
  exact hover.derives hclosed hderives name hname

/-- A name that can be expected somewhere occurs. -/
theorem Occurs.of_expected {words : List String} {k : Nat}
    (h : Expected g.rules words g.start name k) : g.Occurs name := by
  obtain ⟨-, after, hderives⟩ := expected_iff_derives.mp h
  exact ⟨_, hderives, by simp⟩

end Occurs

end PhraseStructure.Grammar
