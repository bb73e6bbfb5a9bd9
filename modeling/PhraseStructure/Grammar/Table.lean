import PhraseStructure.Rule

/-! The order in which a grammar keeps its rules.  The left-hand sides come in the order of their
first rules, the rules of one left-hand side stand together in the order in which they were given,
and a rule that was given before is dropped.  `arrange` brings any list of rules into this order.
It keeps the rules, the left-hand sides and the alternatives of each of them, so that a second
arrangement changes nothing. -/

namespace PhraseStructure.Table

/-- The left-hand sides of the rules, each once, in the order of their first rules. -/
def heads (rules : List Rule) : List String := (rules.map Rule.lhs).eraseDups

/-- The rules for `name`, each once, in order. -/
def alternatives (rules : List Rule) (name : String) : List Rule :=
  (rules.filter (·.lhs == name)).eraseDups

/-- The rules grouped by left-hand side, each once. -/
def arrange (rules : List Rule) : List Rule := (heads rules).flatMap (alternatives rules)

theorem nodup_eraseDups {α : Type} [BEq α] [LawfulBEq α] (xs : List α) : xs.eraseDups.Nodup := by
  induction hn : xs.length using Nat.strongRecOn generalizing xs with
  | ind n ih =>
    cases xs with
    | nil => simp
    | cons x xs =>
      rw [List.eraseDups_cons, List.nodup_cons]
      have hlen : (xs.filter fun y => !y == x).length < n := by
        have := List.length_filter_le (fun y => !y == x) xs
        simp only [List.length_cons] at hn
        omega
      exact ⟨by simp [List.mem_eraseDups], ih _ hlen _ rfl⟩

theorem eraseDups_eq_self {α : Type} [BEq α] [LawfulBEq α] {xs : List α} (h : xs.Nodup) :
    xs.eraseDups = xs := by
  induction xs with
  | nil => rfl
  | cons x xs ih =>
    obtain ⟨hx, hxs⟩ := List.nodup_cons.mp h
    rw [List.eraseDups_cons, List.filter_eq_self.mpr, ih hxs]
    intro y hy
    have : y ≠ x := fun hyx => hx (hyx ▸ hy)
    simpa using this

@[simp] theorem mem_heads {rules : List Rule} {name : String} :
    name ∈ heads rules ↔ ∃ rule ∈ rules, rule.lhs = name := by
  simp [heads, List.mem_eraseDups]

@[simp] theorem mem_alternatives {rules : List Rule} {name : String} {rule : Rule} :
    rule ∈ alternatives rules name ↔ rule ∈ rules ∧ rule.lhs = name := by
  simp [alternatives, List.mem_eraseDups]

@[simp] theorem mem_arrange {rules : List Rule} {rule : Rule} :
    rule ∈ arrange rules ↔ rule ∈ rules := by
  simp [arrange]
  grind

theorem nodup_heads (rules : List Rule) : (heads rules).Nodup := nodup_eraseDups _

theorem nodup_alternatives (rules : List Rule) (name : String) :
    (alternatives rules name).Nodup := nodup_eraseDups _

/-- The rules for one name, in a list of groups with distinct heads, are that name's group. -/
theorem filter_flatMap_group {names : List String} {group : String → List Rule} {name : String}
    (hnames : names.Nodup) (hgroup : ∀ n ∈ names, ∀ rule ∈ group n, rule.lhs = n) :
    (names.flatMap group).filter (·.lhs == name) = if name ∈ names then group name else [] := by
  induction names with
  | nil => simp
  | cons n names ih =>
    obtain ⟨hn, hnames⟩ := List.nodup_cons.mp hnames
    rw [List.flatMap_cons, List.filter_append,
      ih hnames fun m hm => hgroup m (List.mem_cons_of_mem _ hm)]
    have hg := hgroup n List.mem_cons_self
    by_cases h : name = n
    · subst h
      rw [List.filter_eq_self.mpr (by simpa using hg)]
      simp [hn]
    · rw [List.filter_eq_nil_iff.mpr (by intro rule hr; rw [hg rule hr]; simpa using Ne.symm h)]
      simp [h]

/-- Arranged rules have the same alternatives for every name. -/
theorem filter_arrange (rules : List Rule) (name : String) :
    (arrange rules).filter (·.lhs == name) = alternatives rules name := by
  rw [arrange, filter_flatMap_group (nodup_heads rules) (by simp)]
  split
  · rfl
  · next h =>
    rw [mem_heads] at h
    symm
    rw [List.eq_nil_iff_forall_not_mem]
    intro rule hr
    exact h ⟨rule, mem_alternatives.mp hr⟩

theorem alternatives_arrange (rules : List Rule) (name : String) :
    alternatives (arrange rules) name = alternatives rules name := by
  rw [alternatives, filter_arrange, eraseDups_eq_self (nodup_alternatives rules name)]

/-- Groups that are not empty and have distinct heads show these heads in order. -/
theorem heads_flatMap_group {names : List String} {group : String → List Rule}
    (hnames : names.Nodup) (hgroup : ∀ n ∈ names, ∀ rule ∈ group n, rule.lhs = n)
    (hne : ∀ n ∈ names, group n ≠ []) : heads (names.flatMap group) = names := by
  induction names with
  | nil => rfl
  | cons n names ih =>
    obtain ⟨hn, hnames⟩ := List.nodup_cons.mp hnames
    have ih := ih hnames (fun m hm => hgroup m (List.mem_cons_of_mem _ hm))
      (fun m hm => hne m (List.mem_cons_of_mem _ hm))
    have hg := hgroup n List.mem_cons_self
    have hrest : ∀ m ∈ (names.flatMap group).map Rule.lhs, m ≠ n := by
      intro m hm hmn
      obtain ⟨rule, hr, rfl⟩ := List.mem_map.mp hm
      obtain ⟨p, hp, hr⟩ := List.mem_flatMap.mp hr
      have := hgroup p (List.mem_cons_of_mem _ hp) rule hr
      exact hn (by rw [← hmn, this]; exact hp)
    cases hgn : group n with
    | nil => exact absurd hgn (hne n List.mem_cons_self)
    | cons rule more =>
      rw [hgn] at hg
      have hlhs : rule.lhs = n := hg rule List.mem_cons_self
      have hmore : (more.map Rule.lhs).filter (fun m => !m == n) = [] := by
        rw [List.filter_eq_nil_iff]
        intro m hm
        obtain ⟨r, hr, rfl⟩ := List.mem_map.mp hm
        simp [hg r (List.mem_cons_of_mem _ hr)]
      have hkeep : ((names.flatMap group).map Rule.lhs).filter (fun m => !m == n) =
          (names.flatMap group).map Rule.lhs := by
        rw [List.filter_eq_self]
        intro m hm
        simpa using hrest m hm
      rw [heads, List.flatMap_cons, hgn, List.cons_append, List.map_cons, hlhs,
        List.eraseDups_cons, List.map_append, List.filter_append, hmore, hkeep, List.nil_append]
      exact congrArg (n :: ·) ih

theorem alternatives_ne_nil {rules : List Rule} {name : String} (h : name ∈ heads rules) :
    alternatives rules name ≠ [] := by
  obtain ⟨rule, hr⟩ := mem_heads.mp h
  exact List.ne_nil_of_mem (mem_alternatives.mpr hr)

theorem heads_arrange (rules : List Rule) : heads (arrange rules) = heads rules :=
  heads_flatMap_group (nodup_heads rules) (by simp) fun _ => alternatives_ne_nil

theorem arrange_arrange (rules : List Rule) : arrange (arrange rules) = arrange rules := by
  rw [arrange, heads_arrange, funext (alternatives_arrange rules), arrange]

theorem nodup_arrange (rules : List Rule) : (arrange rules).Nodup := by
  have key : ∀ names : List String, names.Nodup →
      (names.flatMap (alternatives rules)).Nodup := by
    intro names
    induction names with
    | nil => simp
    | cons n names ih =>
      intro h
      obtain ⟨hn, hnames⟩ := List.nodup_cons.mp h
      rw [List.flatMap_cons, List.nodup_append]
      refine ⟨nodup_alternatives rules n, ih hnames, ?_⟩
      rintro rule hr _ hs rfl
      obtain ⟨m, hm, hs⟩ := List.mem_flatMap.mp hs
      have h1 := (mem_alternatives.mp hr).2
      have h2 := (mem_alternatives.mp hs).2
      exact hn (by rw [← h1, h2]; exact hm)
  exact key _ (nodup_heads rules)

end PhraseStructure.Table
