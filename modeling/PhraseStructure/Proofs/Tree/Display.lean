import Mathlib.Data.List.DropRight
import PhraseStructure.Proofs.Occurrence
import PhraseStructure.Proofs.Source.Read
import PhraseStructure.Text.Space
import PhraseStructure.Tree.Display

/-! Trees are told apart on paper.  When every stretch of white space is narrowed to one blank, a
tree stands on one line, however its branches were laid out.  From that line the tree can be read
back up to its spans, whatever follows it, as long as its labels and words do not look like the
parentheses and the white space around them.  In a parse the shape determines the spans. -/

namespace PhraseStructure

/-! ### White space -/

namespace Text

variable {c d : Char} {front text : List Char}

/-- The pieces of a text that white space separates. -/
def fields (text : List Char) : List (List Char) :=
  (text.splitOnP isSpace).filter fun piece => !piece.isEmpty

/-- The text with one blank for every stretch of white space.  Where two texts meet their pieces run
together, so `fields` says little about a text in parts, while this leaves every part in place. -/
def squeeze : List Char → List Char
  | [] => []
  | c :: rest => if isSpace c then ' ' :: (squeeze rest).dropWhile (· == ' ') else c :: squeeze rest

theorem squeeze_cons (hc : isSpace c) (rest : List Char) :
    squeeze (c :: rest) = ' ' :: (squeeze rest).dropWhile (· == ' ') := by
  rw [squeeze, if_pos hc]

theorem squeeze_append (h : ∀ c ∈ front, !isSpace c) (rest : List Char) :
    squeeze (front ++ rest) = front ++ squeeze rest := by
  induction front with
  | nil => rfl
  | cons c front ih =>
    obtain ⟨hc, hfront⟩ := List.forall_mem_cons.mp h
    rw [List.cons_append, squeeze, if_neg (by simpa using hc), ih hfront, List.cons_append]

/-- White space in front of white space makes no difference. -/
theorem squeeze_cons_cons (hc : isSpace c) (hd : isSpace d) (rest : List Char) :
    squeeze (c :: d :: rest) = squeeze (d :: rest) := by
  rw [squeeze_cons hc, squeeze_cons hd, List.dropWhile_cons_of_pos rfl,
    List.dropWhile_idempotent]

theorem fields_append_cons (hc : isSpace c) (front rest : List Char) :
    fields (front ++ c :: rest) = fields front ++ fields rest := by
  rw [fields, List.splitOnP_append_cons _ _ hc, List.filter_append]
  rfl

theorem fields_dropWhile (text : List Char) :
    fields (text.dropWhile (· == ' ')) = fields text := by
  induction text with
  | nil => rfl
  | cons c rest ih =>
    by_cases hc : c = ' '
    · subst hc
      rw [List.dropWhile_cons_of_pos rfl, ih]
      exact (fields_append_cons rfl [] rest).symm
    · rw [List.dropWhile_cons_of_neg (by simpa using hc)]

theorem fields_squeeze (text : List Char) : fields (squeeze text) = fields text := by
  induction text using Source.run_induction (p := fun c => !isSpace c) with
  | run text htext =>
    have := squeeze_append htext []
    rw [List.append_nil] at this
    rw [this, squeeze, List.append_nil]
  | cut front c rest hfront hc ih =>
    have hspace : isSpace c := by simpa using hc
    rw [squeeze_append hfront, squeeze_cons hspace, fields_append_cons rfl, fields_dropWhile, ih,
      fields_append_cons hspace]

/-- A character that is neither white space nor a parenthesis. -/
def isPlain (c : Char) : Bool := !isSpace c && c != '(' && c != ')'

/-- A name that cannot be taken for what stands around it. -/
def IsName (name : String) : Prop := name ≠ "" ∧ name.toList.all isPlain

instance (name : String) : Decidable (IsName name) := inferInstanceAs (Decidable (_ ∧ _))

theorem not_isSpace_of_isPlain (h : isPlain c) : !isSpace c := by
  simp only [isPlain, Bool.and_eq_true] at h
  exact h.1.1

theorem IsName.isPlain_of_mem {name : String} (h : IsName name) : ∀ c ∈ name.toList, isPlain c :=
  List.all_eq_true.mp h.2

theorem IsName.not_isSpace {name : String} (h : IsName name) : ∀ c ∈ name.toList, !isSpace c :=
  fun c hc => not_isSpace_of_isPlain (h.isPlain_of_mem c hc)

/-- A name has a first character. -/
theorem IsName.exists_cons {name : String} (h : IsName name) :
    ∃ c rest, name.toList = c :: rest ∧ isPlain c := by
  have hplain := h.isPlain_of_mem
  cases hlist : name.toList with
  | nil => exact absurd (String.toList_eq_nil_iff.mp hlist) h.1
  | cons c rest => exact ⟨c, rest, rfl, hplain c (by simp [hlist])⟩

/-- What begins with a name does not begin with a parenthesis. -/
theorem IsName.append_ne {name : String} (h : IsName name) (rest more : List Char) :
    name.toList ++ rest ≠ '(' :: more := by
  obtain ⟨c, name', hc, hplain⟩ := h.exists_cons
  intro heq
  rw [hc] at heq
  obtain rfl : c = '(' := (List.cons.inj heq).1
  exact absurd hplain (by decide)

end Text

open Text

namespace Tree

variable {t u : Tree} {ts us : List Tree} {label word : String} {span : Span} {c : Char}
  {after text : List Char}

/-! ### Trees without spans -/

mutual

/-- The tree without its spans: all of them are at the beginning. -/
def bare : Tree → Tree
  | .branch label _ children => .branch label ⟨0, 0⟩ (bareAll children)
  | .leaf word _ => .leaf word ⟨0, 0⟩

/-- The trees without their spans. -/
def bareAll : List Tree → List Tree
  | [] => []
  | t :: ts => bare t :: bareAll ts

end

theorem bareAll_eq (ts : List Tree) : bareAll ts = ts.map bare := by
  induction ts with
  | nil => rfl
  | cons t ts ih => rw [bareAll, ih, List.map_cons]

@[simp] theorem bare_leaf (word : String) (span : Span) :
    bare (.leaf word span) = .leaf word ⟨0, 0⟩ := rfl

@[simp] theorem bare_branch (label : String) (span : Span) (children : List Tree) :
    bare (.branch label span children) = .branch label ⟨0, 0⟩ (children.map bare) := by
  rw [bare, bareAll_eq]

theorem isLeaf_bare (t : Tree) : t.bare.isLeaf = t.isLeaf := by
  cases t <;> rfl

theorem standInline_map_bare (ts : List Tree) : standInline (ts.map bare) = standInline ts := by
  rw [standInline, standInline, List.all_map, List.length_map]
  exact congrArg (fun f => ts.all f || ts.length == 1) (funext isLeaf_bare)

/-- The spans of a tree are not written. -/
theorem display_bare (t : Tree) : t.bare.display = t.display := by
  induction t with
  | leaf word span => simp
  | branch label span children ih =>
    apply String.toList_inj.mp
    rw [bare_branch, toList_display_branch, toList_display_branch, standInline_map_bare,
      List.flatMap_map]
    congr 3
    refine List.flatMap_congr fun child hchild => ?_
    rw [ih child hchild]

/-! ### Trees on one line -/

mutual

/-- The tree in parentheses on one line. -/
def inline : Tree → List Char
  | .branch label _ children => '(' :: (label.toList ++ (inlineAll children ++ [')']))
  | .leaf word _ => word.toList

/-- The trees on one line, a blank in front of each. -/
def inlineAll : List Tree → List Char
  | [] => []
  | t :: ts => ' ' :: (inline t ++ inlineAll ts)

end

/-- What is written at the root of a tree. -/
def name : Tree → String
  | branch label _ _ => label
  | leaf word _ => word

/-- All labels and words of the tree are names. -/
def Plain (t : Tree) : Prop := ∀ u, Within u t → IsName u.name

theorem plain_leaf : Plain (.leaf word span) ↔ IsName word := by
  simp [Plain, within_leaf, name]

theorem plain_branch {children : List Tree} :
    Plain (.branch label span children) ↔ IsName label ∧ ∀ child ∈ children, child.Plain := by
  constructor
  · intro h
    refine ⟨h _ (within_branch.mpr (.inl rfl)), fun child hchild u hu => ?_⟩
    exact h u (within_branch.mpr (.inr ⟨child, hchild, hu⟩))
  · rintro ⟨hlabel, hchildren⟩ u hu
    rcases within_branch.mp hu with rfl | ⟨child, hchild, hu⟩
    · exact hlabel
    · exact hchildren child hchild u hu

/-- A tree does not begin with a blank. -/
theorem Plain.exists_inline (h : t.Plain) : ∃ c rest, t.inline = c :: rest ∧ c ≠ ' ' := by
  cases t with
  | leaf word span =>
    obtain ⟨c, rest, hword, hc⟩ := (plain_leaf.mp h).exists_cons
    refine ⟨c, rest, hword, ?_⟩
    rintro rfl
    exact absurd hc (by decide)
  | branch label span children => exact ⟨'(', _, rfl, by decide⟩

/-- A tree does not end with white space. -/
theorem Plain.not_isSpace_of_mem_getLast? (h : t.Plain) :
    ∀ c ∈ t.display.toList.getLast?, !isSpace c := by
  intro c hc
  cases t with
  | leaf word span =>
    rw [display_leaf] at hc
    exact (plain_leaf.mp h).not_isSpace c (List.mem_of_getLast? hc)
  | branch label span children =>
    rw [toList_display_branch, ← List.cons_append, List.getLast?_concat] at hc
    obtain rfl : ')' = c := Option.some.inj hc
    rfl

theorem Plain.display_ne_nil (h : t.Plain) : t.display.toList ≠ [] := by
  cases t with
  | leaf word span =>
    rw [display_leaf]
    exact fun hword => (plain_leaf.mp h).1 (String.toList_eq_nil_iff.mp hword)
  | branch label span children => simp [toList_display_branch]

/-! ### One line and many -/

/-- Moving the lines of a text in makes no difference, unless white space ends the text. -/
theorem squeeze_lineBefore (text after : List Char) (h : ∀ c ∈ text.getLast?, !isSpace c) :
    squeeze (lineBefore text after) = squeeze (text ++ after) := by
  fun_induction lineBefore text after with
  | case1 => rfl
  | case2 => exact absurd (h '\n' rfl) (by decide)
  | case3 => exact absurd (h '\n' rfl) (by decide)
  | case4 rest after _ ih =>
    have hrest := ih fun c hc => h c (List.mem_getLast?_cons hc)
    rw [squeeze_cons_cons rfl rfl, squeeze_cons_cons rfl rfl, squeeze_cons rfl, hrest]
    rfl
  | case5 rest after _ ih =>
    have hrest := ih fun c hc => h c (List.mem_getLast?_cons (List.mem_getLast?_cons hc))
    have hreturn := squeeze_cons_cons (c := '\r') (d := '\n') rfl rfl (rest ++ after)
    rw [squeeze_cons_cons rfl rfl, squeeze_cons_cons rfl rfl, squeeze_cons rfl, hrest]
    exact hreturn.symm
  | case6 c rest after _ _ _ _ ih =>
    have hrest := ih fun c hc => h c (List.mem_getLast?_cons hc)
    rw [List.cons_append, squeeze, squeeze, hrest]

theorem squeeze_indented (hne : text ≠ []) (h : ∀ c ∈ text.getLast?, !isSpace c)
    (after : List Char) :
    squeeze (indented text ++ after) = ' ' :: (squeeze (text ++ after)).dropWhile (· == ' ') := by
  rw [← lineBefore_eq hne, squeeze_cons_cons rfl rfl, squeeze_cons_cons rfl rfl, squeeze_cons rfl,
    squeeze_lineBefore text after h]

/-- A child stands behind one blank, whether on the line of the label or on lines of its own. -/
theorem squeeze_child (h : t.Plain)
    (ht : ∀ after, squeeze (t.display.toList ++ after) = t.inline ++ squeeze after)
    (inLine : Bool) (after : List Char) :
    squeeze ((if inLine then ' ' :: t.display.toList else indented t.display.toList) ++ after) =
      ' ' :: (t.inline ++ squeeze after) := by
  have hinline : (t.inline ++ squeeze after).dropWhile (· == ' ') = t.inline ++ squeeze after := by
    obtain ⟨c, rest, hc, hne⟩ := h.exists_inline
    rw [hc, List.cons_append, List.dropWhile_cons_of_neg (by simpa using hne)]
  split
  · rw [List.cons_append, squeeze_cons rfl, ht, hinline]
  · rw [squeeze_indented h.display_ne_nil h.not_isSpace_of_mem_getLast?, ht, hinline]

theorem squeeze_children (inLine : Bool) (h : ∀ t ∈ ts, t.Plain)
    (hts : ∀ t ∈ ts, ∀ after, squeeze (t.display.toList ++ after) = t.inline ++ squeeze after)
    (after : List Char) :
    squeeze ((ts.flatMap fun t =>
      if inLine then ' ' :: t.display.toList else indented t.display.toList) ++ after) =
        inlineAll ts ++ squeeze after := by
  induction ts with
  | nil => rfl
  | cons t ts ih =>
    obtain ⟨ht, hplain⟩ := List.forall_mem_cons.mp h
    obtain ⟨hdisplay, hrest⟩ := List.forall_mem_cons.mp hts
    rw [List.flatMap_cons, List.append_assoc, squeeze_child ht hdisplay, ih hplain hrest, inlineAll,
      List.cons_append, List.append_assoc]

/-- However a tree is laid out, it stands on one line when every stretch of white space is one
blank. -/
theorem squeeze_display_append (h : t.Plain) (after : List Char) :
    squeeze (t.display.toList ++ after) = t.inline ++ squeeze after := by
  induction t generalizing after with
  | leaf word span =>
    rw [display_leaf]
    exact squeeze_append (plain_leaf.mp h).not_isSpace after
  | branch label span children ih =>
    obtain ⟨hlabel, hchildren⟩ := plain_branch.mp h
    have hfront : ∀ c ∈ '(' :: label.toList, !isSpace c :=
      List.forall_mem_cons.mpr ⟨rfl, hlabel.not_isSpace⟩
    have hclose : squeeze (')' :: after) = ')' :: squeeze after := rfl
    rw [toList_display_branch, ← List.cons_append, ← List.cons_append, List.append_assoc,
      List.append_assoc, squeeze_append hfront, List.singleton_append,
      squeeze_children _ hchildren fun child hchild => ih child hchild (hchildren child hchild),
      hclose, inline]
    simp

theorem squeeze_display (h : t.Plain) : squeeze t.display.toList = t.inline := by
  have := squeeze_display_append h []
  rwa [List.append_nil, squeeze, List.append_nil] at this

/-! ### Reading a line -/

theorem head_inlineAll_append {rest : List Char} :
    ∀ c ∈ (inlineAll ts ++ ')' :: rest).head?, ¬isPlain c := by
  intro c hc
  cases ts with
  | nil =>
    obtain rfl : ')' = c := Option.some.inj hc
    decide
  | cons t ts =>
    obtain rfl : ' ' = c := Option.some.inj hc
    decide

/-- Where the tree ends on a line is determined, and so are its shape, its labels and its words. -/
def Readable (t : Tree) : Prop :=
  ∀ ⦃u : Tree⦄, u.Plain → ∀ ⦃rest more : List Char⦄, (∀ c ∈ rest.head?, ¬isPlain c) →
    (∀ c ∈ more.head?, ¬isPlain c) → t.inline ++ rest = u.inline ++ more →
    t.bare = u.bare ∧ rest = more

theorem readable_leaf (hword : IsName word) (span : Span) : Readable (.leaf word span) := by
  intro u hu rest more hrest hmore h
  cases u with
  | leaf word' span' =>
    obtain ⟨heq, hmore⟩ :=
      Source.append_inj_of_head hword.isPlain_of_mem hrest (plain_leaf.mp hu).isPlain_of_mem hmore h
    rw [bare_leaf, bare_leaf, String.toList_inj.mp heq]
    exact ⟨rfl, hmore⟩
  | branch label span' children => exact absurd h (hword.append_ne _ _)

theorem map_bare_eq_of_inlineAll_append (hts : ∀ t ∈ ts, t.Readable) (hus : ∀ u ∈ us, u.Plain)
    {rest more : List Char} (h : inlineAll ts ++ ')' :: rest = inlineAll us ++ ')' :: more) :
    ts.map bare = us.map bare ∧ rest = more := by
  induction ts generalizing us with
  | nil =>
    cases us with
    | nil => exact ⟨rfl, (List.cons.inj h).2⟩
    | cons u us => exact absurd (List.cons.inj h).1 (by decide)
  | cons t ts ih =>
    cases us with
    | nil => exact absurd (List.cons.inj h).1 (by decide)
    | cons u us =>
      obtain ⟨ht, hts⟩ := List.forall_mem_cons.mp hts
      obtain ⟨hu, hus⟩ := List.forall_mem_cons.mp hus
      simp only [inlineAll, List.cons_append, List.append_assoc] at h
      obtain ⟨hbare, hrest⟩ :=
        ht hu head_inlineAll_append head_inlineAll_append (List.cons.inj h).2
      obtain ⟨hbares, hmore⟩ := ih hts hus hrest
      rw [List.map_cons, List.map_cons, hbare, hbares]
      exact ⟨rfl, hmore⟩

theorem readable_branch {children : List Tree} (hlabel : IsName label)
    (hchildren : ∀ child ∈ children, child.Readable) (span : Span) :
    Readable (.branch label span children) := by
  intro u hu rest more hrest hmore h
  cases u with
  | leaf word span' => exact absurd h.symm ((plain_leaf.mp hu).append_ne _ _)
  | branch label' span' children' =>
    obtain ⟨hlabel', hchildren'⟩ := plain_branch.mp hu
    simp only [inline, List.cons_append, List.append_assoc, List.nil_append] at h
    obtain ⟨hname, hbelow⟩ := Source.append_inj_of_head hlabel.isPlain_of_mem head_inlineAll_append
      hlabel'.isPlain_of_mem head_inlineAll_append (List.cons.inj h).2
    obtain ⟨hbare, hmore⟩ := map_bare_eq_of_inlineAll_append hchildren hchildren' hbelow
    rw [bare_branch, bare_branch, hbare, String.toList_inj.mp hname]
    exact ⟨rfl, hmore⟩

theorem Plain.readable (h : t.Plain) : t.Readable := by
  induction t with
  | leaf word span => exact readable_leaf (plain_leaf.mp h) span
  | branch label span children ih =>
    obtain ⟨hlabel, hchildren⟩ := plain_branch.mp h
    exact readable_branch hlabel (fun child hchild => ih child hchild (hchildren child hchild)) span

theorem display_eq_iff (ht : t.Plain) (hu : u.Plain) :
    t.display = u.display ↔ t.bare = u.bare := by
  constructor
  · intro h
    have hinline : t.inline ++ [] = u.inline ++ [] := by
      rw [← squeeze_display ht, ← squeeze_display hu, h]
    exact (ht.readable hu (by simp) (by simp) hinline).1
  · intro h
    rw [← display_bare t, h, display_bare]

/-! ### Parses -/

section Parses

variable {allowed : Constituent → Prop} {rules : List Rule} {words : List String} {i j k : Nat}

/-- Trees that follow one another from the same place and have the same shape, labels and words have
the same spans. -/
theorem eq_of_map_bare_eq
    (hts : ∀ t ∈ ts, ∀ u : Tree, u.WellBuilt allowed words → t.bare = u.bare →
      t.span.start = u.span.start → t = u)
    (hus : ∀ u ∈ us, u.WellBuilt allowed words) (hbare : ts.map bare = us.map bare)
    (ht : Tiles i (ts.map Tree.span) j) (hu : Tiles i (us.map Tree.span) k) : ts = us ∧ j = k := by
  induction ts generalizing us i with
  | nil =>
    obtain rfl := List.map_eq_nil_iff.mp hbare.symm
    exact ⟨rfl, ht.symm.trans hu⟩
  | cons t ts ih =>
    obtain ⟨u, us, rfl, hfirst, hrest⟩ := List.map_eq_cons_iff.mp hbare.symm
    obtain ⟨htree, htrees⟩ := List.forall_mem_cons.mp hts
    obtain ⟨hbuilt, hbuilts⟩ := List.forall_mem_cons.mp hus
    obtain ⟨htstart, htail⟩ := ht
    obtain ⟨hustart, hutail⟩ := hu
    obtain rfl := htree u hbuilt hfirst.symm (htstart.trans hustart.symm)
    obtain ⟨rfl, hend⟩ := ih htrees hbuilts hrest.symm htail hutail
    exact ⟨rfl, hend⟩

/-- The shape of a tree that is built over words and the place where it begins determine its
spans. -/
theorem WellBuilt.eq_of_bare_eq (ht : t.WellBuilt allowed words) (hu : u.WellBuilt allowed words)
    (hbare : t.bare = u.bare) (hstart : t.span.start = u.span.start) : t = u := by
  induction ht generalizing u with
  | leaf hword =>
    cases hu with
    | leaf hword' =>
      simp only [bare_leaf, leaf.injEq, and_true] at hbare
      subst hbare
      obtain rfl := hstart
      rfl
    | branch => simp at hbare
  | @branch label span children hallowed htiles _ ih =>
    cases hu with
    | leaf => simp at hbare
    | @branch label' span' children' hallowed' htiles' hchildren' =>
      simp only [bare_branch, branch.injEq, true_and] at hbare
      obtain ⟨start, stop⟩ := span
      obtain ⟨start', stop'⟩ := span'
      obtain ⟨rfl, hmap⟩ := hbare
      obtain rfl : start = start' := hstart
      obtain ⟨rfl, rfl⟩ :=
        eq_of_map_bare_eq (fun t ht u hu => ih t ht hu) hchildren' hmap htiles htiles'
      rfl

theorem WellBuilt.plain (h : t.WellBuilt (OfRules rules) words)
    (hrules : ∀ rule ∈ rules, IsName rule.lhs) (hwords : ∀ word ∈ words, IsName word) :
    t.Plain := by
  induction h with
  | leaf hword => exact plain_leaf.mpr (hwords _ (List.mem_of_getElem? hword))
  | branch hrule _ _ ih => exact plain_branch.mpr ⟨hrules _ hrule, ih⟩

/-- No tree of a parse is written like another one, if all names and words can be told from what
stands around them. -/
theorem nodup_map_display_of_parse {g : Grammar} {trees : List Tree}
    (hrules : ∀ rule ∈ g.rules, IsName rule.lhs) (hwords : ∀ word ∈ words, IsName word)
    (h : g.parse words = .ok trees) : (trees.map display).Nodup := by
  obtain rfl := Grammar.eq_trees_of_parse h
  have hnodup : ((Forest.ofChart (Chart.build g words) words).trees g).Nodup :=
    Forest.nodup_trees (Forest.nodup_startingAt_ofChart (Chart.inBounds_build g words)) g
  refine hnodup.map_on fun t ht u hu hdisplay => ?_
  have htree := (Grammar.mem_trees_build_iff.mp ht).1
  have hutree := (Grammar.mem_trees_build_iff.mp hu).1
  have hbare := (display_eq_iff (htree.wellBuilt.plain hrules hwords)
    (hutree.wellBuilt.plain hrules hwords)).mp hdisplay
  exact htree.wellBuilt.eq_of_bare_eq hutree.wellBuilt hbare
    (congrArg Span.start (htree.span.trans hutree.span.symm))

end Parses

/-- A tree of names has the same pieces on paper as on one line, and it is written like another tree
of names exactly when the two have the same shape, labels and words.  So no tree of a parse with
such names and words is written like another one. -/
theorem display_unambiguous :
    (∀ t : Tree, t.Plain → fields t.display.toList = fields t.inline) ∧
    (∀ t u : Tree, t.Plain → u.Plain → (t.display = u.display ↔ t.bare = u.bare)) ∧
    ∀ (g : Grammar) (words : List String), (∀ rule ∈ g.rules, IsName rule.lhs) →
      (∀ word ∈ words, IsName word) → ∀ trees, g.parse words = .ok trees →
      (trees.map display).Nodup := by
  refine ⟨fun t ht => ?_, fun t u => display_eq_iff, fun g words hrules hwords trees => ?_⟩
  · rw [← squeeze_display ht, fields_squeeze]
  · exact nodup_map_display_of_parse hrules hwords

/-- A tree with branches in both layouts, one of them without children. -/
def barking : Tree :=
  .branch "S" ⟨0, 3⟩ [
    .branch "NP" ⟨0, 2⟩ [
      .branch "Det" ⟨0, 1⟩ [.leaf "the" ⟨0, 1⟩], .branch "N" ⟨1, 2⟩ [.leaf "dog" ⟨1, 2⟩]],
    .branch "VP" ⟨2, 3⟩ [.branch "V" ⟨2, 3⟩ [.leaf "barked" ⟨2, 3⟩], .branch "NP" ⟨3, 3⟩ []]]

theorem display_unambiguous_barking : barking.Plain ∧ barking.bare.Plain ∧
    fields barking.display.toList = fields barking.inline ∧
    barking.display = barking.bare.display ∧
    (∀ rule ∈ Grammar.looping.rules, IsName rule.lhs) ∧ (∀ word ∈ ["x", "x"], IsName word) ∧
    ∃ trees, Grammar.looping.parse ["x", "x"] = .ok trees ∧ trees.length = 25 ∧
      (trees.map display).Nodup := by
  have hplain : barking.Plain := by
    simp only [barking, plain_branch, plain_leaf, List.forall_mem_cons, List.not_mem_nil,
      false_implies, implies_true]
    decide
  have hbare : barking.bare.Plain := by
    simp only [barking, bare_branch, bare_leaf, List.map_cons, List.map_nil, plain_branch,
      plain_leaf, List.forall_mem_cons, List.not_mem_nil, false_implies, implies_true]
    decide
  have hrules : ∀ rule ∈ Grammar.looping.rules, IsName rule.lhs := by decide
  have hwords : ∀ word ∈ ["x", "x"], IsName word := by decide
  obtain ⟨hfields, hiff, hparse⟩ := display_unambiguous
  refine ⟨hplain, hbare, hfields _ hplain, (hiff _ _ hplain hbare).mpr (by decide), hrules, hwords,
    _, rfl, ?_, hparse Grammar.looping ["x", "x"] hrules hwords _ rfl⟩
  decide +kernel

example : barking.display =
    "(S\n  (NP\n    (Det the)\n    (N dog))\n  (VP\n    (V barked)\n    (NP)))" := by
  decide +kernel

end Tree

end PhraseStructure
