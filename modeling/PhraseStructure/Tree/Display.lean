import PhraseStructure.Tree

/-! Trees on paper.  A branch is written in parentheses, its label first.  Its children stand on the
same line if there is one child or if all of them are leaves.  Otherwise every child begins a line
of its own, two columns further in than its parent.

A tree is written in front of what follows it, so that no part is copied when parts are put
together.  `toList_display_branch` says what results. -/

namespace PhraseStructure.Tree

/-- The lines of a text, each on a line of its own and two columns further in. -/
def indented (text : List Char) : List Char :=
  (Text.lines text).flatMap fun line => '\n' :: ' ' :: ' ' :: line

/-- What is left of a line, the lines after it two columns further in, and then `after`. -/
def lineBefore : List Char → List Char → List Char
  | [], after => after
  | ['\n'], after => after
  | ['\r', '\n'], after => after
  | '\n' :: rest, after => '\n' :: ' ' :: ' ' :: lineBefore rest after
  | '\r' :: '\n' :: rest, after => '\n' :: ' ' :: ' ' :: lineBefore rest after
  | c :: rest, after => c :: lineBefore rest after

/-- The lines of a text, each on a line of its own and two columns further in, and then `after`. -/
def indentedBefore (text after : List Char) : List Char :=
  if text = [] then after else '\n' :: ' ' :: ' ' :: lineBefore text after

theorem lineBefore_eq {text : List Char} (h : text ≠ []) (after : List Char) :
    '\n' :: ' ' :: ' ' :: lineBefore text after = indented text ++ after := by
  fun_induction lineBefore text after with
  | case1 => exact absurd rfl h
  | case2 => rfl
  | case3 => rfl
  | case4 after rest hrest ih =>
    rw [ih (by rintro rfl; exact hrest rfl)]
    simp [indented]
  | case5 after rest hrest ih =>
    rw [ih (by rintro rfl; exact hrest rfl)]
    simp [indented]
  | case6 c rest after _ _ hfeed hreturn ih =>
    have hlines := Text.lines_char hfeed fun more hc hrest => hreturn more hc hrest
    by_cases hrest : rest = []
    · subst hrest
      simp [indented, hlines, lineBefore]
    · cases hl : Text.lines rest with
      | nil => exact absurd hl (Text.lines_ne_nil hrest)
      | cons line more =>
        have := ih hrest
        simp only [indented, hl, List.flatMap_cons, List.cons_append, List.cons.injEq,
          true_and] at this
        simp [indented, hlines, hl, this]

theorem indentedBefore_eq (text after : List Char) :
    indentedBefore text after = indented text ++ after := by
  unfold indentedBefore
  split
  · next h => simp [h, indented]
  · next h => exact lineBefore_eq h after

/-- Whether the children of a branch stand on the line of its label. -/
def standInline (children : List Tree) : Bool := children.all isLeaf || children.length == 1

mutual

/-- The tree in parentheses, and then `after`. -/
def displayBefore : Tree → List Char → List Char
  | .branch label _ children, after =>
    '(' :: (label.toList ++ displayAllBefore (standInline children) children (')' :: after))
  | .leaf word _, after => word.toList ++ after

/-- The trees below a branch, on the line of its label or on lines of their own, and then
`after`. -/
def displayAllBefore (inLine : Bool) : List Tree → List Char → List Char
  | [], after => after
  | t :: ts, after =>
    if inLine then ' ' :: displayBefore t (displayAllBefore inLine ts after)
    else indentedBefore (displayBefore t []) (displayAllBefore inLine ts after)

end

def display (t : Tree) : String := String.ofList (displayBefore t [])

mutual

/-- What follows a tree has no part in how the tree is written. -/
theorem displayBefore_eq (t : Tree) (after : List Char) :
    displayBefore t after = t.display.toList ++ after := by
  cases t with
  | leaf word span => simp [display, displayBefore]
  | branch label span children =>
    simp only [display, displayBefore, String.toList_ofList,
      displayAllBefore_eq (standInline children) children (')' :: after),
      displayAllBefore_eq (standInline children) children [')']]
    simp

/-- The trees below a branch follow one another. -/
theorem displayAllBefore_eq (inLine : Bool) (ts : List Tree) (after : List Char) :
    displayAllBefore inLine ts after =
      (ts.flatMap fun t =>
        if inLine then ' ' :: t.display.toList else indented t.display.toList) ++ after := by
  cases ts with
  | nil => rfl
  | cons t ts =>
    rw [displayAllBefore, displayAllBefore_eq inLine ts after, indentedBefore_eq,
      displayBefore_eq t [], displayBefore_eq t, List.append_nil]
    cases inLine <;> simp

end

@[simp] theorem display_leaf (word : String) (span : Span) : display (.leaf word span) = word := by
  simp [display, displayBefore]

/-- A branch is its label and its children, in parentheses. -/
theorem toList_display_branch (label : String) (span : Span) (children : List Tree) :
    (display (.branch label span children)).toList =
      '(' :: (label.toList ++
        (children.flatMap fun t =>
          if standInline children then ' ' :: t.display.toList
          else indented t.display.toList) ++ [')']) := by
  simp only [display, displayBefore, displayAllBefore_eq, String.toList_ofList, List.append_assoc]

end PhraseStructure.Tree
