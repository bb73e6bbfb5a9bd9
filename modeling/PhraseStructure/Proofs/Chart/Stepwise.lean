import PhraseStructure.Proofs.Chart.Moment

/-! The steps of a construction arrive at `Chart.build`.  A round of the loop over the items of a
position adds what `Chart.additions` says to this position, and to the next one the item itself if
it waits for the word, so that the rounds are the steps of `Chart.closeFrom`.  That these are as
many as are needed follows from the bound that every moment keeps. -/

namespace PhraseStructure

open Relation

namespace Chart

namespace Moment

variable {g : Grammar} {words : List String} {m : Moment}

/-! ### What the rounds add

The positions before the present one are `earlier`, the present one has `items`, and those after it
are `later`. -/

section Rounds

variable {earlier later : List (List Item)} {items : List Item} {chart : Chart} {index : Nat}
variable {item : Item}

theorem sets_put_present (hsets : chart.sets = earlier ++ items :: later) (item : Item) :
    (chart.put earlier.length item).sets = earlier ++ insert items item :: later := by
  show chart.sets.modify earlier.length (insert · item) = _
  simp [hsets, List.modify_eq_take_drop]

theorem lt_of_present (hsets : chart.sets = earlier ++ items :: later) :
    earlier.length < chart.sets.length := by
  rw [hsets, List.length_append, List.length_cons]
  omega

theorem getElem?_present (hsets : chart.sets = earlier ++ items :: later) :
    chart.sets[earlier.length]? = some items := by
  simp [hsets]

theorem exists_waiting (hsets : chart.sets = earlier ++ items :: later) {k : Nat}
    (hk : k ≤ earlier.length) :
    ∃ waiting, chart.sets[k]? = some waiting ∧ (earlier ++ [items])[k]? = some waiting := by
  have hlt : k < (earlier ++ [items]).length := by
    rw [List.length_append, List.length_singleton]
    omega
  rw [hsets, List.append_cons earlier items later, List.getElem?_append_left hlt]
  exact ⟨_, List.getElem?_eq_getElem hlt, List.getElem?_eq_getElem hlt⟩

theorem reaches_predict {name : String} (hnext : item.next? = some (.nonterminal name))
    (rules : List Rule) (hsets : chart.sets = earlier ++ items :: later) :
    ∃ chart', chart'.sets = earlier ++ insertAll items (rules.map (Item.atStart · earlier.length) ++
        if g.isNullable name then [item.advance] else []) :: later ∧
      Reaches g words ⟨chart, earlier.length, index, .predict item name rules⟩
        ⟨chart', earlier.length, index, .pick⟩ := by
  induction rules generalizing chart items with
  | nil =>
    have hstep : next g words ⟨chart, earlier.length, index, .predict item name []⟩ = _ :=
      next_predict_nil (lt_of_present hsets) hnext
    refine ⟨_, ?_, ReflTransGen.single hstep⟩
    split
    · exact sets_put_present hsets _
    · exact hsets
  | cons rule rules ih =>
    obtain ⟨chart', hsets', hreach⟩ :=
      ih (sets_put_present hsets (Item.atStart rule earlier.length))
    exact ⟨chart', hsets', ReflTransGen.head (next_predict rule rules (lt_of_present hsets)) hreach⟩

/-- The items that a complete item goes through are those that there were when it began, even if
more are added where it begins. -/
theorem reaches_complete {waiting : List Item} (hsets : chart.sets = earlier ++ items :: later)
    (before after : List Item) (hwaiting : waiting = before ++ after)
    (horigin : ∃ more, chart.sets[item.origin]? = some more ∧ waiting <+: more) :
    ∃ chart', chart'.sets = earlier ++
        insertAll items (after.filterMap (Item.afterName? item.rule.lhs)) :: later ∧
      Reaches g words
        ⟨chart, earlier.length, index, .complete item before.length waiting.length⟩
        ⟨chart', earlier.length, index, .pick⟩ := by
  induction after generalizing chart items before with
  | nil =>
    refine ⟨chart, hsets, ReflTransGen.single (next_complete_end ?_)⟩
    simp [hwaiting]
  | cons other after ih =>
    obtain ⟨more, hmore, hprefix⟩ := horigin
    have hother : more[before.length]? = some other := by
      obtain ⟨rest, rfl⟩ := hprefix
      simp [hwaiting]
    have hstep : next g words
        ⟨chart, earlier.length, index, .complete item before.length waiting.length⟩ = _ :=
      next_complete (lt_of_present hsets) hmore hother (by simp [hwaiting])
    have hwaiting' : waiting = (before ++ [other]) ++ after := by simp [hwaiting]
    rw [List.filterMap_cons, Item.afterName?]
    split at hstep
    · next hnext =>
      rw [if_pos hnext]
      obtain ⟨more', hmore', hprefix'⟩ := prefix_sets_put earlier.length other.advance hmore
      obtain ⟨chart', hsets', hreach⟩ := ih (sets_put_present hsets other.advance) _ hwaiting'
        ⟨more', hmore', hprefix.trans hprefix'⟩
      rw [List.length_append] at hreach
      exact ⟨chart', hsets', ReflTransGen.head hstep hreach⟩
    · next hnext =>
      rw [if_neg hnext]
      obtain ⟨chart', hsets', hreach⟩ := ih hsets _ hwaiting' ⟨more, hmore, hprefix⟩
      rw [List.length_append] at hreach
      exact ⟨chart', hsets', ReflTransGen.head hstep hreach⟩

/-- The positions after the present one when the items that wait for the word have gone on. -/
def carried (word? : Option String) (items : List Item) : List (List Item) → List (List Item)
  | [] => []
  | next :: rest =>
    insertAll next (items.filterMap fun item => word?.bind (Item.afterWord? · item)) :: rest

theorem carried_nil (word? : Option String) (later : List (List Item)) :
    carried word? [] later = later := by
  cases later <;> rfl

theorem carried_append (word? : Option String) (xs ys : List Item) (later : List (List Item)) :
    carried word? (xs ++ ys) later = carried word? ys (carried word? xs later) := by
  cases later with
  | nil => rfl
  | cons next rest => simp only [carried, insertAll, List.filterMap_append, List.foldl_append]

theorem carried_of_ne {word? : Option String}
    (h : ∀ word, word? = some word → item.next? ≠ some (.terminal word))
    (later : List (List Item)) : carried word? [item] later = later := by
  cases word? with
  | none => cases later <;> rfl
  | some word =>
    cases later with
    | nil => rfl
    | cons next rest => simp [carried, insertAll, Item.afterWord?, h word rfl]

theorem sets_put_next {next : List Item} {rest : List (List Item)}
    (hsets : chart.sets = earlier ++ items :: next :: rest) (item : Item) :
    (chart.put (earlier.length + 1) item).sets =
      earlier ++ items :: insert next item :: rest := by
  rw [List.append_cons] at hsets ⊢
  simpa using sets_put_present hsets item

theorem sets_carried {word? : Option String} {word : String}
    (hsets : chart.sets = earlier ++ items :: later) (hlater : word? = some word → later ≠ [])
    (hnext : item.next? = some (.terminal word)) :
    (if word? = some word then chart.put (earlier.length + 1) item.advance else chart).sets =
      earlier ++ items :: carried word? [item] later := by
  split
  · next hword =>
    obtain ⟨next, rest, rfl⟩ := List.exists_cons_of_ne_nil (hlater hword)
    rw [sets_put_next hsets, hword]
    simp [carried, insertAll, Item.afterWord?, hnext]
  · next hword =>
    rw [hsets, carried_of_ne]
    rintro other rfl hother
    rw [hnext] at hother
    exact hword (by simpa using hother.symm)

/-- Going through one item adds its additions, and the item goes on if it waits for the word. -/
theorem reaches_round (h : Sound g words ⟨chart, earlier.length, index, .pick⟩)
    (hsets : chart.sets = earlier ++ items :: later) (hitem : items[index]? = some item) :
    ∃ chart', chart'.sets = earlier ++ insertAll items (additions g earlier items item) ::
        carried words[earlier.length]? [item] later ∧
      Reaches g words ⟨chart, earlier.length, index, .pick⟩
        ⟨chart', earlier.length, index + 1, .pick⟩ := by
  have hpresent := getElem?_present hsets
  have hrange := h.inRange _ _ hpresent item (List.mem_of_getElem? hitem)
  have hpick : next g words ⟨chart, earlier.length, index, .pick⟩ = _ := next_pick hpresent hitem
  cases hnext : item.next? with
  | none =>
    obtain ⟨waiting, horigin, hwaiting⟩ := exists_waiting hsets hrange.origin_le
    obtain ⟨chart', hsets', hreach⟩ :=
      reaches_complete hsets [] waiting rfl ⟨waiting, horigin, List.prefix_rfl⟩
    refine ⟨chart', ?_, ReflTransGen.head (hpick.trans (take_complete hnext horigin)) hreach⟩
    rw [hsets', carried_of_ne (by simp [hnext]), additions, hnext]
    simp only [hwaiting, Option.getD_some]
  | some symbol =>
    cases symbol with
    | nonterminal name =>
      obtain ⟨chart', hsets', hreach⟩ := reaches_predict hnext (g.rulesFor name) hsets
      refine ⟨chart', ?_, ReflTransGen.head (hpick.trans (take_name hnext)) hreach⟩
      rw [hsets', carried_of_ne (by simp [hnext]), additions, hnext]
      dsimp only
      split
      · rfl
      · rw [List.append_nil]
    | terminal word =>
      have hlen := h.length_eq
      dsimp only at hlen
      have hlater : words[earlier.length]? = some word → later ≠ [] := by
        rintro hword rfl
        have hk := (List.getElem?_eq_some_iff.mp hword).1
        rw [hsets, List.length_append, List.length_singleton] at hlen
        omega
      have hstep := hpick.trans (take_word (fun _ => by omega) hnext)
      refine ⟨_, ?_, ReflTransGen.single hstep⟩
      rw [additions_word hnext]
      exact sets_carried hsets hlater hnext

/-- Each step of `closeFrom` is a round. -/
theorem reaches_closeFrom {fresh : List (List Item)} (steps : Nat)
    (h : Sound g words ⟨chart, earlier.length, index, .pick⟩)
    (hsets : chart.sets =
      earlier ++ items :: carried words[earlier.length]? (items.take index) fresh) :
    ∃ chart' stop, chart'.sets = earlier ++ closeFrom g earlier steps index items ::
        carried words[earlier.length]? ((closeFrom g earlier steps index items).take stop) fresh ∧
      Reaches g words ⟨chart, earlier.length, index, .pick⟩
        ⟨chart', earlier.length, stop, .pick⟩ ∧
      (stop = index + steps ∨ (closeFrom g earlier steps index items).length ≤ stop) := by
  induction steps generalizing chart items index with
  | zero => exact ⟨chart, index, hsets, ReflTransGen.refl, .inl rfl⟩
  | succ steps ih =>
    rw [closeFrom]
    cases hitem : items[index]? with
    | none =>
      exact ⟨chart, index, hsets, ReflTransGen.refl, .inr (List.getElem?_eq_none_iff.mp hitem)⟩
    | some item =>
      dsimp only
      obtain ⟨chart', hsets', hround⟩ := reaches_round h hsets hitem
      obtain ⟨hsound, -⟩ := h.of_reaches hround
      -- What was gone through so far is now one item more.
      have htake : (insertAll items (additions g earlier items item)).take (index + 1) =
          items.take index ++ [item] := by
        obtain ⟨more, hmore⟩ := prefix_insertAll items (additions g earlier items item)
        have hlt := (List.getElem?_eq_some_iff.mp hitem).1
        rw [← hmore, List.take_append_of_le_length hlt, List.take_add_one, hitem]
        rfl
      rw [← carried_append, ← htake] at hsets'
      obtain ⟨chart'', stop, hsets'', hreach, hstop⟩ := ih hsound hsets'
      exact ⟨chart'', stop, hsets'', hround.trans hreach, by omega⟩

/-- The rounds end with the closed position, because the steps that `close` allows are as many as
there can be items. -/
theorem reaches_close {fresh : List (List Item)}
    (h : Sound g words ⟨chart, earlier.length, 0, .pick⟩)
    (hsets : chart.sets = earlier ++ items :: fresh) :
    ∃ chart', chart'.sets = earlier ++ close g earlier items ::
        carried words[earlier.length]? (close g earlier items) fresh ∧
      Reaches g words ⟨chart, earlier.length, 0, .pick⟩ ⟨chart', earlier.length + 1, 0, .pick⟩ := by
  obtain ⟨chart', stop, hsets', hreach, hstop⟩ := reaches_closeFrom (maxItems g earlier.length) h
    (hsets.trans (by rw [List.take_zero, carried_nil]))
  obtain ⟨hsound, -⟩ := h.of_reaches hreach
  have hpresent := getElem?_present hsets'
  have hle : (close g earlier items).length ≤ stop := by
    have hbound := hsound.length_le hpresent
    rw [← close] at hbound hstop
    omega
  refine ⟨chart', ?_, hreach.tail (next_pick_close hpresent hle)⟩
  rw [hsets', ← close, List.take_of_length_le hle]

theorem insertAll_eq_append {items new : List Item} (h : (items ++ new).Nodup) :
    insertAll items new = items ++ new := by
  induction new generalizing items with
  | nil => simp [insertAll]
  | cons item new ih =>
    have hitem : ¬ items.contains item := by
      rw [List.contains_iff_mem]
      grind
    rw [List.append_cons] at h ⊢
    rw [← ih h, insertAll, List.foldl_cons, insert, if_neg hitem]
    rfl

/-- From a position on, the steps arrive at what `buildFrom` gives. -/
theorem reaches_buildFrom (rest : List String)
    (h : Sound g words ⟨chart, earlier.length, 0, .pick⟩)
    (hsets : chart.sets = earlier ++ items :: List.replicate rest.length [])
    (hrest : words.drop earlier.length = rest) :
    ∃ last : Moment, Reaches g words ⟨chart, earlier.length, 0, .pick⟩ last ∧
      last.next g words = .ok none ∧ last.chart.sets = buildFrom g earlier items rest := by
  induction rest generalizing chart earlier items with
  | nil =>
    obtain ⟨chart', hsets', hreach⟩ := reaches_close h hsets
    refine ⟨_, hreach, next_pick_end ?_, hsets'⟩
    rw [hsets']
    simp [carried]
  | cons word rest ih =>
    obtain ⟨chart', hsets', hreach⟩ := reaches_close h hsets
    obtain ⟨hsound, -⟩ := h.of_reaches hreach
    have hword : words[earlier.length]? = some word := by
      rw [← List.head?_drop, hrest]
      rfl
    have hnodup : (close g earlier items).Nodup := chart'.nodup _ (by simp [hsets'])
    have hcarried : insertAll [] ((close g earlier items).filterMap (Item.afterWord? word)) =
        (close g earlier items).filterMap (Item.afterWord? word) :=
      insertAll_eq_append (nodup_afterWord hnodup word)
    have hlength : earlier.length + 1 = (earlier ++ [close g earlier items]).length := by simp
    rw [hword, List.length_cons, List.replicate_succ, carried, List.append_cons] at hsets'
    simp only [Option.bind_some, hcarried] at hsets'
    rw [hlength] at hsound hreach
    obtain ⟨last, hlast, hend⟩ := ih hsound hsets' (by rw [← hlength, ← List.tail_drop, hrest]; rfl)
    exact ⟨last, hreach.trans hlast, hend⟩

theorem reaches_start (rules : List Rule) (hsets : chart.sets = items :: later) :
    ∃ chart', chart'.sets = insertAll items (rules.map (Item.atStart · 0)) :: later ∧
      Reaches g words ⟨chart, 0, 0, .start rules⟩ ⟨chart', 0, 0, .pick⟩ := by
  induction rules generalizing chart items with
  | nil => exact ⟨chart, hsets, ReflTransGen.single rfl⟩
  | cons rule rules ih =>
    have hput : (chart.put 0 (Item.atStart rule 0)).sets =
        insert items (Item.atStart rule 0) :: later :=
      @sets_put_present [] _ _ _ hsets _
    obtain ⟨chart', hsets', hreach⟩ := ih hput
    exact ⟨chart', hsets', ReflTransGen.head (next_start rule rules (by simp [hsets])) hreach⟩

end Rounds

/-- The steps arrive at the chart that is built. -/
theorem reaches_build (g : Grammar) (words : List String) :
    ∃ last : Moment, Reaches g words (first g words) last ∧ last.next g words = .ok none ∧
      last.chart.sets = (build g words).sets := by
  have hempty : (Chart.empty (words.length + 1)).sets = [] :: List.replicate words.length [] :=
    List.replicate_succ
  obtain ⟨chart, hsets, hstart⟩ := reaches_start g.startRules hempty
  obtain ⟨hsound, -⟩ := (sound_first g words).of_reaches hstart
  rw [insertAll_eq_append (by simpa [startItems] using nodup_startItems g)] at hsets
  obtain ⟨last, hreach, hend, hlast⟩ := @reaches_buildFrom g words [] _ _ words hsound hsets rfl
  exact ⟨last, hstart.trans hreach, hend, hlast⟩

/-- A moment that is passed through leads to where no further step is taken. -/
theorem Reaches.of_last {last : Moment} (hm : Reaches g words (first g words) m)
    (hlast : Reaches g words (first g words) last) (hend : last.next g words = .ok none) :
    Reaches g words m last := by
  have hunique : Relator.RightUnique fun m after : Moment => m.next g words = .ok (some after) :=
    fun _ _ _ h h' => by simpa using h.symm.trans h'
  rcases ReflTransGen.total_of_right_unique hunique hm hlast with h | h
  · exact h
  · rcases ReflTransGen.cases_head h with rfl | ⟨_, hstep, -⟩
    · exact ReflTransGen.refl
    · simp [hend] at hstep

end Moment

end Chart

namespace Grammar

open Chart

/-- The construction of a chart ends with the chart, whatever moment it has come to.  At every
moment the next step does not fail.  The items of each position are different and in range, so that
there are no more of them than rules, places in these and origins allow, and the loop over the items
of the present position has made no more rounds than that.  The positions before the present one
stay as they are. -/
theorem steps_end_in_range (g : Grammar) (words : List String) (hne : words ≠ [])
    (hwords : "" ∉ words) :
    ∃ chart, g.chart words = .ok chart ∧
      (∃ last, Moment.Reaches g words (.first g words) last ∧ last.next g words = .ok none ∧
        last.chart = chart ∧
        ∀ m, Moment.Reaches g words (.first g words) m → Moment.Reaches g words m last) ∧
      ∀ m, Moment.Reaches g words (.first g words) m →
        (∃ after?, m.next g words = .ok after?) ∧ m.chart.length = words.length + 1 ∧
        (∀ k items, m.chart.sets[k]? = some items →
          items.Nodup ∧ (∀ item : Item, item ∈ items → item.InRange g.rules k) ∧
          items.length ≤ (k + 1) * dotPlaces g.rules) ∧
        m.index ≤ (m.position + 1) * dotPlaces g.rules ∧
        ∀ after, Moment.Reaches g words m after →
          ∀ k < m.position, after.chart.sets[k]? = m.chart.sets[k]? := by
  refine ⟨_, g.chart_eq hne hwords, ?_, fun m hm => ?_⟩
  · obtain ⟨last, hlast, hend, hsets⟩ := Moment.reaches_build g words
    exact ⟨last, hlast, hend, eq_of_sets_eq hsets, fun m hm => hm.of_last hlast hend⟩
  · obtain ⟨hsound, -⟩ := (Moment.sound_first g words).of_reaches hm
    obtain ⟨after?, hnext, -⟩ := hsound.proceeds
    refine ⟨⟨after?, hnext⟩, hsound.length_eq, fun k items hitems => ?_, hsound.index_le_maxItems,
      fun after hafter => (hsound.of_reaches hafter).2.sets_eq⟩
    exact ⟨m.chart.nodup items (List.mem_of_getElem? hitems), hsound.inRange k items hitems,
      hsound.length_le hitems⟩

theorem steps_end_in_range_looping : ["x", "x"] ≠ [] ∧ "" ∉ ["x", "x"] ∧
    ∃ chart, looping.chart ["x", "x"] = .ok chart ∧
      (∃ last, Moment.Reaches looping ["x", "x"] (.first looping ["x", "x"]) last ∧
        last.next looping ["x", "x"] = .ok none ∧ last.chart = chart ∧
        ∀ m, Moment.Reaches looping ["x", "x"] (.first looping ["x", "x"]) m →
          Moment.Reaches looping ["x", "x"] m last) ∧
      ∀ m, Moment.Reaches looping ["x", "x"] (.first looping ["x", "x"]) m →
        (∃ after?, m.next looping ["x", "x"] = .ok after?) ∧ m.chart.length = 3 ∧
        (∀ k items, m.chart.sets[k]? = some items →
          items.Nodup ∧ (∀ item : Item, item ∈ items → item.InRange looping.rules k) ∧
          items.length ≤ (k + 1) * dotPlaces looping.rules) ∧
        m.index ≤ (m.position + 1) * dotPlaces looping.rules ∧
        ∀ after, Moment.Reaches looping ["x", "x"] m after →
          ∀ k < m.position, after.chart.sets[k]? = m.chart.sets[k]? :=
  ⟨by decide, by decide, steps_end_in_range looping ["x", "x"] (by decide) (by decide)⟩

end Grammar

end PhraseStructure
