import PhraseStructure.Proofs.Chart.History
import PhraseStructure.Proofs.Forest.OfChart

/-! The forest of a chart, filled one constituent after another.  The complete items are gone
through position by position, and each is entered at the end of the row in which it begins.  There
is no such row when it begins outside the chart, and nothing else can go wrong.

One constituent makes one row longer and leaves the others as they are, so that a row has the
constituents that begin there in the order in which they came: by their ends, and among those that
end together in the order of the chart. -/

namespace PhraseStructure

/-! ### The complete items in order -/

namespace Chart

/-- The complete items of the positions as constituents, in order.  The first position is `k`. -/
def completedFrom (k : Nat) : List (List Item) → List Constituent
  | [] => []
  | items :: sets =>
    (items.filter Item.isComplete).map (fun item => ⟨item.origin, k, item.rule⟩) ++
      completedFrom (k + 1) sets

/-- The complete items of a chart as constituents, in order. -/
def completed (chart : Chart) : List Constituent := completedFrom 0 chart.sets

variable {k : Nat} {sets : List (List Item)} {c : Constituent}

theorem le_stop_of_mem_completedFrom (h : c ∈ completedFrom k sets) : k ≤ c.stop := by
  induction sets generalizing k with
  | nil => simp [completedFrom] at h
  | cons items sets ih =>
    rw [completedFrom, List.mem_append, List.mem_map] at h
    rcases h with ⟨item, -, rfl⟩ | h
    · exact Nat.le_refl k
    · exact Nat.le_of_succ_le (ih h)

theorem ordered_completedFrom (k : Nat) (sets : List (List Item)) :
    (completedFrom k sets).Pairwise fun a b => a.stop ≤ b.stop := by
  induction sets generalizing k with
  | nil => exact .nil
  | cons items sets ih =>
    rw [completedFrom, List.pairwise_append]
    refine ⟨?_, ih (k + 1), fun a ha b hb => ?_⟩
    · rw [List.pairwise_map]
      exact List.pairwise_of_forall fun _ _ => Nat.le_refl k
    · obtain ⟨item, -, rfl⟩ := List.mem_map.mp ha
      exact Nat.le_of_succ_le (le_stop_of_mem_completedFrom hb)

/-- Those that end at one position are the complete items of that position, in order. -/
theorem filter_stop_completedFrom (k j : Nat) (sets : List (List Item)) :
    (completedFrom k sets).filter (·.stop = k + j) =
      ((sets[j]?.getD []).filter Item.isComplete).map
        fun item => ⟨item.origin, k + j, item.rule⟩ := by
  induction sets generalizing k j with
  | nil => rfl
  | cons items sets ih =>
    rw [completedFrom, List.filter_append, List.filter_map]
    cases j with
    | zero =>
      have hrest : (completedFrom (k + 1) sets).filter (·.stop = k) = [] := by
        rw [List.filter_eq_nil_iff]
        intro c hc
        have := le_stop_of_mem_completedFrom hc
        rw [decide_eq_true_iff]
        omega
      simp [hrest, Function.comp_def]
    | succ j =>
      have hne : k ≠ k + (j + 1) := by omega
      rw [show k + (j + 1) = k + 1 + j by omega, ih, List.getElem?_cons_succ]
      simp [Function.comp_def]
      omega

/-- The first constituent that begins at `n` or later is that of the first complete item that
does. -/
theorem find?_completedFrom (n k : Nat) (sets : List (List Item)) :
    ((completedFrom k sets).find? fun c => n ≤ c.start).map Constituent.start =
      (sets.flatten.find? fun item => item.isComplete && n ≤ item.origin).map Item.origin := by
  induction sets generalizing k with
  | nil => rfl
  | cons items sets ih =>
    rw [completedFrom, List.flatten_cons, List.find?_append, List.find?_append, List.find?_map,
      List.find?_filter, Option.map_or, Option.map_or, ih, Option.map_map]
    simp [Function.comp_def]

end Chart

namespace Forest

theorem filterMap_constituent? (origin k : Nat) (items : List Item) :
    items.filterMap (constituent? origin k) =
      (items.filter fun item => item.isComplete ∧ item.origin = origin).map
        fun item => ⟨origin, k, item.rule⟩ := by
  induction items with
  | nil => rfl
  | cons item items ih =>
    rw [List.filterMap_cons, List.filter_cons, ih]
    by_cases h : item.isComplete ∧ item.origin = origin
    · simp [constituent?, h]
    · simp [constituent?, h]

/-- The complete items of one position that begin at another, as constituents. -/
theorem filter_start_map (origin k : Nat) (items : List Item) :
    ((items.filter Item.isComplete).map fun item =>
      (⟨item.origin, k, item.rule⟩ : Constituent)).filter (·.start = origin) =
      (items.filter fun item => item.isComplete ∧ item.origin = origin).map
        fun item => ⟨origin, k, item.rule⟩ := by
  induction items with
  | nil => rfl
  | cons item items ih =>
    by_cases hcomplete : item.isComplete
    · by_cases horigin : item.origin = origin
      · simpa [hcomplete, horigin] using ih
      · simpa [hcomplete, horigin] using ih
    · simpa [hcomplete] using ih

/-- The constituents that begin at a position are those of the complete items, in order. -/
theorem row_eq_filter (chart : Chart) (origin : Nat) :
    row chart origin = chart.completed.filter (·.start = origin) := by
  suffices h : ∀ (k : Nat) (sets : List (List Item)),
      ((sets.zipIdx k).flatMap fun set => set.1.filterMap (constituent? origin set.2)) =
        (Chart.completedFrom k sets).filter (·.start = origin) from h 0 chart.sets
  intro k sets
  induction sets generalizing k with
  | nil => rfl
  | cons items sets ih =>
    rw [List.zipIdx_cons, List.flatMap_cons, ih, Chart.completedFrom, List.filter_append,
      filter_start_map, ← filterMap_constituent?]

/-! ### Entering constituents -/

/-- The rows with one more constituent, at the end of the row in which it begins. -/
def enter (rows : List (List Constituent)) (c : Constituent) :
    Except OutOfRange (List (List Constituent)) :=
  if c.start < rows.length then .ok (rows.modify c.start (· ++ [c]))
  else .error ⟨rows.length, c.start⟩

/-- The rows with further constituents, entered one after another. -/
def enterAll (rows : List (List Constituent)) :
    List Constituent → Except OutOfRange (List (List Constituent))
  | [] => .ok rows
  | c :: cs => (enter rows c).bind (enterAll · cs)

/-- What the rows have become with further constituents: each has those that begin there at its
end, in order, and together they have each of them once more. -/
structure Entered (rows : List (List Constituent)) (cs : List Constituent)
    (after : List (List Constituent)) : Prop where
  length_eq : after.length = rows.length
  rows_eq : ∀ i, after[i]? = rows[i]?.map (· ++ cs.filter (·.start = i))
  perm : after.flatten.Perm (rows.flatten ++ cs)

section Entered

variable {rows middle after : List (List Constituent)} {c : Constituent}
  {cs before behind : List Constituent}

theorem Entered.refl (rows : List (List Constituent)) : Entered rows [] rows :=
  ⟨rfl, by simp, by simp⟩

theorem Entered.trans (h1 : Entered rows before middle) (h2 : Entered middle behind after) :
    Entered rows (before ++ behind) after := by
  refine ⟨h2.length_eq.trans h1.length_eq, fun i => ?_, ?_⟩
  · rw [h2.rows_eq, h1.rows_eq, Option.map_map, List.filter_append]
    exact congrArg (Option.map · rows[i]?) (funext fun row => List.append_assoc ..)
  · rw [← List.append_assoc]
    exact h2.perm.trans (h1.perm.append_right behind)

theorem exists_enter (h : c.start < rows.length) :
    ∃ after, enter rows c = .ok after ∧ Entered rows [c] after := by
  refine ⟨_, if_pos h, List.length_modify .., fun i => ?_, ?_⟩
  · rw [List.getElem?_modify]
    refine congrArg (Option.map · rows[i]?) (funext fun row => ?_)
    by_cases hi : c.start = i
    · simp [hi]
    · simp [hi]
  · obtain ⟨front, row, back, hrows, -, hmodify⟩ := List.exists_of_modify (· ++ [c]) h
    rw [hmodify, hrows]
    simp only [List.flatten_append, List.flatten_cons, List.append_assoc]
    exact (List.perm_append_comm.append_left row).append_left front.flatten

theorem enter_of_length_le (h : rows.length ≤ c.start) :
    enter rows c = .error ⟨rows.length, c.start⟩ := if_neg (Nat.not_lt.mpr h)

/-- Constituents that begin at rows that there are can be entered. -/
theorem exists_enterAll (h : ∀ c ∈ cs, c.start < rows.length) :
    ∃ after, enterAll rows cs = .ok after ∧ Entered rows cs after := by
  induction cs generalizing rows with
  | nil => exact ⟨rows, rfl, .refl rows⟩
  | cons c cs ih =>
    obtain ⟨hc, hcs⟩ := List.forall_mem_cons.mp h
    obtain ⟨middle, henter, hmiddle⟩ := exists_enter hc
    obtain ⟨after, hall, hafter⟩ := ih (by rwa [hmiddle.length_eq])
    exact ⟨after, by rw [enterAll, henter]; exact hall, hmiddle.trans hafter⟩

/-- The first constituent without a row is reported. -/
theorem enterAll_of_length_le (hbefore : ∀ d ∈ before, d.start < rows.length)
    (hc : rows.length ≤ c.start) (behind : List Constituent) :
    enterAll rows (before ++ c :: behind) = .error ⟨rows.length, c.start⟩ := by
  induction before generalizing rows with
  | nil => rw [List.nil_append, enterAll, enter_of_length_le hc]; rfl
  | cons d before ih =>
    obtain ⟨hd, hbefore⟩ := List.forall_mem_cons.mp hbefore
    obtain ⟨middle, henter, hmiddle⟩ := exists_enter hd
    rw [← hmiddle.length_eq] at hbefore hc ⊢
    rw [List.cons_append, enterAll, henter]
    exact ih hbefore hc

end Entered

/-! ### The forest -/

/-- The forest has a row for each position of the chart and each of its complete items in them as a
constituent, once.  A row has those that begin there by their ends, and those with one end in the
order of the chart.  It has none twice if no dot stands past the end of its rule. -/
structure Gathers (chart : Chart) (f : Forest) : Prop where
  length_eq : f.length = chart.length
  perm : f.rows.flatten.Perm chart.completed
  ordered : ∀ origin, (f.startingAt origin).Pairwise fun a b => a.stop ≤ b.stop
  ending : ∀ origin k, (f.startingAt origin).filter (·.stop = k) =
    ((chart.sets[k]?.getD []).filter fun item => item.isComplete ∧ item.origin = origin).map
      fun item => ⟨origin, k, item.rule⟩
  nodup : (∀ items ∈ chart.sets, ∀ item ∈ items, item.dot ≤ item.rule.rhs.length) →
    ∀ origin, (f.startingAt origin).Nodup

section Gathers

variable {chart : Chart} {words : List String}

theorem map_origin_stray? (chart : Chart) :
    (stray? chart).map Item.origin =
      (chart.completed.find? fun c => chart.length ≤ c.start).map Constituent.start :=
  (Chart.find?_completedFrom chart.length 0 chart.sets).symm

theorem startingAt_ofChart_of_lt (h : ∀ c ∈ chart.completed, c.start < chart.length)
    (words : List String) (origin : Nat) :
    (ofChart chart words).startingAt origin = chart.completed.filter (·.start = origin) := by
  rw [startingAt_ofChart, ← row_eq_filter]
  split
  · rfl
  · next hge =>
    rw [row_eq_filter, eq_comm, List.filter_eq_nil_iff]
    intro c hc
    have := h c hc
    rw [decide_eq_true_iff]
    omega

/-- Rows that were empty become those of the forest. -/
theorem Entered.eq_rows {after : List (List Constituent)}
    (h : Entered (List.replicate chart.length []) chart.completed after) (words : List String) :
    after = (ofChart chart words).rows := by
  refine List.ext_getElem? fun i => ?_
  rw [h.rows_eq, ofChart, List.getElem?_map]
  by_cases hi : i < chart.length
  · rw [List.getElem?_replicate_of_lt hi, List.getElem?_range hi, Option.map_some, Option.map_some,
      row_eq_filter, List.nil_append]
  · rw [List.getElem?_eq_none (by simpa using hi), List.getElem?_eq_none (by simpa using hi)]
    rfl

/-- If all complete items begin in the chart, they can be entered, and make the rows of its
forest. -/
theorem enterAll_completed (h : ∀ c ∈ chart.completed, c.start < chart.length)
    (words : List String) :
    enterAll (List.replicate chart.length []) chart.completed = .ok (ofChart chart words).rows ∧
      Entered (List.replicate chart.length []) chart.completed (ofChart chart words).rows := by
  obtain ⟨rows, hall, hrows⟩ := @exists_enterAll (List.replicate chart.length []) chart.completed
    (by simpa using h)
  rw [← hrows.eq_rows words]
  exact ⟨hall, hrows⟩

/-- The forest is what entering the complete items one after another gives. -/
theorem ofChart?_eq_enterAll (chart : Chart) (words : List String) :
    ofChart? chart words =
      (enterAll (List.replicate chart.length []) chart.completed).map (⟨·, words⟩) := by
  have hlength : (List.replicate chart.length ([] : List Constituent)).length = chart.length :=
    List.length_replicate
  have hstray := map_origin_stray? chart
  unfold ofChart?
  -- The first item that begins outside is looked for among all items of the chart, the first
  -- constituent without a row is met on the way.
  cases hfind : chart.completed.find? fun c => chart.length ≤ c.start with
  | none =>
    rw [hfind] at hstray
    have hall := (enterAll_completed (by simpa using hfind) words).1
    rw [Option.map_eq_none_iff.mp hstray, hall]
    rfl
  | some c =>
    rw [hfind] at hstray
    obtain ⟨item, hitem, horigin⟩ := Option.map_eq_some_iff.mp hstray
    obtain ⟨hc, before, behind, hcompleted, hbefore⟩ := List.find?_eq_some_iff_append.mp hfind
    rw [← hlength] at hbefore hc
    rw [hitem, hcompleted, enterAll_of_length_le (by simpa using hbefore) (by simpa using hc),
      hlength]
    dsimp only
    rw [horigin]
    rfl

theorem gathers_ofChart (h : ∀ c ∈ chart.completed, c.start < chart.length)
    (words : List String) : Gathers chart (ofChart chart words) := by
  have hrow := startingAt_ofChart_of_lt h words
  refine ⟨by simp [Forest.length, ofChart], ?_, fun origin => ?_, fun origin k => ?_,
    fun hdot origin => ?_⟩
  · simpa using (enterAll_completed h words).2.perm
  · rw [hrow]
    exact (Chart.ordered_completedFrom 0 chart.sets).filter _
  · have hstop := Chart.filter_stop_completedFrom 0 k chart.sets
    rw [Nat.zero_add] at hstop
    rw [hrow, List.filter_comm, Chart.completed, hstop, filter_start_map]
  · rw [startingAt_ofChart]
    split
    · exact nodup_row hdot origin
    · exact List.nodup_nil

theorem mem_completed {c : Constituent} : c ∈ chart.completed ↔ chart.Completes c := by
  have hrow := @mem_row chart c c.start
  rwa [row_eq_filter, List.mem_filter, decide_eq_true_iff, and_iff_left rfl,
    and_iff_right rfl] at hrow

theorem ofChart?_of_lt (h : ∀ c ∈ chart.completed, c.start < chart.length)
    (words : List String) : ofChart? chart words = .ok (ofChart chart words) := by
  rw [ofChart?_eq_enterAll, (enterAll_completed h words).1]
  rfl

theorem ofChart?_of_stray {c : Constituent} {before behind : List Constituent}
    (hcompleted : chart.completed = before ++ c :: behind)
    (hbefore : ∀ d ∈ before, d.start < chart.length) (hc : chart.length ≤ c.start)
    (words : List String) : ofChart? chart words = .error ⟨chart.length, c.start⟩ := by
  rw [ofChart?_eq_enterAll, hcompleted,
    enterAll_of_length_le (by simpa using hbefore) (by simpa using hc), List.length_replicate]
  rfl

/-- Either every complete item begins in the chart, or there is a first one that does not. -/
theorem forall_lt_or_exists_stray (chart : Chart) :
    (∀ c ∈ chart.completed, c.start < chart.length) ∨
      ∃ before c behind, chart.completed = before ++ c :: behind ∧
        (∀ d ∈ before, d.start < chart.length) ∧ chart.length ≤ c.start := by
  cases hfind : chart.completed.find? fun c => chart.length ≤ c.start with
  | none => exact .inl (by simpa using hfind)
  | some c =>
    obtain ⟨hc, before, behind, hcompleted, hbefore⟩ := List.find?_eq_some_iff_append.mp hfind
    exact .inr ⟨before, c, behind, hcompleted, by simpa using hbefore, by simpa using hc⟩

theorem ofChart?_eq_error {error : OutOfRange} : ofChart? chart words = .error error ↔
    ∃ before c behind, chart.completed = before ++ c :: behind ∧
      (∀ d ∈ before, d.start < chart.length) ∧ chart.length ≤ c.start ∧
      error = ⟨chart.length, c.start⟩ := by
  constructor
  · intro herror
    rcases forall_lt_or_exists_stray chart with h | ⟨before, c, behind, hcompleted, hbefore, hc⟩
    · simp [ofChart?_of_lt h] at herror
    · rw [ofChart?_of_stray hcompleted hbefore hc] at herror
      exact ⟨before, c, behind, hcompleted, hbefore, hc, (Except.error.inj herror).symm⟩
  · rintro ⟨before, c, behind, hcompleted, hbefore, hc, rfl⟩
    exact ofChart?_of_stray hcompleted hbefore hc words

theorem ofChart?_eq_ok {f : Forest} : ofChart? chart words = .ok f ↔
    (∀ c ∈ chart.completed, c.start < chart.length) ∧ f = ofChart chart words := by
  constructor
  · intro hok
    rcases forall_lt_or_exists_stray chart with h | ⟨before, c, behind, hcompleted, hbefore, hc⟩
    · rw [ofChart?_of_lt h] at hok
      exact ⟨h, (Except.ok.inj hok).symm⟩
    · simp [ofChart?_of_stray hcompleted hbefore hc] at hok
  · rintro ⟨h, rfl⟩
    exact ofChart?_of_lt h words

/-- The complete items of a chart begin in it when those do that were added to it. -/
theorem forall_completed_replay {n : Nat} {history : List Chart.Addition} :
    (∀ c ∈ (Chart.replay n history).completed, c.start < n) ↔
      ∀ addition ∈ history, addition.position < n → addition.item.isComplete →
        addition.item.origin < n := by
  constructor
  · rintro h ⟨k, item⟩ hmem hk hcomplete
    obtain ⟨items, hset, hitem⟩ := Chart.exists_mem_replay_iff.mpr ⟨hk, hmem⟩
    exact h ⟨item.origin, k, item.rule⟩
      (mem_completed.mpr ⟨items, hset, item, hitem, hcomplete, rfl, rfl⟩)
  · intro h c hc
    obtain ⟨items, hset, item, hitem, hcomplete, horigin, -⟩ := mem_completed.mp hc
    obtain ⟨hk, hmem⟩ := Chart.exists_mem_replay_iff.mp ⟨items, hset, hitem⟩
    exact horigin ▸ h _ hmem hk hcomplete

end Gathers

/-- After any additions to a chart, a position has the items that were added there, each once, in
the order of their first additions.  An addition outside the chart is refused and changes nothing.
The forest of the chart is made by entering the complete items one after another, and gathers them
all.  There is one unless a complete item begins outside the chart, and the first such item is
reported. -/
theorem gathers_replay (n : Nat) (history : List Chart.Addition) (words : List String) :
    (∀ k < n, ∃ items, (Chart.replay n history).sets[k]? = some items ∧
      Table.FirstAppearances (Chart.addedAt k history) items) ∧
    (Chart.replay n history).length = n ∧
    (∀ k item,
      (k < n →
        (Chart.replay n history).add k item = .ok (Chart.replay n (history ++ [⟨k, item⟩]))) ∧
      (n ≤ k → (Chart.replay n history).add k item = .error ⟨n, k⟩ ∧
        Chart.replay n (history ++ [⟨k, item⟩]) = Chart.replay n history)) ∧
    ofChart? (Chart.replay n history) words =
      (enterAll (List.replicate n []) (Chart.replay n history).completed).map (⟨·, words⟩) ∧
    ((∃ f, ofChart? (Chart.replay n history) words = .ok f) ↔
      ∀ addition ∈ history, addition.position < n → addition.item.isComplete →
        addition.item.origin < n) ∧
    (∀ f, ofChart? (Chart.replay n history) words = .ok f →
      f.words = words ∧ Gathers (Chart.replay n history) f) ∧
    ∀ error, ofChart? (Chart.replay n history) words = .error error ↔
      ∃ before c behind, (Chart.replay n history).completed = before ++ c :: behind ∧
        (∀ d ∈ before, d.start < n) ∧ n ≤ c.start ∧ error = ⟨n, c.start⟩ := by
  have hlength := Chart.length_replay n history
  refine ⟨fun k hk => Chart.firstAppearances_replay hk history, hlength,
    fun k item => ⟨fun hk => ?_, fun hk => ?_⟩, ?_, ?_, fun f hf => ?_, fun error => ?_⟩
  · rw [Chart.replay_concat, Chart.attempt_of_lt (by rwa [hlength])]
    exact Chart.add_eq_put (by rwa [← Chart.length, hlength]) item
  · rw [Chart.replay_concat, Chart.attempt_of_length_le (by rwa [hlength]),
      Chart.add_eq_error (by rwa [hlength]), hlength]
    exact ⟨rfl, rfl⟩
  · rw [ofChart?_eq_enterAll, hlength]
  · simp only [ofChart?_eq_ok, hlength, forall_completed_replay, exists_and_left, exists_eq,
      and_true]
  · obtain ⟨hstarts, rfl⟩ := ofChart?_eq_ok.mp hf
    exact ⟨rfl, gathers_ofChart hstarts words⟩
  · rw [ofChart?_eq_error, hlength]

/-- A rule for one word. -/
def single : Rule := ⟨"S", [.terminal "x"]⟩

/-- A rule for two parts. -/
def double : Rule := ⟨"S", [.nonterminal "S", .nonterminal "S"]⟩

/-- Additions to three positions by turns, one of them made twice and one outside the chart, with
an item that runs backwards and one that waits. -/
def mixed : List Chart.Addition :=
  [⟨2, 0, 2, double⟩, ⟨1, 0, 1, single⟩, ⟨2, 1, 1, single⟩, ⟨3, 0, 1, single⟩, ⟨2, 0, 2, double⟩,
    ⟨0, 1, 1, single⟩, ⟨2, 1, 1, double⟩, ⟨2, 0, 1, single⟩]

theorem gathers_replay_mixed :
    (Chart.replay 3 mixed).sets = [[⟨1, 1, single⟩], [⟨0, 1, single⟩],
      [⟨0, 2, double⟩, ⟨1, 1, single⟩, ⟨1, 1, double⟩, ⟨0, 1, single⟩]] ∧
    Table.FirstAppearances (Chart.addedAt 2 mixed)
      [⟨0, 2, double⟩, ⟨1, 1, single⟩, ⟨1, 1, double⟩, ⟨0, 1, single⟩] ∧
    (Chart.replay 3 mixed).add 3 ⟨0, 1, single⟩ = .error ⟨3, 3⟩ ∧
    (∃ f, ofChart? (Chart.replay 3 mixed) ["x", "x"] = .ok f ∧
      f.rows = [[⟨0, 1, single⟩, ⟨0, 2, double⟩, ⟨0, 2, single⟩],
        [⟨1, 0, single⟩, ⟨1, 2, single⟩], []] ∧
      Gathers (Chart.replay 3 mixed) f ∧ ∀ origin, (f.startingAt origin).Nodup) ∧
    ofChart? (Chart.replay 2 mixed) ["x"] = .ok ⟨[[⟨0, 1, single⟩], [⟨1, 0, single⟩]], ["x"]⟩ ∧
    ofChart? (Chart.replay 1 mixed) [] = .error ⟨1, 1⟩ := by
  obtain ⟨hfirst, -, hadd, -, hok, hgathers, -⟩ := gathers_replay 3 mixed ["x", "x"]
  obtain ⟨-, -, -, -, -, -, herror⟩ := gathers_replay 1 mixed []
  have hsets : (Chart.replay 3 mixed).sets = [[⟨1, 1, single⟩], [⟨0, 1, single⟩],
      [⟨0, 2, double⟩, ⟨1, 1, single⟩, ⟨1, 1, double⟩, ⟨0, 1, single⟩]] := by decide +kernel
  obtain ⟨items, hset, hitems⟩ := hfirst 2 (by decide)
  obtain ⟨f, hf⟩ := hok.mpr (by decide +kernel)
  obtain ⟨-, hgather⟩ := hgathers f hf
  refine ⟨hsets, ?_, ((hadd 3 _).2 (by decide)).1, ⟨f, hf, ?_, hgather, hgather.nodup ?_⟩,
    by decide +kernel, (herror _).mpr ⟨[], ⟨1, 0, single⟩, [], by decide +kernel, by simp, ?_⟩⟩
  · rw [hsets] at hset
    exact Option.some.inj hset ▸ hitems
  · obtain ⟨-, rfl⟩ := ofChart?_eq_ok.mp hf
    decide +kernel
  · rw [hsets]
    decide
  · decide

end Forest

end PhraseStructure
