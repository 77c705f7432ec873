/-
# The row that a fetch shows

A fetch that succeeds marks every record that it comes to as current.  The columns that it has
selected there hold what the first row of the answer holds for them; where the answer has no row
they keep what they held before, and the record is marked as current all the same.

So a record shows what was read of it, with null where there is no row, exactly if its columns were
null before whenever there is none (`fetch_shows_rows_iff`).  A row that was read and is gone since
is still shown (`fetch_keeps_missing_title`).
-/

import LinkedRows.Proofs.OnlyReads
import LinkedRows.Proofs.UpToDate

namespace LinkedRows

open Forest

variable {σ : Type} {c : Connector σ} {w v : World σ Forest} {n m : NodeId} {d : CellId}

namespace Answer

variable {f : Forest} {a : Answer}

/-- Each column that was selected holds what the first row holds for it, and null without a row. -/
def Shows (f : Forest) (a : Answer) : Prop :=
  ∀ i d, (f.cleanCells a.node)[i]? = some d → (f.cell d).value = (a.value? i).getD .null

/-- The rows hold one value for each column that was selected. -/
def Full (f : Forest) (a : Answer) : Prop :=
  ∀ row ∈ a.rows, row.values.length = (f.cleanCells a.node).length

/-- A first row holds a value for each column that was selected. -/
theorem Full.exists_value (h : a.Full f) (hrows : a.rows ≠ []) {i : Nat}
    (hd : (f.cleanCells a.node)[i]? = some d) : ∃ x, a.value? i = some x := by
  obtain ⟨row, rest, hrow⟩ := List.exists_cons_of_ne_nil hrows
  have hlength := h row (hrow ▸ List.mem_cons_self ..)
  have hi := (List.getElem?_eq_some_iff.1 hd).1
  refine ⟨row.values[i], ?_⟩
  rw [value?, hrow, List.head?_cons, Option.bind_some, Row.get?, List.getElem?_eq_getElem]

/-- What was read is shown if there was a row, and else if nothing was known before. -/
theorem shows_iff {old : CellId → Value} (hfull : a.Full f)
    (hvalue : ∀ i d, (f.cleanCells a.node)[i]? = some d →
      (f.cell d).value = (a.value? i).getD (old d)) :
    a.Shows f ↔ (a.rows = [] → ∀ d ∈ f.cleanCells a.node, old d = .null) := by
  by_cases hrows : a.rows = []
  · have hnone (i : Nat) : a.value? i = none := by rw [value?, hrows]; rfl
    constructor
    · intro hshows _ d hd
      obtain ⟨i, hi⟩ := List.getElem?_of_mem hd
      have h := hshows i d hi
      rwa [hvalue i d hi, hnone] at h
    · intro hnull i d hi
      rw [hvalue i d hi, hnone]
      exact hnull hrows d (List.mem_of_getElem? hi)
  · refine iff_of_true (fun i d hi => ?_) fun h => absurd h hrows
    obtain ⟨x, hx⟩ := hfull.exists_value hrows hi
    rw [hvalue i d hi, hx]
    rfl

end Answer

/-- A record that is not bound refuses to be fetched. -/
theorem isBound_of_fetch (h : (fetch c n).perform w = (.ok (), v)) :
    w.state.isBound n = true := by
  cases hbound : w.state.isBound n with
  | true => rfl
  | false =>
    rw [fetch, Action.perform_state_bind, hbound] at h
    cases h

/-- Every record that a fetch comes to is current afterwards. -/
theorem current_of_fetched (hf : WellFormed w.state) (hn : w.state.HasNode n)
    (hbound : w.state.isBound n = true) (h : (fetchTree c n).perform w = (.ok (), v))
    (hm : m ∈ n :: v.state.boundOrder (w.state.below n)) : (v.state.node m).current = true := by
  obtain ⟨-, -, hcurrent, hleaves⟩ := fetchTree_ok hf hn hbound h
  rcases List.mem_cons.1 hm with rfl | hm
  · exact hcurrent
  · obtain ⟨way, hway, hbounds⟩ := mem_boundOrder_iff.1 hm
    by_contra hnot
    have hstale : v.state.isStale m = true :=
      isStale_iff.2 ⟨hbounds m (by simp), Bool.not_eq_true _ ▸ hnot⟩
    obtain ⟨-, k, hk, hunbound⟩ := (hleaves way m hway).1 hstale
    rw [hbounds k (List.mem_append_left _ hk)] at hunbound
    cases hunbound

/-- A selected column holds what the first row holds for it, or what it held before. -/
theorem Answer.Reads.value {a : Answer} (h : a.Reads c w.state v.state)
    (hlearns : Learns w.state v.state) {i : Nat} (hd : (v.state.cleanCells a.node)[i]? = some d) :
    (v.state.cell d).value = (a.value? i).getD (w.state.cell d).value := by
  have hclean : (v.state.cell d).isDirty = false := by
    simpa using (List.mem_filter.1 (List.mem_of_getElem? hd)).2
  have hbefore : (w.state.cell d).isDirty = false := by
    by_contra hdirty
    rw [hlearns.cell_of_dirty (Bool.not_eq_false _ ▸ hdirty)] at hclean
    exact hdirty hclean
  rw [Cell.value_of_clean hclean, Cell.value_of_clean hbefore, h.stored hd]

/-- **When a fetch shows what it read.**  Of each record that it comes to, which it marks as
current, the columns that it selected hold what the first row holds for them, or what they held
before.  If the rows hold one value for each selected column, that is what was read, with null where
there is no row, exactly if the columns of records without a row were null before. -/
theorem fetch_shows_rows_iff (hw : Operated w.state) (hn : w.state.HasNode n)
    (h : (fetch c n).perform w = (.ok (), v)) :
    ∃ answers : List Answer, v.log = w.log ++ answers.map Answer.exchange ∧
      SelectsClean c (n :: v.state.boundOrder (w.state.below n)) v.state answers ∧
      (∀ a ∈ answers, (v.state.node a.node).current = true ∧
        ∀ i d, (v.state.cleanCells a.node)[i]? = some d →
          (v.state.cell d).value = (a.value? i).getD (w.state.cell d).value) ∧
      ((∀ a ∈ answers, a.Full v.state) →
        ((∀ a ∈ answers, a.Shows v.state) ↔
          ∀ a ∈ answers, a.rows = [] →
            ∀ d ∈ v.state.cleanCells a.node, (w.state.cell d).value = .null)) := by
  have hf := hw.wellFormed
  have hbound := isBound_of_fetch h
  rw [perform_fetch_of_bound hbound] at h
  have hlearns := (readsDown_fetchTree c hf hbound).of_perform h |>.learns
  obtain ⟨answers, hlog, hreads⟩ := fetchTree_answers hf hn hbound h
  have hvalue : ∀ a ∈ answers, ∀ i d, (v.state.cleanCells a.node)[i]? = some d →
      (v.state.cell d).value = (a.value? i).getD (w.state.cell d).value :=
    fun a ha i d hd => (hreads.reads a ha).value hlearns hd
  refine ⟨answers, hlog, ⟨hreads.nodes, fun a ha => (hreads.reads a ha).statement⟩,
    fun a ha => ⟨current_of_fetched hf hn hbound h (hreads.node_mem ha), hvalue a ha⟩, ?_⟩
  exact fun hfull => forall₂_congr fun a ha => Answer.shows_iff (hfull a ha) (hvalue a ha)

/-! ### A row that is gone -/

/-- The queries of a log that were answered, with the rows that came back. -/
def answered (log : List Exchange) : List (Prepared × List Row) :=
  log.filterMap fun
    | .query p (.ok rows) => some (p, rows)
    | _ => none

/-- A record with a title. -/
def titleOnly : Forest :=
  ((registerColumn ⟨0⟩ (.column "title")).perform
    (Forest.empty.addRoot "table0" "id" (.int 1)).2).2

theorem operated_titleOnly : Operated titleOnly :=
  (Operated.empty.addRoot "table0" "id" (.int 1)).registerColumn _ (by decide)

/-- The row is there, and its title is shown. -/
theorem fetch_shows_rows_iff_found :
    let c := Connector.ofRows .sqlite Record.titles
    let w : World Unit Forest := ⟨(), [], titleOnly⟩
    let v := ((fetch c ⟨0⟩).perform w).2
    (v.state.cell ⟨1⟩).value = .text "First" ∧
      ∃ answers : List Answer, v.log = answers.map Answer.exchange ∧
        (∀ a ∈ answers, a.Full v.state) ∧ ∀ a ∈ answers, a.Shows v.state := by
  intro c w v
  have hfetch : (fetch c ⟨0⟩).perform w = (.ok (), v) := Action.perform_eq (by decide +kernel)
  obtain ⟨answers, hlog, hselects, -, hshows⟩ :=
    fetch_shows_rows_iff operated_titleOnly (by decide) hfetch
  have hnodes : answers.map Answer.node = [⟨0⟩] := hselects.nodes.trans (by decide +kernel)
  obtain ⟨a, rfl, hnode⟩ := List.map_eq_singleton_iff.1 hnodes
  have hrows : a.rows = [⟨["title"], [.text "First"]⟩] := by
    have hanswered : (answered v.log).map Prod.snd = [[⟨["title"], [.text "First"]⟩]] := by
      decide +kernel
    rw [hlog] at hanswered
    exact List.singleton_inj.1 hanswered
  have hfull : ∀ a' ∈ [a], a'.Full v.state := List.forall_mem_singleton.2 fun row hrow => by
    rw [hrows, List.mem_singleton] at hrow
    rw [hnode, hrow]
    decide +kernel
  refine ⟨by decide +kernel, [a], hlog, hfull, (hshows hfull).2 ?_⟩
  exact List.forall_mem_singleton.2 fun hempty => absurd (hempty.symm.trans hrows) nofun

/-- After the row is gone a fetch selects the title once more, gets no row, and marks the record as
current with the title that was read before. -/
theorem fetch_keeps_missing_title :
    let w := ((fetch (Connector.ofRows .sqlite Record.titles) ⟨0⟩).perform ⟨(), [], titleOnly⟩).2
    let c := Connector.ofRows .sqlite fun _ _ _ => none
    let v := ((fetch c ⟨0⟩).perform w).2
    (fetch c ⟨0⟩).perform w = (.ok (), v) ∧
      answered (v.log.drop w.log.length) =
        [(⟨"SELECT \"title\" FROM \"table0\" WHERE \"id\" = 1", []⟩, [])] ∧
      (v.state.node ⟨0⟩).current = true ∧ v.state.cleanCells ⟨0⟩ = [⟨1⟩] ∧
      (v.state.cell ⟨1⟩).value = .text "First" :=
  ⟨Action.perform_eq (by decide +kernel), by decide +kernel, by decide +kernel, by decide +kernel,
    by decide +kernel⟩

end LinkedRows
