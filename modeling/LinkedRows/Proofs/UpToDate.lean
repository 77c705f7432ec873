/-
# Records that are up to date

Reading keeps a forest in line with its database (`Tracks`) when the connector reports the rows of
the database (`Reports`), and so do growing and assigning, but for assigning the key of a record
that has a row.  So a run tracks its database exactly if, whenever it moves a record, the row under
the new key holds what was read under the old one (`Record.up_to_date_throughout`); otherwise what
was read of the old row is shown for the new one.
-/

import LinkedRows.Proofs.Flushing
import LinkedRows.Proofs.Following
import LinkedRows.Proofs.Forest.Tracking
import LinkedRows.Proofs.SelectionText

namespace LinkedRows

/-- From a store of some kind on, a connector answers selections with the rows of the database, and
with none for a null key, unless it refuses. -/
structure Reports {σ : Type} (c : Connector σ) (db : Database) (still : σ → Prop) : Prop where
  rests {s table columns key p} : still s →
    (Statement.select table columns key).prepare c.dialect = .ok p → still (c.query p s).2
  rows {s table columns key p rows} : still s → columns ≠ [] →
    (Statement.select table columns key).prepare c.dialect = .ok p →
      (c.query p s).1 = .ok rows →
        rows = if key.value = .null then [] else db.rows table columns key

/-- Rows by text are reported, if there is none for the literal of null. -/
theorem reports_ofRows {dialect : Dialect} {rows : RowsByText}
    (hnull : ∀ table keyName, rows table keyName "NULL" = none) :
    Reports (Connector.ofRows dialect rows) (Database.ofRows dialect rows) fun _ => True where
  rests _ _ := trivial
  rows {s table columns key p answer} _ hcolumns hp hanswer := by
    cases hliteral : dialect.literal key.value with
    | error e =>
      change Except.map _ (Statement.text dialect _) = _ at hp
      rw [Statement.text, Statement.equation, hliteral] at hp
      cases hp
    | ok literal =>
      obtain ⟨text, htext, hread⟩ := readSelection_text table hcolumns hliteral
      change Except.map _ (Statement.text dialect _) = _ at hp
      rw [htext] at hp
      obtain rfl := Except.ok.inj hp
      obtain rfl := Except.ok.inj hanswer
      simp only [hread, Database.rows, Database.ofRows, hliteral]
      split
      · rename_i hkey
        have hnullText : literal = "NULL" := by
          rw [hkey] at hliteral
          cases dialect <;> exact (Except.ok.inj hliteral).symm
        rw [hnullText, hnull]
        rfl
      · rfl

open Forest

variable {σ : Type} {c : Connector σ} {db : Database} {still : σ → Prop} {w v : World σ Forest}
  {n : NodeId}

/-- A selection of columns of a record results in one row with what storage holds for them, or in
none if there is no row. -/
theorem Forest.rows_cases {f : Forest} (hf : WellFormed f) {cells : List CellId}
    (hcells : ∀ d ∈ cells, d ∈ (f.node n).cells ∧ (f.cell d).isKey = false) {rows : List Row}
    (hrows : rows = if (f.rowKey n).value = .null then []
      else db.rows (f.node n).table (cells.map fun d => (f.cell d).name) (f.rowKey n)) :
    (¬f.RowFound db (fun _ => f.keyValue n) n ∧ rows = []) ∨
      ∃ names, rows = [⟨names, cells.map (f.truth db fun _ => f.keyValue n)⟩] := by
  subst hrows
  by_cases hkey : f.keyValue n = .null
  · rw [rowKey, if_pos hkey]
    exact Or.inl ⟨fun hrow => hrow.1 hkey, rfl⟩
  rw [rowKey, if_neg hkey]
  cases hrow : db.row? (f.node n).table ⟨f.keyName n, f.keyValue n⟩ with
  | none => exact Or.inl ⟨fun hfound => hfound.2 hrow, db.rows_of_no_row hrow⟩
  | some row =>
    have hvalues : (cells.map fun d => (f.cell d).name).map row =
        cells.map (f.truth db fun _ => f.keyValue n) := by
      refine map_truth_of_row hf hcells ?_ hrow
      exact hkey
    rw [db.rows_of_row hrow, hvalues]
    exact Or.inr ⟨_, rfl⟩

/-- Reading columns that are not assigned loads them, and if it goes well, they hold what the row of
the record holds. -/
theorem readCells_loads (hreports : Reports c db still) (hstill : still w.store)
    (hw : Tracks db w.state) {cells : List CellId} (hcells : ∀ d ∈ cells,
      d ∈ (w.state.node n).cells ∧ (w.state.cell d).isKey = false ∧
        (w.state.cell d).isDirty = false) :
    (readCells c n cells).Ensures w fun result v => still v.store ∧
      Loads db n cells w.state v.state ∧ (result = .ok () → ∀ d ∈ cells,
        (v.state.cell d).stored = w.state.truth db (fun _ => w.state.keyValue n) d) := by
  unfold Action.Ensures
  by_cases hnil : cells = []
  · subst hnil
    rw [readCells_nil]
    exact ⟨hstill, .refl, fun _ d hd => absurd hd List.not_mem_nil⟩
  cases hp : (w.state.selection n cells).prepare c.dialect with
  | error e =>
    rw [readCells_of_unprepared hnil hp]
    exact ⟨hstill, .refl, nofun⟩
  | ok p =>
    have hrests := hreports.rests hstill hp
    cases hq : (c.query p w.store).1 with
    | error e =>
      rw [readCells_of_refused hnil hp hq]
      exact ⟨hrests, .refl, nofun⟩
    | ok rows =>
      have hwf := hw.toWellFormed
      have hrows := hreports.rows hstill (by simpa using hnil) hp hq
      rw [readCells_of_answered hnil hp hq]
      refine ⟨hrests, ?_⟩
      obtain ⟨habsent, rfl⟩ | ⟨names, rfl⟩ := rows_cases hwf
        (fun d hd => ⟨(hcells d hd).1, (hcells d hd).2.1⟩) hrows
      · -- There is no row, and nothing was read before.
        refine ⟨.refl, fun _ d hd => ?_⟩
        obtain ⟨hmem, hk, hclean⟩ := hcells d hd
        show (w.state.cell d).stored = _
        rw [(hw.read (hasNode_of_mem_cells hmem)).absent habsent hmem hk hclean,
          truth_of_not_rowFound hwf hmem hk habsent]
      · refine ⟨⟨steady_load _ _ fun d hd => (hcells d hd).2.1, fun m => node_load _ _ _ m,
          fun {d} hd => ?_⟩, fun _ d hd => ?_⟩
        · show (w.state.load _ _).cell d = _ ∨ _ ∧ (w.state.load _ _).cell d = _
          rw [cell_load_map _ _ _ hd]
          split
          · rename_i hmem
            exact Or.inr ⟨hmem, rfl⟩
          · exact Or.inl rfl
        · show ((w.state.load _ _).cell d).stored = _
          rw [cell_load_map _ _ _ (hwf.hasCell (hcells d hd).1), if_pos hd]
          rfl

/-- Fetching a record that has a row keeps track of it. -/
theorem fetchNode_tracks (hreports : Reports c db still) (hstill : still w.store)
    (hw : Tracks db w.state) (hn : w.state.HasNode n) (hbound : w.state.isNew n = false) :
    (fetchNode c n).Ensures w fun _ v => still v.store ∧ Tracks db v.state := by
  have hcells : ∀ d ∈ w.state.cleanCells n, d ∈ (w.state.node n).cells ∧
      (w.state.cell d).isKey = false ∧ (w.state.cell d).isDirty = false := fun d hd =>
    mem_cleanCells hw.toWellFormed hbound hd
  have hkeys : ∀ d ∈ w.state.cleanCells n, (w.state.cell d).isKey = false := fun d hd =>
    (hcells d hd).2.1
  have htracks {f : Forest} (hl : Loads db n (w.state.cleanCells n) w.state f) : Tracks db f :=
    hw.loads hl hn fun d hd => ⟨(hcells d hd).1, (hcells d hd).2.1⟩
  rw [fetchNode, Action.Ensures, Action.perform_state_bind]
  refine Action.Ensures.bind (Q := fun _ v => still v.store ∧ Tracks db v.state)
    (readCells_loads hreports hstill hw hcells) ?_ ?_
  · rintro ⟨⟩ v ⟨hstill, hloads, hread⟩
    have hs := hloads.steady
    refine ⟨hstill, (htracks hloads).setCurrent ((hs.shape.hasNode n).2 hn)
      (hs.isNew hw.toWellFormed hn hbound) fun d hmem hk hclean => ?_⟩
    rw [hs.shape.cells] at hmem
    rw [hloads.isDirty (hw.hasCell hmem)] at hclean
    rw [truth_of_sameShape hs.shape, hloads.keyValue hw.toWellFormed hkeys hn]
    refine hread rfl d (List.mem_filter.2 ⟨hmem, ?_⟩)
    rw [hclean]
    rfl
  · rintro e v ⟨hstill, hloads, -⟩
    exact ⟨hstill, htracks hloads⟩

/-- Fetching keeps track of all records. -/
theorem Forest.Tracks.fetches (hw : Tracks db w.state) (hreports : Reports c db still)
    (hstill : still w.store) (h : Fetches c w v) : still v.store ∧ Tracks db v.state := by
  induction h with
  | refl => exact ⟨hstill, hw⟩
  | node _ hn hbound ih =>
    exact fetchNode_tracks hreports ih.1 ih.2 hn (isNew_of_isBound hbound)
  | seed _ he ih => exact ⟨ih.1, ih.2.seedChild he⟩

/-! ## Runs -/

/-- The request leaves alone what the database holds. -/
def Request.leavesRows : Request → Bool
  | .set _ _ => true
  | q => q.isReading

theorem Fetches.learns (h : Fetches c w v) (hf : WellFormed w.state) :
    Learns w.state v.state := by
  induction h with
  | refl => exact .refl
  | node _ _ hbound ih =>
    exact ih.trans
      (consults_fetchNode c (ih.steady.wellFormed hf) (isNew_of_isBound hbound)).learns
  | seed _ he ih => exact ih.seed he

namespace Record

variable {r : Record} {q : Request} {requests : List Request}

/-- A request that leaves the rows alone makes the forest grow, and then fetches, or assigns a
column. -/
theorem serve_leavesRows (hf : WellFormed w.state) (hr : w.state.HasNode r.root)
    (hq : q.leavesRows = true) : ∃ u, Grown w u ∧ (Fetches c u (r.serve c w q) ∨
      ∃ path x d, q = .set path x ∧ (r.resolve path).perform w = (.ok d, u) ∧
        u.state.HasCell d ∧ r.serve c w q = u.withState (u.state.assign d x)) := by
  cases hreading : q.isReading with
  | true =>
    obtain ⟨u, hgrown, hfetches⟩ := fetches_serve (c := c) hf hr hreading
    exact ⟨u, hgrown, Or.inl hfetches⟩
  | false =>
    cases q with
    | set path x =>
      obtain ⟨hgrown, -⟩ := resolve_spec hf hr path
      rcases hresolve : (r.resolve path).perform w with ⟨e | d, u⟩ <;> rw [hresolve] at hgrown
      · exact ⟨u, hgrown, Or.inl (serve_set_error (c := c) hresolve ▸ .refl)⟩
      · have hd := (hasCell_of_resolve hf hr hresolve).2
        exact ⟨u, hgrown, Or.inr ⟨path, x, d, rfl, hresolve, hd, serve_set_ok hresolve⟩⟩
    | _ => exact absurd (hreading.symm.trans hq) Bool.false_ne_true

/-- Nothing is deleted by requests that leave the rows alone. -/
theorem intact_serve (hf : Intact w.state) (hr : w.state.HasNode r.root)
    (hq : q.leavesRows = true) :
    Intact (r.serve c w q).state ∧ (r.serve c w q).state.HasNode r.root := by
  obtain ⟨u, hgrown, hfetches | ⟨path, x, d, -, -, -, hserve⟩⟩ :=
    serve_leavesRows (c := c) hf.toWellFormed hr hq
  · have hu := hf.grows hgrown.grows
    exact ⟨hu.steady (hfetches.learns hu.toWellFormed).steady,
      (consistent_serve hf.consistent hr q).2⟩
  · rw [hserve]
    have hu := hf.grows hgrown.grows
    refine ⟨hu.assign d x, ((sameShape_assign u.state d x).hasNode _).2 ?_⟩
    exact (hgrown.grows.extends hf.toWellFormed).hasNode hr

theorem intact_after (hrows : ∀ q ∈ requests, q.leavesRows = true) (hf : Intact w.state)
    (hr : w.state.HasNode r.root) :
    Intact (r.after c requests w).state ∧ (r.after c requests w).state.HasNode r.root := by
  have hany : r.AtSets c (fun _ _ _ => True) requests w := fun _ _ _ _ _ _ _ => trivial
  let I (v : World σ Forest) : Prop := Intact v.state ∧ v.state.HasNode r.root
  exact hany.carries (I := I) (fun q hq hv _ => intact_serve hv.1 hv.2 (hrows q hq)) ⟨hf, hr⟩

/-- Requests that leave the rows alone keep track of them, as long as they move no record that was
read to a row that does not hold what was read. -/
theorem tracks_after (hreports : Reports c db still)
    (hrows : ∀ q ∈ requests, q.leavesRows = true) (hstill : still w.store)
    (hw : Tracks db w.state) (hr : w.state.HasNode r.root)
    (h : r.AtSets c (MovesAlike db) requests w) :
    still (r.after c requests w).store ∧ Tracks db (r.after c requests w).state := by
  let I (v : World σ Forest) : Prop :=
    (still v.store ∧ Tracks db v.state) ∧ v.state.HasNode r.root
  have hI : I (r.after c requests w) := by
    refine h.carries (I := I) (fun {v} q hq hv hset => ?_) ⟨⟨hstill, hw⟩, hr⟩
    obtain ⟨⟨hstill, hv⟩, hr⟩ := hv
    refine ⟨?_, (intact_serve hv.toIntact hr (hrows q hq)).2⟩
    obtain ⟨u, hgrown, hfetches | ⟨path, x, d, rfl, hresolve, hd, hserve⟩⟩ :=
      serve_leavesRows (c := c) hv.toWellFormed hr (hrows q hq)
    · rw [← hgrown.store] at hstill
      exact (hv.grows hgrown.grows).fetches hreports hstill hfetches
    · rw [← hgrown.store] at hstill
      rw [hserve]
      exact ⟨hstill, ((hv.grows hgrown.grows).assign_iff hd x).2 (hset.of_set hresolve)⟩
  exact hI.1

/-- **Current records are up to date as long as no record that was read is moved to a row that does
not hold what was read.**  A record is opened and serves requests to register, read, fetch and
assign, and the database does not change; its connector may refuse any query.  What was read fits
the database after each request exactly if it does whenever a run assigns the key of a record that
has one, and then all records are up to date.  If they are, such a record that is current has been
moved only to a row that holds what was read. -/
theorem up_to_date_throughout (hreports : Reports c db still) {store : σ} (hstill : still store)
    (table : String) (keyName : Option String) (key : Option Value) (options : Options)
    (requests : List Request) (hrows : ∀ q ∈ requests, q.leavesRows = true) :
    let r := (create table keyName key options).1
    let w : World σ Forest := ⟨store, [], (create table keyName key options).2⟩
    ((∀ served, served <+: requests → Tracks db (r.after c served w).state) ↔
        r.AtSets c (MovesAlike db) requests w) ∧
      (r.AtSets c (MovesAlike db) requests w →
        ∀ served, served <+: requests → UpToDate db (r.after c served w).state) ∧
      ((∀ served, served <+: requests → UpToDate db (r.after c served w).state) →
        r.AtSets c (fun f d v => (f.node (f.cell d).owner).current = true → f.MovesAlike db d v)
          requests w) := by
  intro r w
  have hw : Tracks db w.state := Tracks.addRoot_empty _ _ _
  have hr : w.state.HasNode r.root := Nat.zero_lt_one
  have hserved {served : List Request} (h : served <+: requests) :
      ∀ q ∈ served, q.leavesRows = true := fun q hq => hrows q (h.subset hq)
  have htracks (hmoves : r.AtSets c (MovesAlike db) requests w) (served : List Request)
      (h : served <+: requests) : Tracks db (r.after c served w).state :=
    (tracks_after (w := w) hreports (hserved h) hstill hw hr (hmoves.of_prefix h)).2
  -- What a run has come to when it assigns a column.
  have hbefore {served : List Request} {path : String} {x : Value} {d : CellId}
      {u : World σ Forest} (h : served ++ [.set path x] <+: requests)
      (hresolve : (r.resolve path).perform (r.after c served w) = (.ok d, u)) :
      Intact (r.after c served w).state ∧ Grown (r.after c served w) u ∧ u.state.HasCell d := by
    obtain ⟨hf, hr⟩ := intact_after (w := w) (c := c)
      (hserved ((List.prefix_append served _).trans h)) hw.toIntact hr
    exact ⟨hf, hasCell_of_resolve hf.toWellFormed hr hresolve⟩
  refine ⟨⟨fun hall served path x h d u hresolve => ?_, htracks⟩,
    fun hmoves served h => (htracks hmoves served h).upToDate,
    fun hall served path x h d u hresolve hcurrent hk _ => ?_⟩
  · obtain ⟨-, hgrown, hd⟩ := hbefore h hresolve
    have hold := hall served ((List.prefix_append served _).trans h)
    have hnew := hall _ h
    rw [after_set hresolve] at hnew
    exact ((hold.grows hgrown.grows).assign_iff hd x).1 hnew
  · obtain ⟨hf, hgrown, hd⟩ := hbefore h hresolve
    have hnew := hall _ h
    rw [after_set hresolve] at hnew
    exact readFrom_of_upToDate (hf.grows hgrown.grows) hd hk hcurrent hnew

/-! ## A record that is moved before it is read, and one that is moved after -/

/-- Two rows, each with a title and a link to a row with a title. -/
def titles : RowsByText
  | "table0", "id", "1" =>
    some fun column => if column = "table1_id" then .int 7 else .text "First"
  | "table0", "id", "2" =>
    some fun column => if column = "table1_id" then .int 8 else .text "Second"
  | "table1", "id", "7" => some fun _ => .text "Seventh"
  | "table1", "id", "8" => some fun _ => .text "Eighth"
  | _, _, _ => none

theorem reports_titles : Reports (Connector.ofRows .sqlite titles)
    (Database.ofRows .sqlite titles) fun _ => True := by
  refine reports_ofRows fun table keyName => ?_
  unfold titles
  split <;> simp_all

/-- The record is moved, read, and linked to another row. -/
def relinked : List Request :=
  [.register "table1.title", .set "id" (.int 2), .get "table1.title", .set "table1_id" (.int 7),
    .get "table1.title"]

theorem up_to_date_throughout_relinked :
    let opened := create "table0" none (some (.int 1)) .standard
    let c := Connector.ofRows .sqlite titles
    let w : World Unit Forest := ⟨(), [], opened.2⟩
    (∀ served, served <+: relinked →
        UpToDate (Database.ofRows .sqlite titles) (opened.1.after c served w).state) ∧
      ((opened.1.get c "table1.title").perform (opened.1.after c relinked w)).1 =
        .ok (.text "Seventh") := by
  intro opened c w
  refine ⟨(up_to_date_throughout reports_titles trivial "table0" none (some (.int 1)) .standard
    relinked (by decide)).2.1 ?_, by decide +kernel⟩
  have hresolved {path : String} {v u : World Unit Forest} {d : CellId} {P : Forest → CellId → Prop}
      (hperform : (opened.1.resolve path).perform v = (.ok d, u))
      (h : ∀ d' ∈ ((opened.1.resolve path).perform v).1.toOption,
        P ((opened.1.resolve path).perform v).2.state d') : P u.state d := by
    rw [hperform] at h
    exact h d rfl
  refine .cons nofun (.cons ?_ (.cons nofun (.cons ?_ (.cons nofun .nil))))
  · -- Nothing was read of the record that is moved.
    intro path x hset d u hperform _ _
    obtain ⟨rfl, -⟩ := Request.set.inj hset
    have hcurrent : (u.state.node (u.state.cell d).owner).current = false :=
      hresolved (P := fun f d => (f.node (f.cell d).owner).current = false) hperform
        (by decide +kernel)
    have hstored : ∀ e ∈ (u.state.node (u.state.cell d).owner).cells,
        (u.state.cell e).isKey = false → (u.state.cell e).stored = .null :=
      hresolved (P := fun f d => ∀ e ∈ (f.node (f.cell d).owner).cells,
        (f.cell e).isKey = false → (f.cell e).stored = .null) hperform (by decide +kernel)
    exact readFrom_of_unread hcurrent hstored _
  · -- The link is no key.
    intro path x hset d u hperform hk
    obtain ⟨rfl, -⟩ := Request.set.inj hset
    have hcolumn : (u.state.cell d).isKey = false :=
      hresolved (P := fun f d => (f.cell d).isKey = false) hperform (by decide +kernel)
    rw [hcolumn] at hk
    exact absurd hk Bool.false_ne_true

/-- After its title was read, the record is moved to another row. -/
def movedLate : List Request := [.register "title", .get "title", .set "id" (.int 2)]

/-- The old title is still shown, though the other row holds another one. -/
theorem set_key_keeps_title :
    let opened := create "table0" none (some (.int 1)) .standard
    let c := Connector.ofRows .sqlite titles
    let w : World Unit Forest := ⟨(), [], opened.2⟩
    ¬UpToDate (Database.ofRows .sqlite titles) (opened.1.after c movedLate w).state ∧
      ((opened.1.get c "title").perform (opened.1.after c movedLate w)).1 =
        .ok (.text "First") := by
  intro opened c w
  refine ⟨fun h => ?_, by decide +kernel⟩
  have htitle := h ⟨0⟩ (by decide +kernel) (by decide +kernel) (by decide +kernel) ⟨1⟩
    (by decide +kernel) (by decide +kernel)
  exact absurd htitle (by decide +kernel)

end Record
end LinkedRows
