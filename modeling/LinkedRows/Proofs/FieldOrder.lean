/-
# Fields in any order

A call that saves fields registers and assigns them one after the other.  A link may be assigned
before the join through it is registered or after it, and before or after columns behind it;
whatever the order, the forest is filled with the fields in the end (`Record.assignAll_fills`), and
that tells its tree (`Filled.sameTree`).  So the order does not matter
(`Table.assignAll_in_any_order`).

Keys are left out as targets and as links: a record that is bound to another row has an assigned
key, and what is joined through an assigned column stays as it is then.
-/

import LinkedRows.Proofs.Forest.Filled
import LinkedRows.Proofs.TableRun

namespace LinkedRows

open Forest

/-! ## Fields by their paths -/

namespace Record

variable {σ : Type} {r : Record} {w : World σ Forest} {start : Forest}
  {done : List (Chain × Value)} {path : String} {p : Path} {d : CellId}

/-- The chain of a path to a column, if the path can be read. -/
def chain (r : Record) (path : String) : Chain :=
  match r.columnPath path with
  | .ok p => p.chain
  | .error _ => ⟨[], ""⟩

/-- A field with the chain of its path. -/
def field (r : Record) (x : String × Value) : Chain × Value := (r.chain x.1, x.2)

theorem chain_eq (hp : r.columnPath path = .ok p) : r.chain path = p.chain := by rw [chain, hp]

theorem perform_register (hp : r.columnPath path = .ok p) (w : World σ Forest) :
    (r.register path).perform w = (((registerColumn r.root p).perform w.state).1,
      w.withState ((registerColumn r.root p).perform w.state).2) := by
  rw [register, hp]
  rfl

/-- Registering a path adds what is on the way of its chain. -/
theorem register_adds (hp : r.columnPath path = .ok p) (hf : WellFormed w.state)
    (hn : w.state.HasNode r.root) : ∃ d g, (r.register path).perform w = (.ok d, w.withState g) ∧
      Adds r.root p.chain.records p.chain.columns w.state g ∧
      g.column? r.root p.chain = some d := by
  obtain ⟨hfits, hends⟩ := Path.linksFit_read hp
  have hend := hends.2 rfl
  obtain ⟨d, hd⟩ := exists_registerColumn hfits hend r.root w.state
  have hadds := growColumn_adds hf hfits hend hn
  have hlookup := (registerColumn_spec hf p hn).2 d hd
  have hregister : (registerColumn r.root p).perform w.state =
      (p.growColumn r.root).perform w.state := by rw [registerColumn, if_pos hend]
  rw [hregister] at hd hlookup
  rw [lookupColumn?_eq (hf.grows hadds.grows) hfits hend] at hlookup
  refine ⟨d, _, ?_, hadds, hlookup⟩
  rw [perform_register hp, hregister, hd]

/-- A column that is registered is assigned. -/
theorem perform_set (hp : r.columnPath path = .ok p) (hf : WellFormed w.state)
    (hd : w.state.column? r.root p.chain = some d) (x : Value) :
    (r.set path x).perform w = (.ok (), w.withState (w.state.assign d x)) := by
  obtain ⟨hfits, hends⟩ := Path.linksFit_read hp
  rw [← lookupColumn?_eq hf hfits (hends.2 rfl)] at hd
  have hresolve : (r.resolve path).perform w = (.ok d, w) := by
    rw [resolve, hp, Action.perform_bind_ok (Action.perform_ofExcept _ _),
      Action.perform_state_bind, hd]
    rfl
  rw [set, Action.perform_bind_ok hresolve]
  rfl

/-- **Assigning fields fills a forest with them**, one after the other, if their chains differ and
no key is a link or assigned. -/
theorem assignAll_fills {rest : List (String × Value)}
    (hread : ∀ x ∈ rest, ∃ p, r.columnPath x.1 = .ok p)
    (hf : Filled start r.root (done.map Prod.fst) done w.state)
    (hnodup : ((rest.map r.field ++ done).map Prod.fst).Nodup)
    (hfree : ∀ c ∈ ((rest.map r.field ++ done).map Prod.fst).flatMap Chain.columns,
      keyNameAt (start.keyName r.root) c.joins ≠ c.leaf) :
    ∃ g, (Table.assignAll r rest).perform w = (.ok (), w.withState g) ∧
      Filled start r.root (((rest.map r.field).reverse ++ done).map Prod.fst)
        ((rest.map r.field).reverse ++ done) g := by
  induction rest generalizing done w with
  | nil => exact ⟨w.state, rfl, hf⟩
  | cons x rest ih =>
    obtain ⟨path, value⟩ := x
    obtain ⟨⟨p, hp⟩, hread⟩ := List.forall_mem_cons.1 hread
    obtain ⟨d, g, hregister, hadds, hd⟩ := register_adds hp hf.toWellFormed hf.hasRoot
    have hchain : r.field (path, value) = (p.chain, value) := by rw [field, chain_eq hp]
    rw [List.map_cons, hchain] at hnodup hfree ⊢
    -- What is left and what is done are the same fields in another order.
    have hperm : ((p.chain, value) :: rest.map r.field ++ done).Perm
        (rest.map r.field ++ (p.chain, value) :: done) := List.perm_middle.symm
    have hchains := hperm.map Prod.fst
    have hnodup := hchains.nodup_iff.1 hnodup
    have hfree : ∀ c ∈ ((rest.map r.field ++ (p.chain, value) :: done).map Prod.fst).flatMap
        Chain.columns, keyNameAt (start.keyName r.root) c.joins ≠ c.leaf := fun c hc =>
      hfree c ((hchains.flatMap_right _).mem_iff.2 hc)
    have hnew : Adds r.root ([p.chain].flatMap Chain.records) ([p.chain].flatMap Chain.columns)
        w.state g := by simpa using hadds
    have hregistered : Filled start r.root (((p.chain, value) :: done).map Prod.fst) done g :=
      hf.adds hnew (by simp [hd])
    rw [List.map_append] at hnodup hfree
    have hfirst : ∀ x ∈ done, x.1 ≠ p.chain := fun x hx heq => by
      have hhead := (List.nodup_cons.1 (List.nodup_append.1 hnodup).2.1).1
      exact hhead (List.mem_map.2 ⟨x, hx, heq⟩)
    have hassigned := hregistered.assign (fun c hc => hfree c (by
      rw [List.flatMap_append]
      exact List.mem_append_right _ hc)) (List.mem_cons_self ..) hd hfirst value
    rw [← List.map_append] at hnodup hfree
    obtain ⟨h, hrest, hfilled⟩ :=
      ih (w := w.withState (g.assign d value)) hread hassigned hnodup hfree
    refine ⟨h, ?_, by simpa using hfilled⟩
    rw [Table.assignAll, Action.perform_bind_ok hregister,
      Action.perform_bind_ok (perform_set hp hregistered.toWellFormed hd value)]
    exact hrest

/-- Registering paths that can be read succeeds, and finds the columns of their chains. -/
theorem exists_registerAll {paths : List String}
    (hread : ∀ path ∈ paths, ∃ p, r.columnPath path = .ok p) (hf : WellFormed w.state)
    (hn : w.state.HasNode r.root) :
    ∃ cells g, (r.registerAll paths).perform w = (.ok cells, w.withState g) ∧
      Grows w.state g ∧ cells.map some = (paths.map r.chain).map (g.column? r.root) := by
  induction paths generalizing w with
  | nil => exact ⟨[], w.state, rfl, .refl, rfl⟩
  | cons path paths ih =>
    obtain ⟨⟨p, hp⟩, hread⟩ := List.forall_mem_cons.1 hread
    obtain ⟨d, g, hregister, hadds, hd⟩ := register_adds hp hf hn
    have hg := hf.grows hadds.grows
    obtain ⟨cells, h, hrest, hgrows, hcells⟩ :=
      ih (w := w.withState g) hread hg ((hadds.grows.extends hf).hasNode hn)
    refine ⟨d :: cells, h, ?_, hadds.grows.trans hgrows, ?_⟩
    · rw [registerAll, Action.perform_bind_ok hregister, Action.perform_bind_ok hrest]
      rfl
    · rw [List.map_cons, List.map_cons, List.map_cons, hcells, chain_eq hp,
        column?_of_extends hg (hg.grows hgrows) (hgrows.extends hg) hd]

/-- The paths lead to different columns, once they are registered, and no key column is one of these
or a link. -/
def Separate (r : Record) (paths : List String) (w : World σ Forest) : Prop :=
  ∀ cells v, (r.registerAll paths).perform w = (.ok cells, v) →
    cells.Nodup ∧ (∀ d ∈ cells, (v.state.cell d).isKey = false) ∧
      ∀ e, v.state.HasEdge e → (v.state.cell (v.state.edge e).link).isKey = false

/-- The chains of such paths differ, and no key is on their way. -/
theorem Separate.chains {paths : List String} (h : r.Separate paths w)
    (hread : ∀ path ∈ paths, ∃ p, r.columnPath path = .ok p) (hf : WellFormed w.state)
    (hn : w.state.HasNode r.root) : (paths.map r.chain).Nodup ∧
      ∀ c ∈ (paths.map r.chain).flatMap Chain.columns,
        keyNameAt (w.state.keyName r.root) c.joins ≠ c.leaf := by
  obtain ⟨cells, g, hperform, hgrows, hcells⟩ := exists_registerAll hread hf hn
  obtain ⟨hnodup, htargets, hlinks⟩ := h cells _ hperform
  have hg := hf.grows hgrows
  have hfound : ∀ c ∈ paths.map r.chain, ∃ d ∈ cells, g.column? r.root c = some d := by
    intro c hc
    have hmem : g.column? r.root c ∈ cells.map some := hcells ▸ List.mem_map_of_mem hc
    obtain ⟨d, hd, heq⟩ := List.mem_map.1 hmem
    exact ⟨d, hd, heq.symm⟩
  have hnot {c : Chain} {d : CellId} (hd : g.column? r.root c = some d)
      (hk : (g.cell d).isKey = false) : keyNameAt (w.state.keyName r.root) c.joins ≠ c.leaf := by
    rw [← (hgrows.extends hf).keyName hf hn]
    intro hname
    exact absurd (((isKey_iff_keyNameAt hg hd).2 hname).symm.trans hk) (by decide)
  refine ⟨?_, fun c hc => ?_⟩
  · have hcolumns := hnodup.map (f := some) fun _ _ h => Option.some.inj h
    rw [hcells] at hcolumns
    exact List.Nodup.of_map _ hcolumns
  · obtain ⟨target, htarget, hc⟩ := List.mem_flatMap.1 hc
    rcases Chain.mem_columns.1 hc with rfl | ⟨label, hle, hleaf⟩
    · obtain ⟨d, hmem, hd⟩ := hfound _ htarget
      exact hnot hd (htargets d hmem)
    · have hrecord : c.joins ++ [label] ∈ (paths.map r.chain).flatMap Chain.records :=
        List.mem_flatMap.2 ⟨target, htarget, Chain.mem_records.2 ⟨hle, by simp⟩⟩
      obtain ⟨m, hm⟩ := exists_walk?_of_records hg
        (fun c hc => (hfound c hc).imp fun _ h => h.2) hrecord
      obtain ⟨e, he, -, hlink⟩ := link_of_walk? hg hm
      rw [hleaf] at hlink
      exact hnot hlink (hlinks e he)

end Record

/-- **The order of the fields does not matter.**  For every table and every key: if the paths of
some fields can be read, lead to different columns, and no key column is one of these or a link on
the way, then assigning the fields to a fresh record, one after the other, succeeds without a call
in every order, and leads to the same tree up to the order of columns and joins. -/
theorem Table.assignAll_in_any_order {σ : Type} (t : Table) (key : Option TableKey) (store : σ)
    (log : List Exchange) {fields fields' : List (String × Value)} (hperm : fields.Perm fields') :
    let opened := Record.create t.name (key.bind (·.name)) (key.map (·.value)) t.options
    let r := opened.1
    let w : World σ Forest := ⟨store, log, opened.2⟩
    (∀ field ∈ fields, ∃ p, r.columnPath field.1 = .ok p) →
    r.Separate (fields.map Prod.fst) w →
    ∃ g g', (assignAll r fields).perform w = (.ok (), w.withState g) ∧
      (assignAll r fields').perform w = (.ok (), w.withState g') ∧ SameTree r.root g g' := by
  intro opened r w hread hseparate
  have hstart : Filled w.state r.root [] [] w.state := Filled.addRoot_empty _ _ _
  obtain ⟨hnodup, hfree⟩ :=
    hseparate.chains (by simpa using hread) hstart.toWellFormed hstart.hasRoot
  have hfills (rest : List (String × Value)) (hrest : fields.Perm rest) :
      ∃ g, (assignAll r rest).perform w = (.ok (), w.withState g) ∧
        Filled w.state r.root (((rest.map r.field).reverse ++ []).map Prod.fst)
          ((rest.map r.field).reverse ++ []) g := by
    have hchains : ((fields.map Prod.fst).map r.chain).Perm
        ((rest.map r.field ++ []).map Prod.fst) := by
      rw [List.append_nil, List.map_map, List.map_map]
      exact hrest.map fun x => r.chain x.1
    refine Record.assignAll_fills (fun x hx => hread x (hrest.mem_iff.2 hx)) hstart
      (hchains.nodup_iff.1 hnodup) fun c hc => hfree c ?_
    exact (hchains.flatMap_right _).mem_iff.2 hc
  obtain ⟨g, hperform, hg⟩ := hfills fields (List.Perm.refl _)
  obtain ⟨g', hperform', hg'⟩ := hfills fields' hperm
  have hfields : ((fields.map r.field).reverse ++ []).Perm
      ((fields'.map r.field).reverse ++ []) := by
    rw [List.append_nil, List.append_nil]
    exact (List.reverse_perm _).trans ((hperm.map r.field).trans (List.reverse_perm _).symm)
  refine ⟨g, g', hperform, hperform', hg.sameTree hg' (fun c => (hfields.map _).mem_iff)
    (fun x => hfields.mem_iff) fun c hc => hfree c ?_⟩
  simpa [Record.field, List.mem_flatMap] using hc

/-- A link, a column behind it and one beside it, from the first to the last and from the last to
the first. -/
theorem Table.assignAll_in_any_order_reversed :
    let t : Table := ⟨"table0", .standard⟩
    let opened := Record.create t.name none none t.options
    let w : World Unit Forest := ⟨(), [], opened.2⟩
    let fields := [("table1_id", .int 5), ("table1.title", .text "A"), ("name", .text "B")]
    ∃ g g', (assignAll opened.1 fields).perform w = (.ok (), w.withState g) ∧
      (assignAll opened.1 fields.reverse).perform w = (.ok (), w.withState g') ∧
      SameTree opened.1.root g g' ∧ g ≠ g' ∧
      g.keyValue ⟨1⟩ = .int 5 ∧ g'.keyValue ⟨1⟩ = .int 5 := by
  intro t opened w fields
  have hread : ∀ field ∈ fields, ∃ p, opened.1.columnPath field.1 = .ok p := by
    simp only [fields, List.forall_mem_cons]
    exact ⟨⟨.column "table1_id", by decide +kernel⟩,
      ⟨.join "table1" "id" (.column "table1_id") (.column "title"), by decide +kernel⟩,
      ⟨.column "name", by decide +kernel⟩, nofun⟩
  have hseparate : opened.1.Separate (fields.map Prod.fst) w := by
    intro cells v h
    have hcells : ((opened.1.registerAll (fields.map Prod.fst)).perform w).1 =
        .ok [⟨1⟩, ⟨3⟩, ⟨4⟩] := by decide +kernel
    have htargets : ∀ d ∈ [(⟨1⟩ : CellId), ⟨3⟩, ⟨4⟩],
        (((opened.1.registerAll (fields.map Prod.fst)).perform w).2.state.cell d).isKey = false := by
      decide +kernel
    have hlinks :
        ∀ e < ((opened.1.registerAll (fields.map Prod.fst)).perform w).2.state.edges.length,
        (((opened.1.registerAll (fields.map Prod.fst)).perform w).2.state.cell
          (((opened.1.registerAll (fields.map Prod.fst)).perform w).2.state.edge ⟨e⟩).link).isKey =
            false := by decide +kernel
    rw [h] at hcells htargets hlinks
    obtain rfl := Except.ok.inj hcells
    exact ⟨by decide, htargets, fun e he => hlinks e.index he⟩
  obtain ⟨g, g', hg, hg', hsame⟩ : ∃ g g',
      (assignAll opened.1 fields).perform w = (.ok (), w.withState g) ∧
      (assignAll opened.1 fields.reverse).perform w = (.ok (), w.withState g') ∧
        SameTree opened.1.root g g' :=
    assignAll_in_any_order t none () [] fields.reverse_perm.symm hread hseparate
  have hne : ((assignAll opened.1 fields).perform w).2.state ≠
      ((assignAll opened.1 fields.reverse).perform w).2.state := by decide +kernel
  have hkey : ((assignAll opened.1 fields).perform w).2.state.keyValue ⟨1⟩ = .int 5 := by
    decide +kernel
  have hkey' : ((assignAll opened.1 fields.reverse).perform w).2.state.keyValue ⟨1⟩ = .int 5 := by
    decide +kernel
  rw [hg, hg'] at hne
  rw [hg] at hkey
  rw [hg'] at hkey'
  exact ⟨g, g', hg, hg', hsame, hne, hkey, hkey'⟩

end LinkedRows
