/-
# Reading along a line

Over a connector that is faithful to tables, the first record of a line that has a key reads its one
column from the row of that key, and hands what it read on to the next record.  So a fetch ends with
the value that the chain leads to (`fetch_line`).

A save reads the links of a line as far as the rows go.  Then every record stands for the row that
the chain leads to, or is new and so are all records behind it (`Resolved`, `resolve_line`).
-/

import LinkedRows.Proofs.Forest.Lines

namespace LinkedRows

open Forest Tables

variable {σ ρ : Type} {c : Connector σ} {keyName : String → String} {tables : σ → Tables ρ}
  {t : Tables ρ} {w v : World σ Forest} {f g : Forest} {n : NodeId} {d : CellId} {e : EdgeId}
  {label : Label} {joins rest : List Label} {leaf name : String} {value : Value} {x : ρ}
  {rows : List ρ}

/-! ## Where the records of a line stand -/

/-- A record stands for a row, or is new and stands for none. -/
def Stands (t : Tables ρ) (f : Forest) (n : NodeId) : Option ρ → Prop
  | none => f.isNew n = true
  | some x => f.isNew n = false ∧ t.row? (f.node n).table (f.keyValue n) = some x

namespace Forest

/-- From a record on, the records are known by the key columns of their tables, and the joins of a
chain enter tables by these. -/
def InPlace (f : Forest) (keyName : String → String) (leaf : String) (n : NodeId)
    (joins : List Label) : Prop :=
  f.keyName n = keyName (f.node n).table ∧ Addressed keyName leaf (f.node n).table joins

theorem InPlace.of_sameShape (h : f.InPlace keyName leaf n joins) (hs : SameShape f g) :
    g.InPlace keyName leaf n joins := by
  rw [InPlace, hs.keyName, hs.table]
  exact h

namespace Link

theorem inPlace (hl : f.Link n e label) (hf : WellFormed f)
    (h : f.InPlace keyName leaf n (label :: rest)) :
    f.InPlace keyName leaf (f.childOf e) rest := by
  obtain ⟨-, -, hkey, hrest⟩ := h
  obtain ⟨htable, hkeyName⟩ := hl.place hf
  rw [InPlace, htable, hkeyName]
  exact ⟨hkey, hrest⟩

/-- The records from the child on are others than the owner of the link. -/
theorem not_mem_child (hl : f.Link n e label) (hf : WellFormed f) :
    n ∉ f.childOf e :: (f.below (f.childOf e)).preOrder := by
  have hlt := hl.index_lt hf
  rw [List.mem_cons, not_or]
  refine ⟨fun h => Nat.ne_of_lt hlt (congrArg NodeId.index h), fun h => ?_⟩
  have hdeep := (lt_of_mem_preOrder hf (hangs_below hf (f.childOf e)) h).1
  omega

/-- Seeding the child leaves the link alone. -/
theorem cell_seedChild (hl : f.Link n e label) (hf : WellFormed f) :
    (f.seedChild e).cell (f.edge e).link = f.cell (f.edge e).link := by
  refine cell_seedChild_of_ne fun h => ?_
  have hk := hl.isKey
  rw [h] at hk
  exact Bool.false_ne_true (hk.symm.trans (isKey_key hf (hl.hasChild hf)))

/-- A new child takes the key that the link holds. -/
theorem stands_seedChild (hl : f.Link n e label) (hf : WellFormed f)
    (hnew : f.isNew (f.childOf e) = true) (hnull : (f.cell (f.edge e).link).value ≠ .null)
    (hrow : t.row? label.table (f.cell (f.edge e).link).value = some x) :
    Stands t (f.seedChild e) (f.childOf e) (some x) ∧
      (f.seedChild e).keyValue (f.childOf e) = (f.cell (f.edge e).link).value := by
  have hedge := hl.hasEdge hf
  have hkey : (f.seedChild e).keyValue (f.childOf e) = (f.cell (f.edge e).link).value := by
    rw [seedChild_of_value hnew hnull]
    exact keyValue_setKey hf (hf.hasChild hedge) _
  refine ⟨⟨isNew_seedChild hf hedge hnull, ?_⟩, hkey⟩
  rw [hkey, node_seedChild, (hl.place hf).1, hrow]

/-- With the key that the link holds, the line behind the link starts at the row of that key. -/
theorem seed_line {a : Option Value} (hl : f.Link n e label) (hf : Intact f)
    (hline : f.Unread leaf a d (f.childOf e) rest) (hnew : f.isNew (f.childOf e) = true)
    (hplace : f.InPlace keyName leaf n (label :: rest))
    (hnull : (f.cell (f.edge e).link).value ≠ .null)
    (hrow : t.row? label.table (f.cell (f.edge e).link).value = some x) :
    Intact (f.seedChild e) ∧ (f.seedChild e).Unread leaf a d (f.childOf e) rest ∧
      (f.seedChild e).InPlace keyName leaf (f.childOf e) rest ∧
      Stands t (f.seedChild e) (f.childOf e) (some x) := by
  have hwf := hf.toWellFormed
  have hs := steady_seedChild f e
  exact ⟨hf.steady hs, hline.seed hwf (hl.hasEdge hwf),
    (hl.inPlace hwf hplace).of_sameShape hs.shape, (hl.stands_seedChild hwf hnew hnull hrow).1⟩

end Link

theorem Learns.stands (h : Learns f g) (hf : WellFormed f) (hn : f.HasNode n)
    (hx : Stands t f n (some x)) : Stands t g n (some x) := by
  refine ⟨h.steady.isNew hf hn hx.1, ?_⟩
  rw [h.steady.shape.table, h.keyValue hf hn hx.1]
  exact hx.2

/-- What a clean column holds once it was loaded. -/
theorem cell_load_single (hd : f.HasCell d) (hclean : (f.cell d).assigned = none) (x : Value) :
    ((f.modifyCell d (·.load x)).cell d).stored = x ∧
      ((f.modifyCell d (·.load x)).cell d).assigned = none ∧
      ((f.modifyCell d (·.load x)).cell d).value = x := by
  rw [cell_modifyCell_self f hd]
  refine ⟨rfl, hclean, ?_⟩
  show (f.cell d).assigned.getD x = x
  rw [hclean]
  rfl

end Forest

/-! ## One record -/

/-- The column of a record with a row is read from that row. -/
theorem readCells_single (hc : Faithful c keyName tables) (hs : w.state.Single n d name)
    (hplace : w.state.InPlace keyName leaf n joins)
    (hx : Stands (tables w.store) w.state n (some x)) :
    ∃ v, (readCells c n [d]).perform w = (.ok (), v) ∧ tables v.store = tables w.store ∧
      v.state = w.state.modifyCell d (·.load ((tables w.store).content x name)) := by
  have hselection : w.state.selection n [d] = .select (w.state.node n).table [name]
      ⟨keyName (w.state.node n).table, w.state.keyValue n⟩ := by
    rw [selection, rowKey, hplace.1, List.map_singleton, hs.name]
  have hwrites : c.dialect.Writes
      (RowKey.mk (keyName (w.state.node n).table) (w.state.keyValue n)).value :=
    (hc.named hx.2).2
  obtain ⟨p, hp⟩ := hwrites.prepare_select (w.state.node n).table [name]
  obtain ⟨hreply, hstore⟩ := hc.select (List.cons_ne_nil name []) hx.2 hp
  rw [← hselection] at hp
  exact ⟨_, readCells_of_answered (List.cons_ne_nil d []) hp hreply, hstore, rfl⟩

theorem fetchNode_single (hc : Faithful c keyName tables) (hs : w.state.Single n d name)
    (hf : WellFormed w.state) (hclean : (w.state.cell d).assigned = none)
    (hplace : w.state.InPlace keyName leaf n joins)
    (hx : Stands (tables w.store) w.state n (some x)) :
    ∃ v, (fetchNode c n).perform w = (.ok (), v) ∧ tables v.store = tables w.store ∧
      (v.state.cell d).value = (tables w.store).content x name := by
  obtain ⟨v, hread, hstore, hstate⟩ := readCells_single hc hs hplace hx
  have hcells := hs.cleanCells hf hx.1 (by rw [Cell.isDirty, hclean]; rfl)
  refine ⟨v.withState (v.state.setCurrent n true), ?_, hstore, ?_⟩
  · rw [fetchNode, Action.perform_state_bind, hcells, Action.perform_bind_ok hread]
    rfl
  · show ((v.state.setCurrent n true).cell d).value = _
    rw [setCurrent, cell_modifyNode, hstate]
    exact (cell_load_single (hs.hasCell hf) hclean _).2.2

/-- Reading the link of a record leaves the line behind it unread, and the next record new. -/
theorem Consults.unread {a : Option Value} (h : Consults [n] w v) (hf : WellFormed w.state)
    (hl : w.state.Link n e label) (hnew : w.state.isNew (w.state.childOf e) = true)
    (hline : w.state.Unread leaf a d (w.state.childOf e) rest) :
    v.state.Unread leaf a d (v.state.childOf e) rest ∧
      v.state.isNew (v.state.childOf e) = true := by
  rw [h.learns.steady.shape.childOf]
  refine ⟨hline.of_reaches hf h.reaches (hl.index_lt hf) fun k hk => ?_, ?_⟩
  · exact h.node (by rwa [List.mem_singleton])
  · rw [h.reaches.isNew hf (hl.hasChild hf) (hl.child_ne hf), hnew]

/-! ## Fetching -/

/-- **A fetch along a line reads the value that the chain leads to.** -/
theorem fetch_line (hc : Faithful c keyName tables) (h : w.state.Unread leaf none d n joins)
    (hf : Intact w.state) (hplace : w.state.InPlace keyName leaf n joins)
    (hx : Stands (tables w.store) w.state n (some x))
    (hleads : (tables w.store).Leads leaf value x joins rows) :
    ∃ v, (fetchNode c n >>= fun _ => fetchBelow c (w.state.below n)).perform w = (.ok (), v) ∧
      (v.state.cell d).value = value := by
  induction joins generalizing w n x rows with
  | nil =>
    cases h with
    | last hs hedges hassigned =>
      cases hleads with
      | last hvalue =>
        obtain ⟨v, hfetch, -, hread⟩ := fetchNode_single hc hs hf.toWellFormed hassigned hplace hx
        refine ⟨v, ?_, hread.trans hvalue⟩
        rw [below_of_no_edges hf.toWellFormed hedges, Action.perform_bind_ok hfetch]
        rfl
  | cons label rest ih =>
    cases h with
    | @join _ e _ _ hl hassigned hstored hcurrent hnew hline =>
      cases hleads with
      | goes hnext hlater =>
        have hwf := hf.toWellFormed
        obtain ⟨u, hfetch, hstore, hread⟩ := fetchNode_single hc hl.toSingle hwf hassigned hplace hx
        have hcons := (consults_fetchNode c hwf hx.1).of_perform hfetch
        have hs := hcons.learns.steady
        have hu := hf.steady hs
        obtain ⟨hlineU, hnewU⟩ := hcons.unread hwf hl hnew hline
        have hlu := hl.of_sameShape hs.shape
        rw [← hs.shape.edge] at hread
        have hne := (hc.named hnext).1
        rw [← hread] at hne hnext
        rw [← hstore] at hnext hlater
        have hshape := (steady_seedChild u.state e).shape
        obtain ⟨hseed, hlineSeed, hplaceSeed, hy⟩ :=
          hlu.seed_line hu hlineU hnewU (hplace.of_sameShape hs.shape) hne hnext
        obtain ⟨v, hrun, hdone⟩ :=
          ih (w := u.withState (u.state.seedChild e)) hlineSeed hseed hplaceSeed hy hlater
        obtain ⟨⟨⟩, t, hnode, hbelow⟩ := Action.perform_bind_eq_ok.1 hrun
        refine ⟨v, ?_, hdone⟩
        have hbound : (u.state.seedChild e).isBound (u.state.childOf e) = true := by
          rw [isBound, hy.1, hseed.undeleted]
          rfl
        rw [World.withState, hshape.below] at hbelow
        rw [← hs.shape.below, hlu.below hu.toWellFormed, Action.perform_bind_ok hfetch,
          perform_fetchBelow_bound (hu.undeleted _) hbound, Action.perform_bind_ok hnode,
          Action.perform_bind_ok hbelow]
        rfl

/-! ## Resolving -/

/-- On the line from a record on, each record stands for a row, which its link was read from, or is
new and holds no link; each of them has the key that the link before it holds; and a value is
assigned to the column at the end. -/
inductive Resolved (t : Tables ρ) (f : Forest) (leaf : String) (value : Value) :
    NodeId → List Label → List ρ → Prop
  | last {n : NodeId} {d : CellId} (x? : Option ρ) : f.Single n d leaf →
      (f.node n).edges = [] → (f.cell d).assigned = some value → Stands t f n x? →
      Resolved t f leaf value n [] x?.toList
  | join {n : NodeId} {e : EdgeId} {label : Label} {rest : List Label} {rows : List ρ}
      (x? : Option ρ) : f.Link n e label → (f.cell (f.edge e).link).assigned = none →
      (f.cell (f.edge e).link).stored = x?.elim .null (fun x => t.content x label.link) →
      f.keyValue (f.childOf e) = (f.cell (f.edge e).link).stored → Stands t f n x? →
      Resolved t f leaf value (f.childOf e) rest rows →
      Resolved t f leaf value n (label :: rest) (x?.toList ++ rows)

/-- Before a save writes, it reads what it needs from a record on. -/
def resolve (c : Connector σ) (n : NodeId) (b : Branches) : Action σ Forest Unit :=
  readLinks c n >>= fun _ => resolveBelow c b

theorem consults_resolve (c : Connector σ) (hf : WellFormed w.state) (n : NodeId) :
    (resolve c n (w.state.below n)).Ensures w fun _ v =>
      Consults (n :: (w.state.below n).preOrder) w v := by
  refine Action.Ensures.seq Consults.trans ?_ fun _ v hv => ?_
  · exact (consults_readLinks c n hf).mono fun _ _ h => h.mono (by simp)
  · have hs := hv.learns.steady
    exact (consults_resolveBelow c _ (hs.wellFormed hf) (hs.shape.hangs (hangs_below hf n))).mono
      fun _ _ h => h.mono fun m hm => List.mem_cons_of_mem _ hm

/-- Nothing is read for a record without joins. -/
theorem resolve_of_no_edges (c : Connector σ) (hf : WellFormed w.state)
    (hedges : (w.state.node n).edges = []) :
    (resolve c n (w.state.below n)).perform w = (.ok (), w) := by
  have hunread : w.state.unreadLinks n = [] := by
    rw [Forest.unreadLinks, hedges]
    split <;> rfl
  rw [below_of_no_edges hf hedges, resolve, readLinks, bind_assoc, Action.perform_state_bind,
    hunread]
  rfl

theorem perform_resolve_join {u : World σ Forest} {child : NodeId} {below : Branches}
    (hread : (readLinks c n).perform w = (.ok (), u)) (hdel : (u.state.node child).deleted = false)
    (hrun : (resolve c child below).perform (u.withState (u.state.seedChild e)) = (.ok (), v)) :
    (resolve c n (.cons e child below .nil)).perform w = (.ok (), v) := by
  obtain ⟨⟨⟩, t, hlinks, hbelow⟩ := Action.perform_bind_eq_ok.1 hrun
  rw [resolve, Action.perform_bind_ok hread, perform_resolveBelow_kept hdel,
    Action.perform_bind_ok hlinks, Action.perform_bind_ok hbelow]
  rfl

/-- What was read from the child of a link on leaves the link as it was loaded, so the line is
resolved from the owner of the link on. -/
theorem Resolved.of_seeded (hl : f.Link n e label) (hf : WellFormed f)
    (hassigned : (f.cell (f.edge e).link).assigned = none)
    (hstored : (f.cell (f.edge e).link).stored = t.content x label.link)
    (hx : Stands t f n (some x)) (hbound : (f.seedChild e).isNew (f.childOf e) = false)
    (hkey : (f.seedChild e).keyValue (f.childOf e) = (f.cell (f.edge e).link).stored)
    (hcons : Consults (f.childOf e :: (f.below (f.childOf e)).preOrder)
      (w.withState (f.seedChild e)) v)
    (hresolved : Resolved t v.state leaf value (f.childOf e) rest rows) :
    Resolved t v.state leaf value n (label :: rest) (x :: rows) := by
  have hseed := steady_seedChild f e
  have hwfSeed := hseed.wellFormed hf
  have hlearns := hcons.learns
  have hshape := hseed.shape.trans hlearns.steady.shape
  have hcell : v.state.cell (f.edge e).link = f.cell (f.edge e).link := by
    have howner : ((f.seedChild e).cell (f.edge e).link).owner = n := by
      rw [hseed.shape.owner, hl.owner hf]
    rw [hcons.cell (by rw [World.withState, howner]; exact hl.not_mem_child hf)]
    exact hl.cell_seedChild hf
  refine .join (some x) (hl.of_sameShape hshape) ?_ ?_ ?_ ?_ ?_
  · rw [hshape.edge, hcell, hassigned]
  · rw [hshape.edge, hcell, hstored]
    rfl
  · rw [hshape.childOf, hshape.edge, hcell, ← hkey]
    exact hlearns.keyValue hwfSeed ((hseed.shape.hasNode _).2 (hl.hasChild hf)) hbound
  · exact ((Learns.refl.seed (hl.hasEdge hf)).trans hlearns).stands hf hl.hasNode hx
  · rwa [hshape.childOf]

/-- Nothing is read for a line whose first record is new, and no record of it stands for a row. -/
theorem resolve_new (c : Connector σ) (t : Tables ρ) (hf : Intact w.state)
    (h : w.state.Unread leaf (some value) d n joins) (hnew : w.state.isNew n = true) :
    (resolve c n (w.state.below n)).perform w = (.ok (), w) ∧
      Resolved t w.state leaf value n joins [] := by
  have hwf := hf.toWellFormed
  have hread : (readLinks c n).perform w = (.ok (), w) := readLinks_of_isNew hnew
  induction joins generalizing n with
  | nil =>
    cases h with
    | last hs hedges hassigned =>
      exact ⟨resolve_of_no_edges c hwf hedges, .last none hs hedges hassigned hnew⟩
  | cons label rest ih =>
    cases h with
    | @join _ e _ _ hl hassigned hstored _ hnewChild hline =>
      have hlink : (w.state.cell (w.state.edge e).link).value = .null := by
        rw [Cell.value, hassigned, hstored]
        rfl
      obtain ⟨hrun, hresolved⟩ := ih hline hnewChild (readLinks_of_isNew hnewChild)
      have hkey := keyValue_of_isNew hwf hf.unstored (hl.hasChild hwf) hnewChild
      rw [hl.below hwf]
      refine ⟨perform_resolve_join hread (hf.undeleted _) ?_, ?_⟩
      · rw [seedChild_of_null hlink]
        exact hrun
      · exact .join none hl hassigned hstored (hkey.trans hstored.symm) hnew hresolved

/-- The link of a record with a row is read if the line has something to write. -/
theorem Forest.Link.unreadLinks (hl : f.Link n e label) (hf : Intact f)
    (hbound : f.isNew n = false) (hcurrent : (f.node n).current = false)
    (hclean : (f.cell (f.edge e).link).assigned = none) (hnew : f.isNew (f.childOf e) = true)
    (hchanges : f.hasChanges (f.childOf e) = true) : f.unreadLinks n = [(f.edge e).link] := by
  have hstale : f.isStale n = true := by
    rw [isStale, isBound, hbound, hf.undeleted, hcurrent]
    rfl
  rw [childOf] at hnew hchanges
  rw [Forest.unreadLinks, if_pos hstale, hl.edges]
  simp [hnew, hf.undeleted, Cell.isDirty, hclean, hchanges, List.eraseDups_cons]

/-- **Resolving a line follows the links as far as the rows go.** -/
theorem resolve_line (hc : Faithful c keyName tables)
    (h : w.state.Unread leaf (some value) d n joins) (hf : Intact w.state)
    (hplace : w.state.InPlace keyName leaf n joins)
    (hx : Stands (tables w.store) w.state n (some x))
    (hmeets : (tables w.store).Meets x joins rows) :
    ∃ v, (resolve c n (w.state.below n)).perform w = (.ok (), v) ∧
      tables v.store = tables w.store ∧
      Resolved (tables w.store) v.state leaf value n joins rows := by
  induction joins generalizing w n x rows with
  | nil =>
    cases h with
    | last hs hedges hassigned =>
      cases hmeets with
      | last =>
        exact ⟨w, resolve_of_no_edges c hf.toWellFormed hedges, rfl,
          .last (some x) hs hedges hassigned hx⟩
  | cons label rest ih =>
    cases h with
    | @join _ e _ _ hl hassigned hstored hcurrent hnew hline =>
      have hwf := hf.toWellFormed
      obtain ⟨u, hrun, hstore, hstate⟩ := readCells_single hc hl.toSingle hplace hx
      have hread : (readLinks c n).perform w = (.ok (), u) := by
        rw [readLinks, Action.perform_state_bind, hl.unreadLinks hf hx.1 hcurrent hassigned hnew
          (hline.hasChanges hf rfl), hrun]
      have hcons := (consults_readLinks c n hwf).of_perform hread
      have hs := hcons.learns.steady
      have hu := hf.steady hs
      have hlu := hl.of_sameShape hs.shape
      obtain ⟨hlineU, hnewU⟩ := hcons.unread hwf hl hnew hline
      have hxU := hcons.learns.stands hwf hl.hasNode hx
      obtain ⟨hlinkStored, hlinkAssigned, hlinkValue⟩ :=
        cell_load_single (hl.hasCell hwf) hassigned ((tables w.store).content x label.link)
      rw [← hstate, ← hs.shape.edge] at hlinkStored hlinkAssigned hlinkValue
      rw [← hs.shape.below, hlu.below hu.toWellFormed]
      cases hmeets with
      | stops hnull =>
        obtain ⟨hdeeper, hresolved⟩ := resolve_new c (tables w.store) hu hlineU hnewU
        refine ⟨u, perform_resolve_join hread (hu.undeleted _) ?_, hstore,
          .join (some x) hlu hlinkAssigned hlinkStored ?_ hxU hresolved⟩
        · rw [seedChild_of_null (hlinkValue.trans hnull)]
          exact hdeeper
        · rw [keyValue_of_isNew hu.toWellFormed hu.unstored (hlu.hasChild hu.toWellFormed) hnewU,
            hlinkStored, hnull]
      | goes hne hnext hlater =>
        rw [← hlinkValue] at hne hnext
        rw [← hstore] at hnext hlater
        have hshape := (steady_seedChild u.state e).shape
        have hkey := (hlu.stands_seedChild hu.toWellFormed hnewU hne hnext).2
        obtain ⟨hseed, hlineSeed, hplaceSeed, hy⟩ :=
          hlu.seed_line hu hlineU hnewU (hplace.of_sameShape hs.shape) hne hnext
        obtain ⟨v, hdeeper, hstoreDeeper, hresolved⟩ :=
          ih (w := u.withState (u.state.seedChild e)) hlineSeed hseed hplaceSeed hy hlater
        have hcons := (consults_resolve c hseed.toWellFormed _).of_perform hdeeper
        rw [World.withState, hshape.below] at hdeeper hcons
        have hsame : tables (u.withState (u.state.seedChild e)).store = tables w.store := hstore
        rw [hsame] at hresolved
        refine ⟨v, perform_resolve_join hread (hu.undeleted _) hdeeper, hstoreDeeper.trans hstore,
          .of_seeded hlu hu.toWellFormed hlinkAssigned hlinkStored hxU hy.1 ?_ hcons hresolved⟩
        rw [hkey, hlinkValue, hlinkStored]

/-- Resolving a line whose first record stands for a row, or is new. -/
theorem exists_resolved {x? : Option ρ} (hc : Faithful c keyName tables)
    (h : w.state.Unread leaf (some value) d n joins) (hf : Intact w.state)
    (hplace : w.state.InPlace keyName leaf n joins) (hx : Stands (tables w.store) w.state n x?)
    (hmeets : (tables w.store).MeetsFrom joins x? rows) :
    ∃ v, (resolve c n (w.state.below n)).perform w = (.ok (), v) ∧
      tables v.store = tables w.store ∧
      Resolved (tables w.store) v.state leaf value n joins rows := by
  cases x? with
  | none =>
    obtain ⟨hrun, hresolved⟩ := resolve_new c (tables w.store) hf h hx
    have hnothing : rows = [] := hmeets
    rw [hnothing]
    exact ⟨w, hrun, rfl, hresolved⟩
  | some x => exact resolve_line hc h hf hplace hx hmeets

end LinkedRows
