/-
# What a fetch leaves alone

Whether a fetch succeeds or fails half-way, it issues nothing but selections, and changes nothing
outside the records that it starts at and below (`OnlyReads`).  There it touches no column that is
assigned.  The columns that it assigns are keys of new children, each with the value of its link:
a link is read, if at all, before its child is given a key, and not touched again afterwards
(`Forest.Seeds`).

`fetch_reads_clean_columns` says so of every state of a forest, and what a fetch selects, in order,
when it succeeds.
-/

import LinkedRows.Proofs.Attempts
import LinkedRows.Proofs.Fetched

namespace LinkedRows

open Forest

variable {σ : Type} {c : Connector σ} {w v u s : World σ Forest} {f g h : Forest} {n child : NodeId}
  {e : EdgeId} {b below next : Branches} {d : CellId}

namespace Forest

/-- Columns become assigned only as keys of children of these records, and each of them then has the
value of the link to its child, which is not null. -/
def Seeds (owners : List NodeId) (f g : Forest) : Prop :=
  ∀ d, (f.cell d).isDirty = false → (g.cell d).isDirty = true →
    ∃ e, f.HasEdge e ∧ (f.edge e).owner ∈ owners ∧ (f.node (f.edge e).child).key = d ∧
      (g.cell (f.edge e).link).value ≠ .null ∧
        g.cell d = (f.cell d).assign (g.cell (f.edge e).link).value

namespace Seeds

variable {owners others : List NodeId}

theorem of_isDirty (hdirty : ∀ d, (g.cell d).isDirty = (f.cell d).isDirty) :
    Seeds owners f g := fun d hclean hd => by
  rw [hdirty, hclean] at hd
  cases hd

theorem mono (hs : Seeds owners f g) (hsub : ∀ m ∈ owners, m ∈ others) : Seeds others f g :=
  fun d hclean hd => by
    obtain ⟨e, he, howner, hrest⟩ := hs d hclean hd
    exact ⟨e, he, hsub _ howner, hrest⟩

/-- What follows must leave the links alone that were followed before. -/
theorem trans (hf : WellFormed f) (hs : Seeds owners f g) (hs' : Seeds others g h)
    (hfg : Learns f g) (hgh : Learns g h)
    (hlinks : ∀ d, (g.cell d).owner ∈ owners → h.cell d = g.cell d) :
    Seeds (owners ++ others) f h := by
  intro d hclean hd
  have hshape := hfg.steady.shape
  cases hbetween : (g.cell d).isDirty with
  | true =>
    obtain ⟨e, he, howner, hkey, hnull, hvalue⟩ := hs d hclean hbetween
    have hlink := hlinks (f.edge e).link (by rwa [hshape.owner, hf.owner_link he])
    refine ⟨e, he, List.mem_append_left _ howner, hkey, ?_, ?_⟩
    · rwa [hlink]
    · rw [hgh.cell_of_dirty hbetween, hvalue, hlink]
  | false =>
    obtain ⟨e, he, howner, hkey, hnull, hvalue⟩ := hs' d hbetween hd
    have he := (hshape.hasEdge e).1 he
    rw [hshape.edge] at howner hkey hnull hvalue
    rw [hshape.key] at hkey
    have hsame : g.cell d = f.cell d :=
      hfg.steady.cell_of_clean (hkey ▸ isKey_key hf (hf.hasChild he)) hclean hbetween
    exact ⟨e, he, List.mem_append_right _ howner, hkey, hnull, hsame ▸ hvalue⟩

end Seeds
end Forest
/-! ## Links that are followed -/

/-- A new child that is given a key has the value of its link, which is not null. -/
theorem Forest.seeds_seedChild (hf : WellFormed f) (he : f.HasEdge e) :
    Seeds [(f.edge e).owner] f (f.seedChild e) := by
  intro d hclean hd
  by_cases hnull : (f.cell (f.edge e).link).value = .null
  · rw [seedChild_of_null hnull, hclean] at hd
    cases hd
  cases hnew : f.isNew (f.edge e).child with
  | false =>
    rw [seedChild_of_bound hnew, hclean] at hd
    cases hd
  | true =>
    have hkey : (f.node (f.edge e).child).key = d := by
      by_contra hne
      rw [cell_seedChild_of_ne (Ne.symm hne), hclean] at hd
      cases hd
    -- The link belongs to the owner, so it is not the key of the child.
    have hlink : (f.seedChild e).cell (f.edge e).link = f.cell (f.edge e).link := by
      refine (reaches_seedChild hf he).cell fun hmem => ?_
      rw [hf.owner_link he] at hmem
      have hlt := hf.owner_lt_child he
      rw [List.mem_singleton.1 hmem] at hlt
      exact Nat.lt_irrefl _ hlt
    refine ⟨e, he, List.mem_singleton_self _, hkey, by rwa [hlink], ?_⟩
    rw [hlink, seedChild_of_value hnew hnull, setKey, hkey,
      cell_modifyCell_self f (hkey ▸ hf.hasCell_key (hf.hasChild he))]

/-- Fetching a record gives no key. -/
theorem seeds_fetchNode (c : Connector σ) (n : NodeId) (w : World σ Forest) :
    (fetchNode c n).Ensures w fun _ v => Seeds [] w.state v.state := by
  have hread : (readCells c n (w.state.cleanCells n)).Ensures w fun _ v =>
      ∀ d, (v.state.cell d).isDirty = (w.state.cell d).isDirty :=
    (readCells_spec c n _ w).mono fun _ v h d => by
      rcases h.2 with hstate | ⟨values, hstate⟩ <;> rw [hstate]
      rcases cell_load w.state _ values d with h | ⟨-, x, h⟩ <;> rw [h]
      rfl
  rw [fetchNode, Action.Ensures, Action.perform_state_bind]
  exact Action.Ensures.bind (Q := fun _ v => Seeds [] w.state v.state) hread
    (fun _ s hs => .of_isDirty hs) fun _ s hs => .of_isDirty hs

/-- The second world comes from the first by asking alone, which reaches some records, and new
children of some records are given keys. -/
structure ReadsDown (owners records : List NodeId) (w v : World σ Forest) : Prop extends
    Consults records w v where
  seeds : Seeds owners w.state v.state

namespace ReadsDown

variable {owners others records deeper : List NodeId}

theorem trans (hf : WellFormed w.state) (h : ReadsDown owners records w v)
    (h' : ReadsDown others deeper v u) (hout : ∀ m ∈ owners, m ∉ deeper) :
    ReadsDown (owners ++ others) (records ++ deeper) w u where
  toConsults := (h.toConsults.mono fun _ => List.mem_append_left _).trans
    (h'.toConsults.mono fun _ => List.mem_append_right _)
  seeds := h.seeds.trans hf h'.seeds h.learns h'.learns fun _ hd => h'.cell (hout _ hd)

theorem mono (h : ReadsDown owners records w v) (howners : ∀ m ∈ owners, m ∈ others)
    (hrecords : ∀ m ∈ records, m ∈ deeper) : ReadsDown others deeper w v :=
  ⟨h.toConsults.mono hrecords, h.seeds.mono howners⟩

theorem wellFormed (h : ReadsDown owners records w v) (hf : WellFormed w.state) :
    WellFormed v.state := h.learns.steady.wellFormed hf

theorem hangs (h : ReadsDown owners records w v) (hb : w.state.Hangs n b) : v.state.Hangs n b :=
  h.learns.steady.shape.hangs hb

end ReadsDown

theorem readsDown_fetchNode (c : Connector σ) (hf : WellFormed w.state)
    (hbound : w.state.isBound n = true) :
    (fetchNode c n).Ensures w fun _ v => ReadsDown [] [n] w v :=
  ⟨consults_fetchNode c hf (isNew_of_isBound hbound), seeds_fetchNode c n w⟩

theorem readsDown_seedChild (hf : WellFormed w.state) (he : e ∈ (w.state.node n).edges)
    (hchild : w.state.childOf e = child) :
    ReadsDown [n] [child] w (w.withState (w.state.seedChild e)) where
  toConsults := consults_seedChild hf (hf.hasEdge he) hchild
  seeds := hf.owner_of_edge he ▸ seeds_seedChild hf (hf.hasEdge he)

theorem ReadsDown.refl (owners records : List NodeId) (w : World σ Forest) :
    ReadsDown owners records w w := ⟨.refl _ _, .of_isDirty fun _ => rfl⟩

/-- Whether it succeeds or fails, fetching what is behind joins asks for the records there, and
gives keys to children of these and of the record that the joins start at. -/
theorem readsDown_fetchBelow (c : Connector σ) (b : Branches) (hf : WellFormed w.state)
    (hb : w.state.Hangs n b) (hjoins : b.joins.Nodup) :
    (fetchBelow c b).Ensures w fun _ v => ReadsDown (n :: b.preOrder) b.preOrder w v := by
  induction b generalizing n w with
  | nil => exact .refl _ _ _
  | cons e child below next ihBelow ihNext =>
    have hnot : n ∉ child :: below.preOrder ++ next.preOrder := not_mem_of_hangs hf hb
    have hfirst {m : NodeId} (hm : m ∈ child :: below.preOrder) : m ∉ next.preOrder :=
      not_mem_next_of_first hf hb hjoins hm
    obtain ⟨he, hchild, hbelowEq, hbelow, hnext⟩ := hb
    simp only [List.mem_append, List.mem_cons, not_or] at hnot
    -- The later joins, after whatever happened to the first child and below it.
    have hlater {u : World σ Forest}
        (hu : ReadsDown (n :: child :: below.preOrder) (child :: below.preOrder) w u) :
        (fetchBelow c next).Ensures u fun _ v => ReadsDown
          (n :: (child :: below.preOrder ++ next.preOrder))
          (child :: below.preOrder ++ next.preOrder) w v := by
      refine (ihNext (hu.wellFormed hf) (hu.hangs hnext) (List.nodup_cons.1 hjoins).2).mono
        fun _ v hv => (hu.trans hf hv ?_).mono (by grind) (by grind)
      exact List.forall_mem_cons.2 ⟨hnot.2, fun m hm => hfirst hm⟩
    have hseed := readsDown_seedChild hf he hchild
    cases hdel : (w.state.node child).deleted with
    | true =>
      rw [Action.Ensures, perform_fetchBelow_deleted hdel]
      exact hlater (.refl _ _ w)
    | false =>
      cases hbound : (w.state.seedChild e).isBound child with
      | false =>
        rw [Action.Ensures, perform_fetchBelow_unbound hdel hbound]
        exact hlater (hseed.mono (by grind) (by grind))
      | true =>
        rw [Action.Ensures, perform_fetchBelow_bound hdel hbound]
        have hread : (fetchNode c child).Ensures (w.withState (w.state.seedChild e)) fun _ s =>
            ReadsDown [n] [child] w s :=
          (readsDown_fetchNode c (hseed.wellFormed hf) hbound).mono fun _ s hs =>
            (hseed.trans hf hs (by grind)).mono (by grind) (by grind)
        have hdown {s : World σ Forest} (hs : ReadsDown [n] [child] w s) :
            (fetchBelow c below).Ensures s fun _ u =>
              ReadsDown (n :: child :: below.preOrder) (child :: below.preOrder) w u :=
          (ihBelow (hs.wellFormed hf) (hs.hangs hbelow)
            (hbelowEq ▸ nodup_joins_below hf child)).mono fun _ u hu =>
              (hs.trans hf hu (by grind)).mono (by grind) (by grind)
        refine Action.Ensures.bind (P := fun _ s => ReadsDown [n] [child] w s)
          (Q := fun _ v => ReadsDown (n :: (child :: below.preOrder ++ next.preOrder))
            (child :: below.preOrder ++ next.preOrder) w v)
          hread (fun _ s hs => ?_) fun _ s hs => hs.mono (by grind) (by grind)
        exact (hdown hs).bind (fun _ u hu => hlater hu) fun _ u hu =>
          hu.mono (by grind) (by grind)

theorem readsDown_fetchTree (c : Connector σ) (hf : WellFormed w.state)
    (hbound : w.state.isBound n = true) :
    (fetchTree c n).Ensures w fun _ v => ReadsDown (n :: (w.state.below n).preOrder)
      (n :: (w.state.below n).preOrder) w v := by
  rw [fetchTree, Action.Ensures, Action.perform_state_bind]
  refine Action.Ensures.bind (P := fun _ s => ReadsDown [] [n] w s)
    (Q := fun _ v => ReadsDown (n :: (w.state.below n).preOrder)
      (n :: (w.state.below n).preOrder) w v)
    (readsDown_fetchNode c hf hbound) (fun _ s hs => ?_) fun _ s hs =>
      hs.mono (by simp) (by grind)
  exact (readsDown_fetchBelow c _ (hs.wellFormed hf) (hs.hangs (hangs_below hf n))
    (nodup_joins_below hf n)).mono fun _ v hv =>
      (hs.trans hf hv (by simp)).mono (by grind) (by grind)

/-! ## Statements -/

/-- The call asks a selection. -/
def Exchange.Selects (dialect : Dialect) : Exchange → Prop
  | .query p _ => ∃ table columns key, (Statement.select table columns key).prepare dialect = .ok p
  | _ => False

/-- The steps of fetching make no calls but selections. -/
theorem Fetches.selects (h : Fetches c w v) :
    Accounts (fun _ x => x.Selects c.dialect) w.log v.log := by
  induction h with
  | refl => exact .refl _
  | @node v n _ _ _ ih =>
    have hread : (readCells c n (v.state.cleanCells n)).Ensures v fun _ s =>
        Accounts (fun _ x => x.Selects c.dialect) v.log s.log :=
      readCells_accounts fun _ _ _ hp => ⟨_, _, _, hp⟩
    refine ih.trans ?_
    rw [fetchNode, Action.perform_state_bind]
    exact Action.Ensures.bind
      (Q := fun _ s => Accounts (fun _ x => x.Selects c.dialect) v.log s.log) hread
      (fun _ _ hs => hs) fun _ _ hs => hs
  | seed _ _ ih => exact ih

/-! ## The whole fetch -/

/-- What a fetch that starts at and below some records does at most, also when it fails. -/
structure OnlyReads (c : Connector σ) (records : List NodeId) (w v : World σ Forest) : Prop where
  /-- It issues selections. -/
  selects : ∃ calls, v.log = w.log ++ calls ∧ ∀ x ∈ calls, x.Selects c.dialect
  /-- No record, column or join is added or taken away, or changed but in its values and flags. -/
  shape : SameShape w.state v.state
  deleted (m : NodeId) : (v.state.node m).deleted = (w.state.node m).deleted
  /-- Other records stay as they are, and so do their columns. -/
  node {m : NodeId} : m ∉ records → v.state.node m = w.state.node m
  cell {d : CellId} : (w.state.cell d).owner ∉ records → v.state.cell d = w.state.cell d
  /-- Assigned columns stay as they are. -/
  dirty {d : CellId} : (w.state.cell d).isDirty = true → v.state.cell d = w.state.cell d
  /-- Other columns are assigned only as keys of new children, which get the value of their link,
  and it is not null. -/
  seeds {d : CellId} : (w.state.cell d).isDirty = false → (v.state.cell d).isDirty = true →
    ∃ e, w.state.HasEdge e ∧ (w.state.edge e).owner ∈ records ∧
      w.state.isNew (w.state.childOf e) = true ∧ (w.state.node (w.state.childOf e)).key = d ∧
      (v.state.cell (w.state.edge e).link).value ≠ .null ∧
      v.state.cell d = (w.state.cell d).assign (v.state.cell (w.state.edge e).link).value

/-- The answers are those of the selections of the given records, in their order: one for each of
them that has a clean column, for all its clean columns, by its key. -/
structure SelectsClean (c : Connector σ) (records : List NodeId) (f : Forest)
    (answers : List Answer) : Prop where
  nodes : answers.map Answer.node = records.filter fun m => !(f.cleanCells m).isEmpty
  statements : ∀ a ∈ answers,
    (f.selection a.node (f.cleanCells a.node)).prepare c.dialect = .ok a.statement

theorem perform_fetch_of_bound (hbound : w.state.isBound n = true) :
    (fetch c n).perform w = (fetchTree c n).perform w := by
  rw [fetch, Action.perform_state_bind, hbound]
  rfl

theorem onlyReads_fetch (hf : WellFormed w.state) (hn : w.state.HasNode n)
    (hbound : w.state.isBound n = true) :
    (fetch c n).Ensures w fun _ v => OnlyReads c (n :: (w.state.below n).preOrder) w v := by
  have hselects : (fetchTree c n).Ensures w fun _ v => Fetches c w v :=
    fetches_fetchTree hf hn hbound
  have hreads := readsDown_fetchTree c hf hbound
  rw [Action.Ensures] at hselects hreads
  rw [Action.Ensures, perform_fetch_of_bound hbound]
  exact
    { selects := hselects.selects.exists_calls
      shape := hreads.learns.steady.shape
      deleted := hreads.learns.steady.deleted
      node := hreads.node
      cell := hreads.cell
      dirty := hreads.learns.cell_of_dirty
      seeds := fun {d} hclean hd => by
        obtain ⟨e, he, howner, hkey, hrest⟩ := hreads.seeds d hclean hd
        refine ⟨e, he, howner, ?_, hkey, hrest⟩
        rw [isNew, childOf, hkey, hclean]
        rfl }

/-- **A fetch only reads, and only columns that are not assigned.**  Whether it succeeds or fails
at some point, it issues selections alone and leaves everything as it is but what it reads; and if
it succeeds, it has selected in this order the record and those below it that are bound, with all
records on the way there, once their links were followed. -/
theorem fetch_reads_clean_columns (hw : Operated w.state) (hn : w.state.HasNode n)
    (hbound : w.state.isBound n = true) {r : Except Fault Unit}
    (h : (fetch c n).perform w = (r, v)) :
    OnlyReads c (n :: (w.state.below n).preOrder) w v ∧
      (r = .ok () → ∃ answers, v.log = w.log ++ answers.map Answer.exchange ∧
        SelectsClean c (n :: v.state.boundOrder (w.state.below n)) v.state answers) := by
  have hf := hw.wellFormed
  refine ⟨(onlyReads_fetch hf hn hbound).of_perform h, ?_⟩
  rintro rfl
  rw [perform_fetch_of_bound hbound] at h
  obtain ⟨answers, hlog, hreads⟩ := fetchTree_answers hf hn hbound h
  exact ⟨answers, hlog, hreads.nodes, fun a ha => (hreads.reads a ha).statement⟩

/-- A record whose title is behind a link. -/
def titleBehindLink : Forest :=
  ((registerColumn ⟨0⟩ (.join "table1" "id" (.column "table1_id") (.column "title"))).perform
    (Forest.empty.addRoot "table0" "id" (.int 1)).2).2

theorem operated_titleBehindLink : Operated titleBehindLink :=
  (Operated.empty.addRoot "table0" "id" (.int 1)).registerColumn _ (by decide)

/-- The link that is read binds the child, which is read then. -/
theorem fetch_reads_clean_columns_linked :
    let c := Connector.ofRows .sqlite Record.linkedTitle
    let w : World Unit Forest := ⟨(), [], titleBehindLink⟩
    let v := ((fetch c ⟨0⟩).perform w).2
    w.state.isNew ⟨1⟩ = true ∧ v.state.keyValue ⟨1⟩ = .int 7 ∧ OnlyReads c [⟨0⟩, ⟨1⟩] w v ∧
      ∃ answers, v.log = answers.map Answer.exchange ∧
        SelectsClean c [⟨0⟩, ⟨1⟩] v.state answers := by
  intro c w v
  have hfetch : (fetch c ⟨0⟩).perform w = (.ok (), v) := Action.perform_eq (by decide +kernel)
  have hbelow : (⟨0⟩ : NodeId) :: (w.state.below ⟨0⟩).preOrder = [⟨0⟩, ⟨1⟩] := by decide
  have horder : (⟨0⟩ : NodeId) :: v.state.boundOrder (w.state.below ⟨0⟩) = [⟨0⟩, ⟨1⟩] := by
    decide +kernel
  obtain ⟨hreads, hall⟩ :=
    fetch_reads_clean_columns operated_titleBehindLink (by decide) (by decide) hfetch
  obtain ⟨answers, hlog, hselects⟩ := hall rfl
  exact ⟨by decide, by decide +kernel, hbelow ▸ hreads, answers, hlog, horder ▸ hselects⟩

end LinkedRows
