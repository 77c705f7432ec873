/-
# Links read before an insertion

Once a save has inserted the row of a joined record, the link of the owner follows it, and what
storage held there before is replaced.  So a save first reads the links that it does not know, where
`hasChanges` says that something will be written behind them.

What is read and what is inserted are two walks.  A record that is inserted was still new when the
links had been resolved, so its link was null then (`link_null_of_isNew`); the point at which the
links of its owner were read had not reached the records joined to it yet (`Visits.spares`), so the
unread links were those from when the save began.  Together they say exactly when a link was read
before a record behind it was inserted: when it was among the unread links.  It need not be, since a
record may also come to be written because a record below it has a key, which `hasChanges` does not
count.
-/

import LinkedRows.Proofs.Attempts
import LinkedRows.Proofs.Forest.Changes
import LinkedRows.Proofs.SaveNew

namespace LinkedRows

open Forest

variable {σ : Type} {c : Connector σ} {w v : World σ Forest} {n : NodeId}

theorem nodup_eraseDups {α : Type} [BEq α] [LawfulBEq α] (l : List α) : l.eraseDups.Nodup := by
  induction hk : l.length using Nat.strongRecOn generalizing l with
  | ind k ih =>
    cases l with
    | nil => exact List.nodup_nil
    | cons x rest =>
      have hle := List.length_filter_le (fun y => !y == x) rest
      rw [List.eraseDups_cons, List.nodup_cons, List.mem_eraseDups, List.mem_filter]
      refine ⟨fun h => by simp at h, ih _ ?_ _ rfl⟩
      rw [← hk, List.length_cons]
      omega

theorem Forest.nodup_unreadLinks (f : Forest) (n : NodeId) : (f.unreadLinks n).Nodup := by
  unfold unreadLinks
  split
  · exact nodup_eraseDups _
  · exact List.nodup_nil

/-! ## Reading the links of a record -/

/-- An unread link that is null once the links were read was asked for, and there was no row or the
link was null in it. -/
theorem readLinks_null (hf : WellFormed w.state) (h : (readLinks c n).perform w = (.ok (), v))
    {d : CellId} (hd : d ∈ w.state.unreadLinks n) (hnull : (v.state.cell d).value = .null) :
    ∃ i p rows, (w.state.unreadLinks n)[i]? = some d ∧
      (w.state.selection n (w.state.unreadLinks n)).prepare c.dialect = .ok p ∧
      (∀ row ∈ rows.head?, (row.get? i).getD .null = .null) ∧
      v.log = w.log ++ [.query p (.ok rows)] := by
  have hcells := List.ne_nil_of_mem hd
  obtain ⟨hmem, -, hclean⟩ := unreadLinks_spec hf hd
  obtain ⟨i, hi⟩ := List.getElem?_of_mem hd
  rw [readLinks, Action.perform_state_bind] at h
  cases hp : (w.state.selection n (w.state.unreadLinks n)).prepare c.dialect with
  | error e =>
    rw [readCells_of_unprepared hcells hp] at h
    cases (Prod.mk.inj h).1
  | ok p =>
    cases hq : (c.query p w.store).1 with
    | error e =>
      rw [readCells_of_refused hcells hp hq] at h
      cases (Prod.mk.inj h).1
    | ok rows =>
      rw [readCells_of_answered hcells hp hq] at h
      obtain ⟨-, rfl⟩ := Prod.mk.inj h
      refine ⟨i, p, rows, hi, rfl, fun row hrow => ?_, by rw [← hq]; rfl⟩
      -- What the row has in the place of the link is what the link holds now.
      cases hv : row.get? i with
      | none => rfl
      | some x =>
        rw [Option.mem_def] at hrow
        rw [hrow] at hnull
        have hload := cell_load_getElem? w.state (nodup_unreadLinks w.state n) hi hv
          (hf.hasCell hmem)
        have hassigned : (w.state.cell d).assigned = none := by
          rwa [Cell.isDirty, Option.isSome_eq_false_iff, Option.isNone_iff_eq_none] at hclean
        have hvalue : ((w.state.cell d).load x).value = .null := by
          rw [← hload]
          exact hnull
        rwa [Cell.load, Cell.value, hassigned] at hvalue

/-- From the first world to the second a join was entered: its child was given a key, if the link
holds one, and only some records were reached. -/
structure Entered (e : EdgeId) (records : List NodeId) (w v : World σ Forest) : Prop extends
    Consults records w v where
  sameNodes : SameNodes w v
  bound : (w.state.cell (w.state.edge e).link).value ≠ .null →
    v.state.isNew (w.state.childOf e) = false

theorem entered_readChild {e : EdgeId} {child : NodeId} (hf : WellFormed w.state)
    (he : w.state.HasEdge e) (hchild : w.state.childOf e = child)
    (hread : (readLinks c child).perform (w.withState (w.state.seedChild e)) = (.ok (), v)) :
    Entered e [child] w v := by
  have hseed := consults_seedChild hf he hchild
  have hs := hseed.learns.steady
  have hr := (consults_readLinks c child (hs.wellFormed hf)).of_perform hread
  have hnode := (sameNodes_readLinks c child (w.withState (w.state.seedChild e))).of_perform hread
  refine ⟨hseed.trans hr, fun m => (hnode m).trans (node_seedChild ..), fun hvalue => ?_⟩
  exact hr.learns.steady.isNew (hs.wellFormed hf) ((hs.shape.hasNode _).2 (hf.hasChild he))
    (isNew_seedChild hf he hvalue)

/-- After that, what is below the child may be resolved. -/
theorem Entered.resolve {e : EdgeId} {child : NodeId} {below : Branches} {r : World σ Forest}
    (h : Entered e [child] w r) (hf : WellFormed w.state) (he : w.state.HasEdge e)
    (hhang : w.state.Hangs child below)
    (hresolve : (resolveBelow c below).perform r = (.ok (), v)) :
    Entered e (child :: below.preOrder) w v := by
  have hs := h.learns.steady
  have hr := (consults_resolveBelow c below (hs.wellFormed hf)
    (hs.shape.hangs hhang)).of_perform hresolve
  have hnodes := (sameNodes_resolveBelow c below r).of_perform hresolve
  refine ⟨(h.toConsults.mono (by simp)).trans (hr.mono fun m hm => List.mem_cons_of_mem _ hm),
    h.sameNodes.trans hnodes, fun hvalue => ?_⟩
  exact hr.learns.steady.isNew (hs.wellFormed hf) ((hs.shape.hasNode _).2 (hf.hasChild he))
    (h.bound hvalue)

/-! ## The points at which links are read -/

/-- From the first world to the second no record that is joined to `n` was reached. -/
structure Spares (n : NodeId) (w v : World σ Forest) : Prop where
  sameNodes : SameNodes w v
  consults : ∃ records, Consults records w v ∧
    ∀ e ∈ (w.state.node n).edges, w.state.childOf e ∉ records

theorem Spares.after {t : World σ Forest} {records : List NodeId} (hlater : Spares n v t)
    (h : Consults records w v) (hnodes : SameNodes w v)
    (hout : ∀ e ∈ (w.state.node n).edges, w.state.childOf e ∉ records) : Spares n w t := by
  obtain ⟨hnodesLater, records', hconsults, houtLater⟩ := hlater
  have hs := h.learns.steady.shape
  refine ⟨hnodes.trans hnodesLater, records ++ records',
    (h.mono fun m hm => List.mem_append_left _ hm).trans
      (hconsults.mono fun m hm => List.mem_append_right _ hm), fun e he hmem => ?_⟩
  rcases List.mem_append.1 hmem with hmem | hmem
  · exact hout e he hmem
  · rw [← hs.childOf] at hmem
    exact houtLater e ((hs.edges n).symm ▸ he) hmem

/-- A record that is not younger than `n` is not joined to it. -/
theorem childOf_ne_of_le {f : Forest} (hf : WellFormed f) {m : NodeId} {e : EdgeId}
    (he : e ∈ (f.node n).edges) (hle : m.index ≤ n.index) : f.childOf e ≠ m := fun h =>
  Nat.not_lt.2 hle (h ▸ index_lt_childOf hf he)

/-- Up to the point at which the links of a record are read, the records joined to it are spared:
its children come later, and no record has two parents. -/
theorem VisitsBelow.spares {b : Branches} {k : NodeId} {t : World σ Forest}
    (h : VisitsBelow c b w n t) (hf : WellFormed w.state) (hb : w.state.Hangs k b)
    (hjoins : b.joins.Nodup) : n ∈ b.preOrder ∧ Spares n w t := by
  induction h generalizing k with
  | deleted hdel _ ih =>
    obtain ⟨-, -, -, -, hnext⟩ := hb
    obtain ⟨hmem, hspares⟩ := ih hf hnext (List.nodup_cons.1 hjoins).2
    exact ⟨Branches.mem_preOrder_cons.2 (Or.inr (Or.inr hmem)), hspares⟩
  | @child e child below next w hdel =>
    obtain ⟨he, hchild, -⟩ := hb
    refine ⟨List.mem_cons_self .., fun _ => node_seedChild .., [child],
      consults_seedChild hf (hf.hasEdge he) hchild, fun e' he' hmem => ?_⟩
    exact childOf_ne_of_le hf he' (Nat.le_refl _) (List.mem_singleton.1 hmem)
  | @deeper e child n below next w r t hdel hread _ ih =>
    obtain ⟨he, hchild, hbelow, hhang, -⟩ := hb
    have hwr := entered_readChild hf (hf.hasEdge he) hchild hread
    have hs := hwr.learns.steady
    obtain ⟨hmem, hspares⟩ := ih (hs.wellFormed hf) (hs.shape.hangs hhang)
      (hbelow ▸ nodup_joins_below hf child)
    refine ⟨Branches.mem_preOrder_cons.2 (Or.inr (Or.inl hmem)),
      hspares.after hwr.toConsults hwr.sameNodes fun e' he' hmem' => ?_⟩
    have hdeep := (lt_of_mem_preOrder hf hhang hmem).1
    exact childOf_ne_of_le hf he' (Nat.le_of_lt hdeep) (List.mem_singleton.1 hmem')
  | @later e child n below next w r s t hdel hread hresolve _ ih =>
    have hchildNext := child_not_mem_next hf hb hjoins
    have hdisjoint (m : NodeId) : m ∈ below.preOrder → m ∉ next.preOrder := fun hm =>
      not_mem_next_of_below hf hb hjoins hm
    obtain ⟨he, hchild, -, hhang, hnext⟩ := hb
    have hedge := hf.hasEdge he
    have hws := (entered_readChild hf hedge hchild hread).resolve hf hedge hhang hresolve
    have hs := hws.learns.steady
    obtain ⟨hmem, hspares⟩ := ih (hs.wellFormed hf) (hs.shape.hangs hnext)
      (List.nodup_cons.1 hjoins).2
    refine ⟨Branches.mem_preOrder_cons.2 (Or.inr (Or.inr hmem)),
      hspares.after hws.toConsults hws.sameNodes fun e' he' hmem' => ?_⟩
    -- The children of a record behind the later joins are behind those joins too.
    have hin := childOf_mem_of_mem hf hnext hmem he'
    rcases List.mem_cons.1 hmem' with heq | hbelow
    · exact hchildNext (heq ▸ hin)
    · exact hdisjoint _ hbelow hin

theorem Visits.spares {root : NodeId} {t : World σ Forest} (h : Visits c root w n t)
    (hf : WellFormed w.state) : Spares n w t := by
  cases h with
  | root =>
    exact ⟨fun _ => rfl, [], Consults.refl _ _, fun _ _ => List.not_mem_nil⟩
  | deeper hdel hread hvisit =>
    have hr := (consults_readLinks c root hf).of_perform hread
    have hs := hr.learns.steady
    have hhang := hangs_below hf root
    obtain ⟨hmem, hspares⟩ := hvisit.spares (hs.wellFormed hf) (hs.shape.hangs hhang)
      (nodup_joins_below hf root)
    refine hspares.after hr ((sameNodes_readLinks c root w).of_perform hread) fun e he hmem' => ?_
    have hdeep := (lt_of_mem_preOrder hf hhang hmem).1
    exact childOf_ne_of_le hf he (Nat.le_of_lt hdeep) (List.mem_singleton.1 hmem')

/-- The unread links of a record with a row stay the same as long as its children are spared. -/
theorem Spares.mem_unreadLinks (h : Spares n w v) (hf : WellFormed w.state)
    (hn : w.state.HasNode n) (hbound : w.state.isNew n = false) (d : CellId) :
    d ∈ v.state.unreadLinks n ↔ d ∈ w.state.unreadLinks n := by
  obtain ⟨hnodes, records, hconsults, hout⟩ := h
  have hs := hconsults.learns.steady
  have hstale : v.state.isStale n = w.state.isStale n := by
    rw [isStale, isStale, isBound, isBound, hs.isNew hf hn hbound, hbound, hnodes]
  have hdirty (e : EdgeId) (he : e ∈ (w.state.node n).edges) :
      (v.state.cell (w.state.edge e).link).isDirty =
        (w.state.cell (w.state.edge e).link).isDirty := by
    have hmem := hf.link_mem (hf.hasEdge he)
    rw [hf.owner_of_edge he] at hmem
    cases hk : (w.state.cell (w.state.edge e).link).isKey with
    | false => rw [Cell.isDirty, Cell.isDirty, hconsults.learns.assigned hf hk]
    | true =>
      -- A link that is the key of a record with a row is assigned, and stays so.
      have hdirty : (w.state.cell (w.state.edge e).link).isDirty = true := by
        rwa [isNew, Bool.not_eq_false', (hf.isKey_of_mem hmem).1 hk] at hbound
      rw [hdirty, hs.keyDirty hk hdirty]
  rw [mem_unreadLinks_iff, mem_unreadLinks_iff, hstale, hs.shape.edges]
  refine and_congr_right fun _ => exists_congr fun e => and_congr_right fun he => ?_
  have hhas := hf.hasChild (hf.hasEdge he)
  rw [hs.shape.edge, hconsults.reaches.isNew hf hhas (hout e he), hnodes, hdirty e he,
    hconsults.learns.hasChanges hf hhas]

/-! ## What an insertion presupposes -/

/-- A write that is attempted for what is behind joins is the one planned for the child of a kept
join. -/
theorem AttemptsBelow.planned {b : Branches} {u : World σ Forest} {write : Write}
    (h : AttemptsBelow c b w write u) (hf : WellFormed w.state) (hb : w.state.Hangs n b) :
    Steady w.state u.state ∧ w.log <+: u.log ∧
      ∃ e ∈ w.state.keptJoins b, u.state.planSave? (w.state.childOf e) false = some write := by
  induction h generalizing n with
  | deleted hdel _ ih =>
    obtain ⟨-, -, -, -, hnext⟩ := hb
    rw [keptJoins_deleted hdel]
    exact ih hf hnext
  | deeper hdel _ ih =>
    obtain ⟨-, -, -, hhang, -⟩ := hb
    obtain ⟨hs, hlog, e, he, hplan⟩ := ih hf hhang
    exact ⟨hs, hlog, e, (mem_keptJoins_kept hdel).2 (Or.inr (Or.inl he)), hplan⟩
  | @child e child _ _ _ _ _ _ hdel hbelow hplan =>
    obtain ⟨-, hchild, -, hhang, -⟩ := hb
    obtain ⟨-, hs, -⟩ := hbelow.reaches hf hhang
    exact ⟨hs, hbelow.executes.1, e, (mem_keptJoins_kept hdel).2 (Or.inl rfl), hchild ▸ hplan⟩
  | @later e child _ _ w _ t _ _ _ _ hdel hbelow hnode _ ih =>
    obtain ⟨he, hchild, -, hhang, hnext⟩ := hb
    obtain ⟨-, -, hs⟩ := hbelow.steady_child hnode hf he hchild hhang
    obtain ⟨hs', hlog, e', he', hplan⟩ := ih (hs.wellFormed hf) (hs.shape.hangs hnext)
    rw [World.withState, hs.keptJoins] at he'
    rw [World.withState, hs.shape.childOf] at hplan
    exact ⟨hs.trans hs', (hbelow.executes.1.trans hnode.executes.1).trans hlog, e',
      (mem_keptJoins_kept hdel).2 (Or.inr (Or.inr he')), hplan⟩

/-- A child that is still new when its join was resolved has a link that is null. -/
theorem link_null_of_isNew {b : Branches} {e : EdgeId} (hf : WellFormed w.state)
    (hb : w.state.Hangs n b) (hresolve : (resolveBelow c b).perform w = (.ok (), v))
    (he : e ∈ b.joins) (hkept : (w.state.node (w.state.edge e).child).deleted = false)
    (hnew : v.state.isNew (w.state.edge e).child = true) :
    (w.state.cell (w.state.edge e).link).value = .null := by
  induction b generalizing n w with
  | nil => exact absurd he List.not_mem_nil
  | cons e' child below next _ ihNext =>
    obtain ⟨he', hchild, -, hhang, hnext⟩ := hb
    have hedge' := hf.hasEdge he'
    cases hdel : (w.state.node child).deleted with
    | true =>
      rw [perform_resolveBelow_deleted hdel] at hresolve
      rcases List.mem_cons.1 he with rfl | he
      · rw [show (w.state.edge e).child = child from hchild, hdel] at hkept
        cases hkept
      · exact ihNext hf hnext hresolve he hkept hnew
    | false =>
      rw [perform_resolveBelow_kept hdel] at hresolve
      obtain ⟨⟨⟩, r, hread, hresolve⟩ := Action.perform_bind_eq_ok.1 hresolve
      obtain ⟨⟨⟩, s, hbelow, hlater⟩ := Action.perform_bind_eq_ok.1 hresolve
      have hws := (entered_readChild hf hedge' hchild hread).resolve hf hedge' hhang hbelow
      have hs := hws.learns.steady
      have hfs := hs.wellFormed hf
      have hsv := (consults_resolveBelow c next hfs (hs.shape.hangs hnext)).of_perform hlater
      rcases List.mem_cons.1 he with rfl | he
      · -- A link that is not null gives the child a key, which the child keeps.
        by_contra hvalue
        have hbound := hsv.learns.steady.isNew hfs
          ((hs.shape.hasNode _).2 (hf.hasChild hedge')) (hws.bound hvalue)
        exact Bool.false_ne_true (hbound.symm.trans hnew)
      · have hedge := hf.hasEdge (edges_of_joins hnext he)
        have hlink := ihNext hfs (hs.shape.hangs hnext) hlater he
          (by rwa [hs.shape.edge, hs.deleted]) (by rwa [hs.shape.edge])
        rw [hs.shape.edge, hws.cell] at hlink
        · exact hlink
        rw [hf.owner_link hedge, hf.owner_of_edge (edges_of_joins hnext he), List.mem_cons, not_or]
        refine ⟨fun h => ?_, fun h => ?_⟩
        · have hlt := index_lt_childOf hf he'
          rw [hchild, ← h] at hlt
          exact Nat.lt_irrefl _ hlt
        · have hlt := index_lt_childOf hf he'
          rw [hchild] at hlt
          exact Nat.lt_asymm hlt (lt_of_mem_preOrder hf hhang h).1

/-- Before the child of a kept join came out of resolving as a new one, the links of the owner were
read, unless the joins start at the owner, and then the link was null. -/
theorem visitsBelow_of_isNew {b : Branches} {e : EdgeId} (hf : WellFormed w.state)
    (hb : w.state.Hangs n b) (hresolve : (resolveBelow c b).perform w = (.ok (), v))
    (he : e ∈ w.state.keptJoins b) (hnew : v.state.isNew (w.state.edge e).child = true) :
    e ∈ b.joins ∨ ∃ t t', VisitsBelow c b w (w.state.edge e).owner t ∧
      (readLinks c (w.state.edge e).owner).perform t = (.ok (), t') ∧ t'.log <+: v.log ∧
        (t'.state.cell (w.state.edge e).link).value = .null := by
  induction b generalizing n w v with
  | nil => exact absurd he List.not_mem_nil
  | cons e' child below next ihBelow ihNext =>
    obtain ⟨he', hchild, hbelow, hhang, hnext⟩ := hb
    have hedge' := hf.hasEdge he'
    cases hdel : (w.state.node child).deleted with
    | true =>
      rw [perform_resolveBelow_deleted hdel] at hresolve
      rw [keptJoins_deleted hdel] at he
      refine (ihNext hf hnext hresolve he hnew).imp (List.mem_cons_of_mem _) ?_
      rintro ⟨t, t', hvisit, hrest⟩
      exact ⟨t, t', .deleted hdel hvisit, hrest⟩
    | false =>
      rw [perform_resolveBelow_kept hdel] at hresolve
      obtain ⟨⟨⟩, r, hread, hresolve⟩ := Action.perform_bind_eq_ok.1 hresolve
      obtain ⟨⟨⟩, s, hbelowRun, hlater⟩ := Action.perform_bind_eq_ok.1 hresolve
      have hwr := entered_readChild hf hedge' hchild hread
      have hws := hwr.resolve hf hedge' hhang hbelowRun
      have hsr := hwr.learns.steady
      have hss := hws.learns.steady
      have hfr := hsr.wellFormed hf
      have hfs := hss.wellFormed hf
      have hrs := (consults_resolveBelow c below hfr (hsr.shape.hangs hhang)).of_perform hbelowRun
      have hsv := (consults_resolveBelow c next hfs (hss.shape.hangs hnext)).of_perform hlater
      rw [mem_keptJoins_kept hdel] at he
      rcases he with rfl | he | he
      · exact Or.inl (List.mem_cons_self ..)
      · -- The join is below the child.
        obtain ⟨hedge, hkept, -⟩ := kept_spec hf hhang he
        have hnewBelow : s.state.isNew (r.state.edge e).child = true := by
          rw [hsr.shape.edge]
          exact hsv.learns.steady.wasNew hfs ((hss.shape.hasNode _).2 (hf.hasChild hedge)) hnew
        refine Or.inr ?_
        rcases ihBelow hfr (hsr.shape.hangs hhang) hbelowRun (hsr.keptJoins ▸ he) hnewBelow with
          htop | ⟨t, t', hvisit, hreadOwner, hlog, hnull⟩
        · have hnull := link_null_of_isNew hfr (hsr.shape.hangs hhang) hbelowRun htop
            (by rwa [hsr.shape.edge, hsr.deleted]) hnewBelow
          have howner : (w.state.edge e).owner = child :=
            hf.owner_of_edge (edges_of_joins hhang htop)
          rw [hsr.shape.edge] at hnull
          rw [howner]
          exact ⟨_, r, .child hdel, hread, hrs.asks.goesOn.trans hsv.asks.goesOn, hnull⟩
        · rw [hsr.shape.edge] at hvisit hreadOwner hnull
          exact ⟨t, t', .deeper hdel hread hvisit, hreadOwner, hlog.trans hsv.asks.goesOn, hnull⟩
      · have hnewNext : v.state.isNew (s.state.edge e).child = true := by rwa [hss.shape.edge]
        refine (ihNext hfs (hss.shape.hangs hnext) hlater (hss.keptJoins ▸ he) hnewNext).imp
          (List.mem_cons_of_mem _) ?_
        rintro ⟨t, t', hvisit, hreadOwner, hlog, hnull⟩
        rw [hss.shape.edge] at hvisit hreadOwner hnull
        exact ⟨t, t', .later hdel hread hbelowRun hvisit, hreadOwner, hlog, hnull⟩

/-- Before a save inserts a joined record, it has come to read the links of the owner, and the link
was null after that. -/
theorem Attempts.visit_of_insert {root m : NodeId} {table : String} {cells : List CellId}
    {fields : List (String × Value)} {u : World σ Forest} {e : EdgeId} (hf : WellFormed w.state)
    (h : Attempts c root w (.insert m table cells fields) u)
    (hroot : (w.state.node root).parent = none) (hparent : (w.state.node m).parent = some e) :
    ∃ t t', Visits c root w (w.state.edge e).owner t ∧
      (readLinks c (w.state.edge e).owner).perform t = (.ok (), t') ∧ t'.log <+: u.log ∧
        (t'.state.cell (w.state.edge e).link).value = .null := by
  have hhang := hangs_below hf root
  cases h with
  | root _ _ _ _ hplan =>
    -- A root is inserted as itself, and no join leads to it.
    rcases planSave?_eq_some hplan with ⟨_, -, hwrite⟩ | ⟨_, -, -, hwrite⟩
    · obtain rfl := (Write.insert.inj hwrite).1
      cases hroot.symm.trans hparent
    · cases hwrite
  | @deeper r s _ _ hdel hread hresolve hbelow =>
    have hr := (consults_readLinks c root hf).of_perform hread
    have hsr := hr.learns.steady
    have hfr := hsr.wellFormed hf
    have hrs := (consults_resolveBelow c _ hfr (hsr.shape.hangs hhang)).of_perform hresolve
    have hss := hsr.trans hrs.learns.steady
    have hfs := hss.wellFormed hf
    obtain ⟨hsu, hlog, e', he', hplan⟩ := hbelow.planned hfs (hss.shape.hangs hhang)
    rw [hss.shape.childOf] at hplan
    rw [hss.keptJoins] at he'
    obtain ⟨hedge, hkept, -⟩ := kept_spec hf hhang he'
    obtain ⟨hmnew, rfl⟩ : u.state.isNew (w.state.childOf e') = true ∧ m = w.state.childOf e' := by
      rcases planSave?_eq_some hplan with ⟨_, hnew, hwrite⟩ | ⟨_, -, -, hwrite⟩
      · exact ⟨hnew, (Write.insert.inj hwrite).1⟩
      · cases hwrite
    obtain rfl : e' = e := Option.some.inj ((hf.parent_child hedge).symm.trans hparent)
    -- What is new when it is inserted was new when the links had been resolved.
    have hrnew : s.state.isNew (r.state.edge e').child = true := by
      rw [hsr.shape.edge]
      exact hsu.wasNew hfs ((hss.shape.hasNode _).2 (hf.hasChild hedge)) hmnew
    rcases visitsBelow_of_isNew hfr (hsr.shape.hangs hhang) hresolve (hsr.keptJoins ▸ he') hrnew
      with htop | ⟨t, t', hvisit, hreadOwner, hlog', hnull⟩
    · have hnull := link_null_of_isNew hfr (hsr.shape.hangs hhang) hresolve htop
        (by rwa [hsr.shape.edge, hsr.deleted]) hrnew
      rw [hsr.shape.edge] at hnull
      rw [hf.owner_of_edge (edges_of_joins hhang htop)]
      exact ⟨w, r, .root hdel, hread, hrs.asks.goesOn.trans hlog, hnull⟩
    · rw [hsr.shape.edge] at hvisit hreadOwner hnull
      exact ⟨t, t', .deeper hdel hread hvisit, hreadOwner, hlog'.trans hlog, hnull⟩

/-- A save has asked for a link of a record, with all that it did not know of the row, and there was
no row or the link was null in it. -/
def FoundEmpty (c : Connector σ) (root : NodeId) (w : World σ Forest) (n : NodeId) (link : CellId)
    (log : List Exchange) : Prop :=
  ∃ t i p rows, Visits c root w n t ∧ (t.state.unreadLinks n)[i]? = some link ∧
    (w.state.selection n (t.state.unreadLinks n)).prepare c.dialect = .ok p ∧
    (∀ row ∈ rows.head?, (row.get? i).getD .null = .null) ∧ w.log <+: t.log ∧
    t.log ++ [.query p (.ok rows)] <+: log

/-- Links are found empty before the insertion of a record behind them if they were unread. -/
theorem Attempts.foundEmpty_iff {root m : NodeId} {table : String} {cells : List CellId}
    {fields : List (String × Value)} {u : World σ Forest} {e : EdgeId} (hf : WellFormed w.state)
    (h : Attempts c root w (.insert m table cells fields) u)
    (hroot : (w.state.node root).parent = none) (hparent : (w.state.node m).parent = some e)
    (hbound : w.state.isNew (w.state.edge e).owner = false) :
    FoundEmpty c root w (w.state.edge e).owner (w.state.edge e).link u.log ↔
      (w.state.edge e).link ∈ w.state.unreadLinks (w.state.edge e).owner := by
  have howner := hf.hasEdgeOwner (hf.edge_of_parent hparent).1
  constructor
  · rintro ⟨t, i, p, rows, hvisit, hi, -⟩
    exact ((hvisit.spares hf).mem_unreadLinks hf howner hbound _).1 (List.mem_of_getElem? hi)
  · intro hunread
    obtain ⟨t, t', hvisit, hread, hlog, hnull⟩ := h.visit_of_insert hf hroot hparent
    have hspares := hvisit.spares hf
    obtain ⟨records, hconsults, -⟩ := hspares.consults
    obtain ⟨i, p, rows, hi, hp, hempty, hasked⟩ :=
      readLinks_null (hconsults.learns.steady.wellFormed hf) hread
        ((hspares.mem_unreadLinks hf howner hbound _).2 hunread) hnull
    rw [hconsults.learns.selection hf howner hbound] at hp
    exact ⟨t, i, p, rows, hvisit, hi, hp, hempty, hconsults.asks.goesOn, hasked ▸ hlog⟩

namespace Record

variable {r : Record}

/-- **A link is read before a record is inserted behind it exactly if changes were seen there.**  In
every reachable state, for every connector, whether the save succeeds or fails: each execution in
its log is the statement of a write that the save attempted, with the log up to there before it.
And if it attempts to insert a record whose owner had a row and was stale, and whose link was not
assigned, then it has asked for that link in the owner's row and found no row or null there, if and
only if the link leads to some new record, not deleted, that had changes when the save began. -/
theorem insert_read_iff (hreach : Reachable c r w) :
    (∀ l p reply, w.log <+: l → l ++ [.execute p reply] <+: ((r.save c).perform w).2.log →
      ∃ write u, Attempts c r.root w write u ∧ u.log = l ∧
        write.statement.prepare c.dialect = .ok p) ∧
    ∀ m table cells fields u e, Attempts c r.root w (.insert m table cells fields) u →
      (w.state.node m).parent = some e → w.state.isStale (w.state.edge e).owner = true →
      (w.state.cell (w.state.edge e).link).isDirty = false →
      (FoundEmpty c r.root w (w.state.edge e).owner (w.state.edge e).link u.log ↔
        ∃ e' ∈ (w.state.node (w.state.edge e).owner).edges,
          (w.state.edge e').link = (w.state.edge e).link ∧
          w.state.isNew (w.state.edge e').child = true ∧
          (w.state.node (w.state.edge e').child).deleted = false ∧
          w.state.hasChanges (w.state.edge e').child = true) := by
  obtain ⟨hf, -⟩ := hreach.consistent
  constructor
  · have hlog : (r.save c).Ensures w fun _ v =>
        Accounts (Due c (Visits c r.root w) (Attempts c r.root w)) w.log v.log :=
      Action.Ensures.bind (save_accounts r.root w) (fun _ _ h => h) fun _ _ h => h
    exact fun l p reply hold hnew => hlog.2 l _ hold hnew
  · intro m table cells fields u e hattempt hparent hstale hclean
    rw [hattempt.foundEmpty_iff hf.toWellFormed hreach.parent_root hparent
      (isNew_of_isStale hstale), mem_unreadLinks_iff, and_iff_right hstale]
    refine exists_congr fun e' => and_congr_right fun _ => and_congr_right fun hlink => ?_
    rw [hlink, and_iff_right hclean]

/-! ## A title that is assigned, and a key further down -/

/-- With a title assigned to the joined record, the link is asked for and no row is found. -/
theorem insert_read_title :
    let opened := Record.create "table0" none (some (.int 1)) .standard
    let c := Connector.counting
    let w := opened.1.after c [.register "table1.title", .set "table1.title" (.text "A")]
      ⟨0, [], opened.2⟩
    ∃ u, Attempts c ⟨0⟩ w (.insert ⟨1⟩ "table1" [⟨3⟩] [("title", .text "A")]) u ∧
      FoundEmpty c ⟨0⟩ w ⟨0⟩ ⟨1⟩ u.log := by
  intro opened c w
  have hreach : Reachable c opened.1 w :=
    (Reachable.create 0 "table0" none (some (.int 1)) .standard).after
      [.register "table1.title", .set "table1.title" (.text "A")]
  have hbelow : w.state.below ⟨0⟩ = .cons ⟨0⟩ ⟨1⟩ .nil .nil := by decide +kernel
  have hread : ((readLinks c ⟨0⟩).perform w).1 = .ok () := by decide +kernel
  have hresolve : ((resolveBelow c (w.state.below ⟨0⟩)).perform
      ((readLinks c ⟨0⟩).perform w).2).1 = .ok () := by decide +kernel
  have hattempt : Attempts c ⟨0⟩ w (.insert ⟨1⟩ "table1" [⟨3⟩] [("title", .text "A")])
      ((resolveBelow c (w.state.below ⟨0⟩)).perform ((readLinks c ⟨0⟩).perform w).2).2 := by
    refine .deeper (by decide +kernel) (Action.perform_eq hread) (Action.perform_eq hresolve) ?_
    rw [hbelow]
    exact .child (by decide +kernel) .nil (by decide +kernel)
  have hparent : (w.state.node ⟨1⟩).parent = some ⟨0⟩ := by decide +kernel
  have howner : (w.state.edge ⟨0⟩).owner = ⟨0⟩ := by decide +kernel
  have hlink : (w.state.edge ⟨0⟩).link = ⟨1⟩ := by decide +kernel
  have hfound := ((insert_read_iff hreach).2 _ _ _ _ _ ⟨0⟩ hattempt hparent (by decide +kernel)
    (by decide +kernel)).2 ⟨⟨0⟩, by decide +kernel⟩
  rw [howner, hlink] at hfound
  exact ⟨_, hattempt, hfound⟩

/-- With nothing but a key assigned, below the joined record, that record is inserted and the link
replaced, and the link was never asked for. -/
theorem insert_unread_link :
    let opened := Record.create "table0" none (some (.int 1)) .standard
    let c := Connector.counting
    let w := opened.1.after c
      [.register "table1.table2.title", .set "table1.table2.id" (.int 8)] ⟨0, [], opened.2⟩
    Reachable c opened.1 w ∧ (w.state.node ⟨1⟩).parent = some ⟨0⟩ ∧
      w.state.isStale (w.state.edge ⟨0⟩).owner = true ∧
      (w.state.cell (w.state.edge ⟨0⟩).link).name = "table1_id" ∧
      (w.state.cell (w.state.edge ⟨0⟩).link).isDirty = false ∧
      executed ((opened.1.save c).perform w).2.log =
        [⟨"INSERT INTO \"table1\" (\"table2_id\") VALUES (8)", []⟩,
          ⟨"UPDATE \"table0\" SET \"table1_id\" = 1 WHERE \"id\" = 1", []⟩] ∧
      ((opened.1.save c).perform w).2.log.any Exchange.isQuery = false := by
  intro opened c w
  have hreach : Reachable c opened.1 w :=
    (Reachable.create 0 "table0" none (some (.int 1)) .standard).after
      [.register "table1.table2.title", .set "table1.table2.id" (.int 8)]
  refine ⟨hreach, by decide +kernel, by decide +kernel, by decide +kernel, by decide +kernel,
    by decide +kernel, by decide +kernel⟩

end Record
end LinkedRows
