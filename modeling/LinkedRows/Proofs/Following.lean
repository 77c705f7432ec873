/-
# Forests that follow a database

The forest of a record follows a database if it mirrors it, no row hangs from a record without one,
and all keys can be written, so that no query fails (`Follows`).

A fetch from a record with a row makes everything below it known: each record there that stands for
a row has learned its key and is current (`fetchTree_known`).  So that a record joined later is
known too, the links of all current records are handed on (`LinksSeeded`), which fetching keeps.

A column of a known record holds what it shall hold (`value_of_known`).  Reading a column fetches
from the topmost stale record on the way down to it, so all records on the way are known then, and
what it shall hold is what is read (`get_of_resolved`).
-/

import LinkedRows.Proofs.Forest.Mirror
import LinkedRows.Proofs.Request

namespace LinkedRows

open Forest

variable {σ : Type} {c : Connector σ} {db : Database} {still : σ → Prop} {f g : Forest}
  {keys : NodeId → Value}

namespace Forest

/-- The forest mirrors a database that can be read. -/
structure Follows (c : Connector σ) (db : Database) (f : Forest) (keys : NodeId → Value) : Prop
    extends Mirrors db f keys where
  grounded {e} : f.HasEdge e → keys (f.edge e).owner = .null → keys (f.edge e).child = .null
  writes {n} : f.HasNode n → c.dialect.Writes (keys n)
  root {n} : f.HasNode n → (f.node n).parent = none → f.isNew n = false

/-- A record that stands for a row has learned its key, and is current. -/
def Known (f : Forest) (keys : NodeId → Value) (n : NodeId) : Prop :=
  keys n ≠ .null → f.isNew n = false ∧ (f.node n).current = true

/-- The links of current records have been handed on. -/
def LinksSeeded (f : Forest) (keys : NodeId → Value) : Prop :=
  ∀ e, f.HasEdge e → f.isNew (f.edge e).owner = false → (f.node (f.edge e).owner).current = true →
    keys (f.edge e).child ≠ .null → f.isNew (f.edge e).child = false

end Forest

/-! ## Fetching -/

variable {w v : World σ Forest} {n : NodeId}

/-- A fetch that went well: the store is still the same, the forest follows the database, what was
loaded is true and of records with a row, no record that was current is stale, and none became
current without a row. -/
structure Fetched (c : Connector σ) (db : Database) (still : σ → Prop) (keys : NodeId → Value)
    (w v : World σ Forest) : Prop where
  still : still v.store
  follows : Follows c db v.state keys
  learns : Learns w.state v.state
  loaded {d} : w.state.HasCell d → (w.state.cell d).isKey = false →
    (v.state.cell d).stored = (w.state.cell d).stored ∨
      v.state.isNew (w.state.cell d).owner = false ∧
        (v.state.cell d).stored = w.state.truth db keys d
  current (m) : (w.state.node m).current = true → (v.state.node m).current = true
  raised (m) : (v.state.node m).current = true →
    (w.state.node m).current = true ∨ v.state.isNew m = false

theorem Fetched.refl (hstill : still w.store) (hf : Follows c db w.state keys) :
    Fetched c db still keys w w :=
  ⟨hstill, hf, Learns.refl, fun _ _ => Or.inl rfl, fun _ h => h, fun _ h => Or.inl h⟩

theorem Fetched.trans {u : World σ Forest} (h : Fetched c db still keys w v)
    (h' : Fetched c db still keys v u) : Fetched c db still keys w u where
  still := h'.still
  follows := h'.follows
  learns := h.learns.trans h'.learns
  loaded {d} hd hk := by
    have hs := h.learns.steady.shape
    rw [← truth_of_sameShape hs]
    have hwf := h.follows.toWellFormed
    rcases h'.loaded ((hs.hasCell d).2 hd) ((hs.isKey d).trans hk) with hsame | ⟨hbound, htrue⟩
    · rw [hsame, truth_of_sameShape hs]
      refine (h.loaded hd hk).imp_right (And.imp_left fun hbound => ?_)
      refine h'.learns.steady.isNew hwf ?_ hbound
      rw [← hs.owner]
      exact hwf.hasOwner ((hs.hasCell d).2 hd)
    · rw [hs.owner] at hbound
      exact Or.inr ⟨hbound, htrue⟩
  current m hm := h'.current m (h.current m hm)
  raised m hm := by
    rcases h'.raised m hm with hv | hbound
    · refine (h.raised m hv).imp_right fun hbound => ?_
      exact h'.learns.steady.isNew h.follows.toWellFormed (hasNode_of_current hv) hbound
    · exact Or.inr hbound

/-- What is known stays known. -/
theorem Fetched.known (h : Fetched c db still keys w v) (hf : WellFormed w.state) {m : NodeId}
    (hm : w.state.HasNode m) (hk : w.state.Known keys m) : v.state.Known keys m := fun hkey =>
  ⟨h.learns.steady.isNew hf hm (hk hkey).1, h.current m (hk hkey).2⟩

/-- Learning keeps following, if what is learned is true. -/
theorem Forest.Follows.learns (hf : Follows c db f keys) (h : Learns f g) (hm : Mirrors db g keys) :
    Follows c db g keys where
  toMirrors := hm
  grounded {e} he := by
    rw [h.steady.shape.edge]
    exact hf.grounded ((h.steady.shape.hasEdge e).1 he)
  writes hn := hf.writes ((h.steady.shape.hasNode _).1 hn)
  root {n} hn hroot := by
    have hn := (h.steady.shape.hasNode n).1 hn
    rw [h.steady.shape.parent] at hroot
    exact h.steady.isNew hf.toWellFormed hn (hf.root hn hroot)

/-- Reading columns that are not assigned gives them what storage holds. -/
theorem readCells_fetched (hserves : Serves c db still) (hstill : still w.store)
    (hf : Follows c db w.state keys) (hn : w.state.HasNode n) (hbound : w.state.isNew n = false)
    {cells : List CellId} (hcells : ∀ d ∈ cells, d ∈ (w.state.node n).cells ∧
      (w.state.cell d).isKey = false ∧ (w.state.cell d).isDirty = false) :
    ∃ v, (readCells c n cells).perform w = (.ok (), v) ∧ Fetched c db still keys w v ∧
      ∀ d ∈ cells, (v.state.cell d).stored = w.state.truth db keys d := by
  have hwf := hf.toWellFormed
  by_cases hnil : cells = []
  · rw [hnil]
    exact ⟨w, rfl, Fetched.refl hstill hf, fun d hd => absurd hd List.not_mem_nil⟩
  obtain ⟨hkey, hnull⟩ := hf.bound hn hbound
  have hrowKey : w.state.rowKey n = ⟨w.state.keyName n, keys n⟩ := by rw [rowKey, hkey]
  have hwrites : c.dialect.Writes (w.state.rowKey n).value := by
    rw [hrowKey]
    exact hf.writes hn
  obtain ⟨p, hp⟩ := hwrites.prepare_select (w.state.node n).table
    (cells.map fun d => (w.state.cell d).name)
  obtain ⟨hreply, hstill'⟩ := hserves.answers hstill (by simpa using hnil)
    (show (w.state.rowKey n).value ≠ .null by rwa [hrowKey]) hp
  rw [hrowKey] at hreply
  refine ⟨_, readCells_of_answered hnil hp (by rw [hreply]), ?_⟩
  cases hrow : db.row? (w.state.node n).table ⟨w.state.keyName n, keys n⟩ with
  | none =>
    rw [db.rows_of_no_row hrow]
    refine ⟨⟨hstill', hf, Learns.refl, fun _ _ => Or.inl rfl, fun _ h => h, fun _ h => Or.inl h⟩,
      fun d hd => ?_⟩
    obtain ⟨hmem, hk, -⟩ := hcells d hd
    have habsent : ¬w.state.RowFound db keys n := fun h => h.2 hrow
    rcases hf.absent hmem habsent hk with h | h
    · exact h.trans (truth_of_not_rowFound hwf hmem hk habsent).symm
    · exact h
  | some row =>
    have hvalues := map_truth_of_row hwf
      (fun d hd => ⟨(hcells d hd).1, (hcells d hd).2.1⟩) hnull hrow
    rw [db.rows_of_row hrow, hvalues]
    have hlearns : Learns w.state (w.state.load cells (cells.map (w.state.truth db keys))) :=
      Learns.refl.load _ hcells
    refine ⟨⟨hstill', ?_, hlearns, fun {d} hd _ => ?_, fun m h => ?_, fun m h => Or.inl ?_⟩,
      fun d hd => ?_⟩
    · exact hf.learns hlearns (hf.toMirrors.load fun d hd => (hcells d hd).2.1)
    · show ((w.state.load _ _).cell d).stored = _ ∨ _ ∧ ((w.state.load _ _).cell d).stored = _
      rw [cell_load_map _ _ _ hd]
      split
      · rename_i hmem
        refine Or.inr ⟨?_, rfl⟩
        rw [hwf.owner_of_mem (hcells d hmem).1]
        exact hlearns.steady.isNew hwf hn hbound
      · exact Or.inl rfl
    · show ((w.state.load _ _).node m).current = true
      rwa [node_load]
    · replace h : ((w.state.load _ _).node m).current = true := h
      rwa [node_load] at h
    · show ((w.state.load _ _).cell d).stored = _
      rw [cell_load_map _ _ _ (hwf.hasCell (hcells d hd).1), if_pos hd]
      rfl

/-- Fetching a record that has a row makes it current. -/
theorem fetchNode_fetched (hserves : Serves c db still) (hstill : still w.store)
    (hf : Follows c db w.state keys) (hn : w.state.HasNode n) (hbound : w.state.isNew n = false) :
    ∃ v, (fetchNode c n).perform w = (.ok (), v) ∧ Fetched c db still keys w v ∧
      (v.state.node n).current = true := by
  obtain ⟨u, hread, hfetched, hstored⟩ := readCells_fetched hserves hstill hf hn hbound
    fun d hd => mem_cleanCells hf.toWellFormed hbound hd
  have hs := hfetched.learns.steady
  have hboundU := hs.isNew hf.toWellFormed hn hbound
  have hnU := (hs.shape.hasNode n).2 hn
  have hcurrentNode := steady_setCurrent u.state n true
  have hmirrors : Mirrors db (u.state.setCurrent n true) keys := by
    refine hfetched.follows.toMirrors.setCurrent fun d hmem hk hclean => ?_
    rw [hs.shape.cells] at hmem
    rw [truth_of_sameShape hs.shape]
    refine hstored d (List.mem_filter.2 ⟨hmem, ?_⟩)
    have hassigned := hfetched.learns.assigned hf.toWellFormed ((hs.shape.isKey d).symm.trans hk)
    rw [Cell.isDirty, hassigned] at hclean
    rw [Cell.isDirty, hclean]
    rfl
  refine ⟨u.withState (u.state.setCurrent n true), ?_,
    ⟨hfetched.still, ?_, ?_, fun {d} hd hk => ?_, fun m hm => ?_, fun m hm => ?_⟩, ?_⟩
  · rw [fetchNode, Action.perform_state_bind, Action.perform_bind_ok hread]
    rfl
  · exact hfetched.follows.learns (Learns.refl.setCurrent n true) hmirrors
  · exact hfetched.learns.setCurrent n true
  · refine (hfetched.loaded hd hk).imp_right (And.imp_left fun hbound => ?_)
    refine hcurrentNode.isNew hfetched.follows.toWellFormed ?_ hbound
    exact (hs.shape.hasNode _).2 (hf.hasOwner hd)
  · show ((u.state.setCurrent n true).node m).current = true
    rw [setCurrent, node_modifyNode]
    split
    · rfl
    · exact hfetched.current m hm
  · replace hm : ((u.state.setCurrent n true).node m).current = true := hm
    rw [setCurrent, node_modifyNode] at hm
    split at hm
    · rename_i hmn
      rw [hmn.1]
      exact Or.inr (hcurrentNode.isNew hfetched.follows.toWellFormed hnU hboundU)
    · refine (hfetched.raised m hm).imp_right fun hbound => ?_
      exact hcurrentNode.isNew hfetched.follows.toWellFormed (hasNode_of_current hm) hbound
  · show ((u.state.setCurrent n true).node n).current = true
    rw [setCurrent, node_modifyNode, if_pos ⟨rfl, hnU⟩]

/-- Below a record that stands for no row no record stands for one. -/
theorem keys_below_of_null (hf : Follows c db f keys) {b : Branches} (hb : f.Hangs n b)
    (h : keys n = .null) : ∀ m ∈ b.preOrder, keys m = .null := by
  induction b generalizing n with
  | nil => exact fun _ hm => absurd hm List.not_mem_nil
  | cons e child below next ihBelow ihNext =>
    obtain ⟨he, rfl, -, hbelow, hnext⟩ := hb
    have hchild : keys (f.childOf e) = .null :=
      hf.grounded (hf.hasEdge he) (by rwa [hf.owner_of_edge he])
    intro m hm
    rw [Branches.mem_preOrder_cons] at hm
    rcases hm with rfl | hm | hm
    · exact hchild
    · exact ihBelow hbelow hchild m hm
    · exact ihNext hnext h m hm

/-- Handing a link on to its child. -/
theorem seedChild_fetched (hstill : still w.store) (hf : Follows c db w.state keys) {e : EdgeId}
    (he : w.state.HasEdge e) :
    Fetched c db still keys w (w.withState (w.state.seedChild e)) where
  still := hstill
  follows := hf.learns (Learns.refl.seed he) (hf.toMirrors.seedChild he)
  learns := Learns.refl.seed he
  loaded {d} _ hk := by
    show ((w.state.seedChild e).cell d).stored = _ ∨ _
    rw [cell_seedChild_of_ne]
    · exact Or.inl rfl
    · rintro rfl
      rw [isKey_key hf.toWellFormed (hf.hasChild he)] at hk
      exact Bool.false_ne_true hk.symm
  current m hm := by
    show ((w.state.seedChild e).node m).current = true
    rwa [node_seedChild]
  raised m hm := by
    replace hm : ((w.state.seedChild e).node m).current = true := hm
    rw [node_seedChild] at hm
    exact Or.inl hm

/-- A child that stands for a row has its key after its link was handed on, if the owner of the
link is known. -/
theorem isNew_seedChild_of_known (hf : Follows c db f keys) {e : EdgeId} (he : f.HasEdge e)
    (hknown : f.Known keys (f.edge e).owner) (hkey : keys (f.edge e).child ≠ .null) :
    (f.seedChild e).isNew (f.edge e).child = false := by
  have hwf := hf.toWellFormed
  obtain ⟨hbound, hcurrent⟩ := hknown fun h => hkey (hf.grounded he h)
  have hlink := hf.toMirrors.key_of_current he hbound hcurrent
  exact isNew_seedChild hwf he (hlink ▸ hkey)

/-- Fetching what is behind the joins of a known record makes all records there known. -/
theorem fetchBelow_known (hserves : Serves c db still) (b : Branches) (hstill : still w.store)
    (hf : Follows c db w.state keys) (hb : w.state.Hangs n b) (hknown : w.state.Known keys n) :
    ∃ v, (fetchBelow c b).perform w = (.ok (), v) ∧ Fetched c db still keys w v ∧
      ∀ m ∈ b.preOrder, v.state.Known keys m := by
  induction b generalizing n w with
  | nil =>
    exact ⟨w, rfl, Fetched.refl hstill hf, fun m hm => absurd hm List.not_mem_nil⟩
  | cons e child below next ihBelow ihNext =>
    obtain ⟨he, rfl, -, hbelow, hnext⟩ := hb
    have hwf := hf.toWellFormed
    have hedge := hwf.hasEdge he
    have hn := hasNode_of_mem_edges he
    have hhas : w.state.HasNode (w.state.childOf e) := hwf.hasChild hedge
    have hdel := hf.undeleted (w.state.childOf e)
    have hseed := seedChild_fetched hstill hf hedge
    have hs := hseed.learns.steady
    have hisBound : (w.state.seedChild e).isBound (w.state.childOf e) =
        !(w.state.seedChild e).isNew (w.state.childOf e) := by
      rw [isBound, node_seedChild, hdel, Bool.not_false, Bool.and_true]
    cases hnew : (w.state.seedChild e).isNew (w.state.childOf e) with
    | true =>
      -- The child stands for no row, and nothing below it does.
      have hnull : keys (w.state.childOf e) = .null := by
        by_contra hkey
        have hseeded := isNew_seedChild_of_known hf hedge (hf.owner_of_edge he ▸ hknown) hkey
        exact Bool.false_ne_true (hseeded.symm.trans hnew)
      obtain ⟨v, hnextRun, hfetched, hnextKnown⟩ := ihNext
        (w := w.withState (w.state.seedChild e)) hseed.still hseed.follows
        (hs.shape.hangs hnext) (hseed.known hwf hn hknown)
      refine ⟨v, ?_, hseed.trans hfetched, fun m hm => ?_⟩
      · rw [perform_fetchBelow_unbound hdel (by rw [hisBound, hnew]; rfl), hnextRun]
      · rw [Branches.mem_preOrder_cons] at hm
        rcases hm with rfl | hm | hm
        · exact fun hkey => absurd hnull hkey
        · exact fun hkey => absurd (keys_below_of_null hf hbelow hnull m hm) hkey
        · exact hnextKnown m hm
    | false =>
      have hwf₁ := hseed.follows.toWellFormed
      obtain ⟨u, hnodeRun, hnode, hcurrent⟩ := fetchNode_fetched
        (w := w.withState (w.state.seedChild e)) hserves hseed.still hseed.follows
        ((hs.shape.hasNode _).2 hhas) hnew
      have hsu := hs.trans hnode.learns.steady
      have hchildKnown : u.state.Known keys (w.state.childOf e) := fun _ =>
        ⟨hnode.learns.steady.isNew hwf₁ ((hs.shape.hasNode _).2 hhas) hnew, hcurrent⟩
      obtain ⟨t, hbelowRun, hdeeper, hbelowKnown⟩ := ihBelow hnode.still hnode.follows
        (hsu.shape.hangs hbelow) hchildKnown
      have hst := hsu.trans hdeeper.learns.steady
      have hthrough := (hseed.trans hnode).trans hdeeper
      obtain ⟨v, hnextRun, hlater, hnextKnown⟩ := ihNext hdeeper.still hdeeper.follows
        (hst.shape.hangs hnext) (hthrough.known hwf hn hknown)
      refine ⟨v, ?_, hthrough.trans hlater, fun m hm => ?_⟩
      · rw [perform_fetchBelow_bound hdel (by rw [hisBound, hnew]; rfl),
          Action.perform_bind_ok hnodeRun, Action.perform_bind_ok hbelowRun, hnextRun]
      · have hwfT := hdeeper.follows.toWellFormed
        rw [Branches.mem_preOrder_cons] at hm
        rcases hm with rfl | hm | hm
        · have hchildHas := (hsu.shape.hasNode _).2 hhas
          exact hlater.known hwfT ((hst.shape.hasNode _).2 hhas)
            (hdeeper.known hnode.follows.toWellFormed hchildHas hchildKnown)
        · have hmHas := (lt_of_mem_preOrder hwf hbelow hm).2
          exact hlater.known hwfT ((hst.shape.hasNode _).2 hmHas) (hbelowKnown m hm)
        · exact hnextKnown m hm

/-- Fetching a record with a row makes it known, and everything below it. -/
theorem fetchTree_known (hserves : Serves c db still) (hstill : still w.store)
    (hf : Follows c db w.state keys) (hn : w.state.HasNode n) (hbound : w.state.isNew n = false) :
    ∃ v, (fetchTree c n).perform w = (.ok (), v) ∧ Fetched c db still keys w v ∧
      ∀ m ∈ n :: (w.state.below n).preOrder, v.state.Known keys m := by
  have hwf := hf.toWellFormed
  obtain ⟨u, hnodeRun, hnode, hcurrent⟩ := fetchNode_fetched hserves hstill hf hn hbound
  have hs := hnode.learns.steady
  have hknown : u.state.Known keys n := fun _ => ⟨hs.isNew hwf hn hbound, hcurrent⟩
  obtain ⟨v, hbelowRun, hbelow, hbelowKnown⟩ := fetchBelow_known hserves (w.state.below n)
    hnode.still hnode.follows (hs.shape.hangs (hangs_below hwf n)) hknown
  refine ⟨v, ?_, hnode.trans hbelow, fun m hm => ?_⟩
  · rw [fetchTree, Action.perform_state_bind, Action.perform_bind_ok hnodeRun, hbelowRun]
  · rcases List.mem_cons.1 hm with rfl | hm
    · exact hbelow.known hnode.follows.toWellFormed ((hs.shape.hasNode _).2 hn) hknown
    · exact hbelowKnown m hm

/-- Fetching a record hands on all links that were handed on before, and those it reads. -/
theorem fetch_known (hserves : Serves c db still) (hstill : still w.store)
    (hf : Follows c db w.state keys) (hseeded : LinksSeeded w.state keys)
    (hn : w.state.HasNode n) (hbound : w.state.isNew n = false) :
    ∃ v, (fetch c n).perform w = (.ok (), v) ∧ Fetched c db still keys w v ∧
      LinksSeeded v.state keys ∧ ∀ m ∈ n :: (w.state.below n).preOrder, v.state.Known keys m := by
  have hwf := hf.toWellFormed
  obtain ⟨v, hrun, hfetched, hknown⟩ := fetchTree_known hserves hstill hf hn hbound
  have hs := hfetched.learns.steady
  have hisBound : w.state.isBound n = true := by
    rw [isBound, hbound, hf.undeleted]
    rfl
  have hfetch : (fetch c n).perform w = (.ok (), v) := by
    rw [fetch, Action.perform_state_bind, hisBound]
    exact hrun
  have hconsults := (consults_fetch c n hwf).of_perform hfetch
  refine ⟨v, hfetch, hfetched, fun e he howner hcurrent hkey => ?_, hknown⟩
  have he := (hs.shape.hasEdge e).1 he
  rw [hs.shape.edge] at howner hcurrent hkey ⊢
  by_cases hmem : (w.state.edge e).owner ∈ n :: (w.state.below n).preOrder
  · -- A child of a record that was fetched was fetched too.
    refine (hknown _ (List.mem_cons_of_mem _ ?_) hkey).1
    rcases List.mem_cons.1 hmem with h | h
    · exact childOf_mem_below hwf (h ▸ hwf.mem_edges he)
    · exact childOf_mem_of_mem hwf (hangs_below hwf n) h (hwf.mem_edges he)
  · rw [hconsults.node hmem] at hcurrent
    rw [hconsults.reaches.isNew hwf (hwf.hasEdgeOwner he) hmem] at howner
    exact hs.isNew hwf (hwf.hasChild he) (hseeded e he howner hcurrent hkey)

namespace Forest

/-! ## Reading a column -/

/-- On a way down without stale records all records are known. -/
theorem known_of_fresh (hf : Follows c db f keys) (hseeded : LinksSeeded f keys)
    (hn : f.HasNode n) (hfresh : ∀ m ∈ f.chain n, f.isStale m = false) : f.Known keys n := by
  have hwf := hf.toWellFormed
  -- A record with a row that is not stale is current.
  have hcurrent {n : NodeId} (hbound : f.isNew n = false) (hstale : f.isStale n = false) :
      (f.node n).current = true := by
    rw [isStale, isBound, hbound, hf.undeleted] at hstale
    simpa using hstale
  induction n using hwf.parent_induction with
  | root n hp =>
    have hbound := hf.root hn hp
    exact fun _ => ⟨hbound, hcurrent hbound (hfresh n (by simp [chain_of_parent_none hp]))⟩
  | child n e hp ih =>
    intro hkey
    have hchain := chain_of_parent hwf hp
    have hstale := hfresh n (by simp [hchain])
    obtain ⟨he, rfl⟩ := hwf.edge_of_parent hp
    have howner : keys (f.edge e).owner ≠ .null := fun h => hkey (hf.grounded he h)
    obtain ⟨hownerBound, hownerCurrent⟩ := ih (hwf.hasEdgeOwner he)
      (fun m hm => hfresh m (hchain ▸ List.mem_append_left _ hm)) howner
    have hbound := hseeded e he hownerBound hownerCurrent hkey
    exact ⟨hbound, hcurrent hbound hstale⟩

/-- A column of a known record holds what it shall hold. -/
theorem value_of_known (hf : Follows c db f keys) {d : CellId} (hd : f.HasCell d)
    (hknown : f.Known keys (f.cell d).owner) : (f.cell d).value = f.effective db keys d := by
  have hwf := hf.toWellFormed
  have ho := hf.hasOwner hd
  by_cases hkey : keys (f.cell d).owner = .null
  · -- A record without a row is new, and nothing is known of its columns.
    have habsent : ¬f.RowFound db keys (f.cell d).owner := fun h => h.1 hkey
    cases hk : (f.cell d).isKey with
    | true =>
      have hnew : f.isNew (f.cell d).owner = true := by
        by_contra hbound
        exact (hf.bound ho (Bool.not_eq_true _ ▸ hbound)).2 hkey
      rw [← (hf.isKey_iff hd).1 hk, effective_key hwf ho, hkey]
      exact keyValue_of_isNew hwf hf.unstored ho hnew
    | false =>
      have hmem := hf.mem_owner hd
      have htruth := truth_of_not_rowFound hwf hmem hk habsent
      rw [effective_of_column hk, htruth, Cell.value]
      rcases hf.absent hmem habsent hk with h | h
      · rw [h]
      · rw [h, htruth]
  · obtain ⟨hbound, hcurrent⟩ := hknown hkey
    exact hf.toMirrors.value_of_current hd hbound hcurrent

end Forest

/-- Once the column of a path is resolved, reading it results in what the column shall hold. -/
theorem get_of_resolved (hserves : Serves c db still) (hstill : still v.store) {r : Record}
    {path : String} {d : CellId} (hresolve : (r.resolve path).perform w = (.ok d, v))
    (hf : Follows c db v.state keys) (hseeded : LinksSeeded v.state keys) (hd : v.state.HasCell d) :
    ∃ u, (r.get c path).perform w = (.ok (v.state.effective db keys d), u) ∧
      Fetched c db still keys v u ∧ LinksSeeded u.state keys := by
  have hwf := hf.toWellFormed
  have howner := hwf.hasOwner hd
  rw [Record.get, Action.perform_bind_ok hresolve, Action.perform_state_bind]
  cases hanchor : v.state.staleAnchor? (v.state.cell d).owner with
  | none =>
    have hfresh := List.find?_eq_none.1 hanchor
    have hknown := known_of_fresh hf hseeded howner fun m hm => Bool.not_eq_true _ ▸ hfresh m hm
    refine ⟨v, ?_, Fetched.refl hstill hf, hseeded⟩
    rw [← value_of_known hf hd hknown]
    rfl
  | some anchor =>
    have hmem := mem_of_mem_chain hwf (List.mem_of_find?_eq_some hanchor)
    have hbound := isNew_of_isStale (List.find?_some hanchor)
    have hhas : v.state.HasNode anchor := by
      rcases hmem with heq | hmem
      · exact heq ▸ howner
      · exact Nat.lt_trans (lt_of_mem_preOrder hwf (hangs_below hwf anchor) hmem).1 howner
    obtain ⟨u, hfetch, hfetched, hseeded, hknown⟩ :=
      fetch_known hserves hstill hf hseeded hhas hbound
    have hs := hfetched.learns.steady.shape
    have hknown : u.state.Known keys (u.state.cell d).owner := by
      rw [hs.owner]
      exact hknown _ (List.mem_cons.2 hmem)
    refine ⟨u, ?_, hfetched, hseeded⟩
    dsimp only
    rw [Action.perform_bind_ok hfetch, ← hfetched.learns.effective hwf,
      ← value_of_known hfetched.follows ((hs.hasCell d).2 hd) hknown]
    rfl

end LinkedRows
