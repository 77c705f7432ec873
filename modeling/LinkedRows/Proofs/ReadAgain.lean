/-
# Reading a column again

A read of a column fetches from the topmost stale record on the way to the column, if there is one,
and that fetch passes over records that are new or deleted with all below them.  So behind such a
record others on the way may be left stale (`fetchBelow_isStale`), and a second read fetches these.

`get_again_iff` says exactly which records are left stale by a read, and that reading again returns
the same value and leaves the world as it is if and only if there are none.
-/

import LinkedRows.Proofs.Forest.Ways
import LinkedRows.Proofs.Flushing
import LinkedRows.Proofs.SelectionText

namespace LinkedRows

open Forest

variable {σ : Type} {c : Connector σ} {w v u : World σ Forest} {n m a child : NodeId} {e : EdgeId}
  {b below next : Branches} {before rest way : List NodeId}

/-! ## Records that a fetch does not reach -/

theorem Forest.isStale_eq_false_of_current {f : Forest} (h : (f.node n).current = true) :
    f.isStale n = false := by
  rw [isStale, h, Bool.not_true, Bool.and_false]

theorem Forest.isStale_eq_false_of_unbound {f : Forest} (h : f.isBound n = false) :
    f.isStale n = false := by
  rw [isStale, h, Bool.false_and]

namespace Consults

variable {records : List NodeId}

theorem isBound_eq (h : Consults records w v) (hf : WellFormed w.state) (hn : w.state.HasNode n)
    (hout : n ∉ records) : v.state.isBound n = w.state.isBound n := by
  rw [isBound, isBound, h.reaches.isNew hf hn hout, h.node hout]

theorem isStale_eq (h : Consults records w v) (hf : WellFormed w.state) (hn : w.state.HasNode n)
    (hout : n ∉ records) : v.state.isStale n = w.state.isStale n := by
  rw [isStale, isStale, h.isBound_eq hf hn hout, h.node hout]

/-- Asking unbinds no record. -/
theorem isBound (h : Consults records w v) (hf : WellFormed w.state) (hn : w.state.HasNode n)
    (hbound : w.state.isBound n = true) : v.state.isBound n = true := by
  obtain ⟨hnew, hdel⟩ := isBound_iff.1 hbound
  exact isBound_iff.2 ⟨h.learns.steady.isNew hf hn hnew, (h.learns.steady.deleted n).trans hdel⟩

end Consults

/-! ## Fetches that succeed -/

theorem fetchNode_ok (hf : WellFormed w.state) (hn : w.state.HasNode n)
    (hbound : w.state.isBound n = true) (h : (fetchNode c n).perform w = (.ok (), v)) :
    Consults [n] w v ∧ (v.state.node n).current = true := by
  have hconsults := (consults_fetchNode c hf (isNew_of_isBound hbound)).of_perform h
  refine ⟨hconsults, ?_⟩
  rw [fetchNode, Action.perform_state_bind] at h
  obtain ⟨⟨⟩, s, -, hupdate⟩ := Action.perform_bind_eq_ok.1 h
  obtain rfl : s.withState (s.state.setCurrent n true) = v := congrArg Prod.snd hupdate
  have hnode : s.state.HasNode n := (sameShape_setCurrent s.state n true).hasNode n |>.1
    ((hconsults.learns.steady.shape.hasNode n).2 hn)
  show ((s.state.setCurrent n true).node n).current = true
  rw [setCurrent, node_modifyNode, if_pos ⟨rfl, hnode⟩]

/-- A fetch of what is behind joins first leaves an unbound child alone, or reads the child and what
is below it. -/
theorem fetchBelow_cons_ok (hf : WellFormed w.state)
    (hb : w.state.Hangs n (.cons e child below next))
    (h : (fetchBelow c (.cons e child below next)).perform w = (.ok (), v)) :
    ∃ u, (fetchBelow c next).perform u = (.ok (), v) ∧
      (Consults [child] w u ∧ u.state.isBound child = false ∨
        ∃ s, Consults [child] w s ∧ s.state.isBound child = true ∧
          (s.state.node child).current = true ∧ (fetchBelow c below).perform s = (.ok (), u)) := by
  obtain ⟨he, hchild, -, -, -⟩ := hb
  have hseed := consults_seedChild (w := w) hf (hf.hasEdge he) hchild
  have hfs := hseed.learns.steady.wellFormed hf
  have hn : (w.state.seedChild e).HasNode child :=
    (hseed.learns.steady.shape.hasNode child).2 (hchild ▸ hf.hasChild (hf.hasEdge he))
  cases hdel : (w.state.node child).deleted with
  | true =>
    rw [perform_fetchBelow_deleted hdel] at h
    exact ⟨w, h, Or.inl ⟨.refl _ w, isBound_eq_false_of_deleted hdel⟩⟩
  | false =>
    cases hbound : (w.state.seedChild e).isBound child with
    | false =>
      rw [perform_fetchBelow_unbound hdel hbound] at h
      exact ⟨_, h, Or.inl ⟨hseed, hbound⟩⟩
    | true =>
      rw [perform_fetchBelow_bound hdel hbound] at h
      obtain ⟨⟨⟩, s, hnode, h⟩ := Action.perform_bind_eq_ok.1 h
      obtain ⟨⟨⟩, u, hbelow, hnext⟩ := Action.perform_bind_eq_ok.1 h
      obtain ⟨hread, hcurrent⟩ := fetchNode_ok hfs hn hbound hnode
      exact ⟨u, hnext, Or.inr ⟨s, hseed.trans hread, hread.isBound hfs hn hbound, hcurrent,
        hbelow⟩⟩

/-- On the ways down from the joins, those records are left stale that were stale before and come
after a record that is unbound. -/
def LeavesStale (b : Branches) (w v : World σ Forest) : Prop :=
  ∀ way m, b.Leads (way ++ [m]) → (v.state.isStale m = true ↔
    w.state.isStale m = true ∧ ∃ k ∈ way, v.state.isBound k = false)

/-- If the child is unbound, everything below it is left as it was. -/
theorem leavesStale_of_unbound (hf : WellFormed w.state) (hbelow : w.state.Hangs child below)
    (hu : Consults [child] w u) (hbound : u.state.isBound child = false) :
    LeavesStale (.cons e child below .nil) w u := by
  intro way m hway
  rcases Branches.leads_cons_iff.1 hway with ⟨rfl, rfl⟩ | ⟨deeper, rfl, hdeeper⟩ | hway
  · simp [isStale_eq_false_of_unbound hbound]
  · have hm : m ∈ below.preOrder := hdeeper.subset (by simp)
    have hout : m ∉ [child] := fun h =>
      not_mem_of_hangs hf hbelow (List.mem_singleton.1 h ▸ hm)
    rw [hu.isStale_eq hf (lt_of_mem_preOrder hf hbelow hm).2 hout]
    exact (and_iff_left ⟨child, List.mem_cons_self .., hbound⟩).symm
  · exact hway.elim

/-- If the child is read, so are the records below it up to those that are unbound. -/
theorem leavesStale_of_read {s : World σ Forest} (hf : WellFormed w.state)
    (hbelow : w.state.Hangs child below) (hn : w.state.HasNode child) (hs : Consults [child] w s)
    (hbound : s.state.isBound child = true) (hcurrent : (s.state.node child).current = true)
    (hu : Consults below.preOrder s u) (hleaves : LeavesStale below s u) :
    LeavesStale (.cons e child below .nil) w u := by
  have hout := not_mem_of_hangs hf hbelow
  have hss := hs.learns.steady
  intro way m hway
  rcases Branches.leads_cons_iff.1 hway with ⟨rfl, rfl⟩ | ⟨deeper, rfl, hdeeper⟩ | hway
  · have hstale : u.state.isStale m = false :=
      isStale_eq_false_of_current (by rwa [hu.node hout])
    simp [hstale]
  · have hm : m ∈ below.preOrder := hdeeper.subset (by simp)
    have hne : m ∉ [child] := fun h => hout (List.mem_singleton.1 h ▸ hm)
    have hkeeps : u.state.isBound child = true := by
      rwa [hu.isBound_eq (hss.wellFormed hf) ((hss.shape.hasNode _).2 hn) hout]
    rw [hleaves _ m hdeeper, hs.isStale_eq hf (lt_of_mem_preOrder hf hbelow hm).2 hne]
    simp [hkeeps]
  · exact hway.elim

/-- The walk comes to the first child and what is below it, and then to the later joins. -/
theorem LeavesStale.cons (hf : WellFormed w.state)
    (hb : w.state.Hangs n (.cons e child below next))
    (hnodup : (Branches.cons e child below next).joins.Nodup)
    (hu : Consults (child :: below.preOrder) w u) (hv : Consults next.preOrder u v)
    (hfirst : LeavesStale (.cons e child below .nil) w u) (hlater : LeavesStale next u v) :
    LeavesStale (.cons e child below next) w v := by
  have hs := hu.learns.steady
  have hkeeps {k : NodeId} (hk : k ∈ child :: below.preOrder) :
      v.state.isBound k = u.state.isBound k ∧ v.state.isStale k = u.state.isStale k := by
    have hnode := (hs.shape.hasNode k).2 (hasNode_of_mem_first hf hb hk)
    have hout := not_mem_next_of_first hf hb hnodup hk
    exact ⟨hv.isBound_eq (hs.wellFormed hf) hnode hout, hv.isStale_eq (hs.wellFormed hf) hnode hout⟩
  intro way m hway
  by_cases hin : next.Leads (way ++ [m])
  · have hm : m ∈ next.preOrder := hin.subset (by simp)
    have hout : m ∉ child :: below.preOrder := fun h =>
      not_mem_next_of_first hf hb hnodup h hm
    rw [hlater way m hin, hu.isStale_eq hf (lt_of_mem_preOrder hf hb.later hm).2 hout]
  · have hway : (Branches.cons e child below .nil).Leads (way ++ [m]) :=
      Or.inl (hway.resolve_right hin)
    have hsub : way ++ [m] ⊆ child :: below.preOrder := by
      simpa [Branches.preOrder] using hway.subset
    rw [(hkeeps (hsub (by simp))).2, hfirst way m hway]
    refine and_congr_right fun _ => exists_congr fun k => and_congr_right fun hk => ?_
    rw [(hkeeps (hsub (List.mem_append_left _ hk))).1]

/-- **Which records a fetch of what is behind joins leaves stale.** -/
theorem fetchBelow_leavesStale (b : Branches) (hf : WellFormed w.state) (hb : w.state.Hangs n b)
    (hnodup : b.joins.Nodup) (h : (fetchBelow c b).perform w = (.ok (), v)) :
    LeavesStale b w v := by
  induction b generalizing n w v with
  | nil => exact fun _ _ hway => hway.elim
  | cons e child below next ihBelow ihNext =>
    obtain ⟨u, hlater, hfirst⟩ := fetchBelow_cons_ok hf hb h
    obtain ⟨he, hchild, hbelowEq, hbelow, hnext⟩ := id hb
    have hfirst : Consults (child :: below.preOrder) w u ∧
        LeavesStale (.cons e child below .nil) w u := by
      rcases hfirst with ⟨hu, hbound⟩ | ⟨s, hs, hbound, hcurrent, hfetch⟩
      · exact ⟨hu.mono (by simp), leavesStale_of_unbound hf hbelow hu hbound⟩
      · have hss := hs.learns.steady
        have hfs := hss.wellFormed hf
        have hu := (consults_fetchBelow c _ hfs (hss.shape.hangs hbelow)).of_perform hfetch
        have hleaves := ihBelow hfs (hss.shape.hangs hbelow)
          (hbelowEq ▸ nodup_joins_below hf child) hfetch
        exact ⟨(hs.mono (by simp)).trans (hu.mono fun k hk => List.mem_cons_of_mem _ hk),
          leavesStale_of_read hf hbelow (hchild ▸ hf.hasChild (hf.hasEdge he)) hs hbound hcurrent hu
            hleaves⟩
    obtain ⟨hu, hfirst⟩ := hfirst
    have hs := hu.learns.steady
    have hfu := hs.wellFormed hf
    exact .cons hf hb hnodup hu
      ((consults_fetchBelow c next hfu (hs.shape.hangs hnext)).of_perform hlater) hfirst
      (ihNext hfu (hs.shape.hangs hnext) (List.nodup_cons.1 hnodup).2 hlater)

theorem fetchTree_ok (hf : WellFormed w.state) (hn : w.state.HasNode a)
    (hbound : w.state.isBound a = true) (h : (fetchTree c a).perform w = (.ok (), v)) :
    Consults (a :: (w.state.below a).preOrder) w v ∧ v.state.isBound a = true ∧
      (v.state.node a).current = true ∧ LeavesStale (w.state.below a) w v := by
  have hconsults := (consults_fetchTree c a hf hbound).of_perform h
  rw [fetchTree, Action.perform_state_bind] at h
  obtain ⟨⟨⟩, s, hnode, hfetch⟩ := Action.perform_bind_eq_ok.1 h
  obtain ⟨hs, hcurrent⟩ := fetchNode_ok hf hn hbound hnode
  have hss := hs.learns.steady
  have hfs := hss.wellFormed hf
  have hb := hss.shape.hangs (hangs_below hf a)
  have hv := (consults_fetchBelow c _ hfs hb).of_perform hfetch
  refine ⟨hconsults, hconsults.isBound hf hn hbound, ?_, fun way m hway => ?_⟩
  · rwa [hv.node (not_mem_below hf a)]
  · have hm : m ∈ (w.state.below a).preOrder := hway.subset (by simp)
    have hne : m ∉ [a] := fun h => not_mem_below hf a (List.mem_singleton.1 h ▸ hm)
    rw [fetchBelow_leavesStale _ hfs hb (nodup_joins_below hf a) hfetch way m hway,
      hs.isStale_eq hf (lt_of_mem_preOrder hf (hangs_below hf a) hm).2 hne]

/-! ## The way to a column -/

/-- The end of the way down to a record, from the topmost stale record on. -/
def Forest.staleWay (f : Forest) (n : NodeId) : List NodeId :=
  (f.chain n).dropWhile fun m => !f.isStale m

/-- On the way down to a record, a fetch from the topmost stale record leaves those stale that come
after a record which is unbound. -/
theorem fetchTree_isStale (hf : WellFormed w.state) (hn : w.state.HasNode n)
    (hchain : w.state.chain n = before ++ a :: rest)
    (hbefore : ∀ m ∈ before, w.state.isStale m = false) (ha : w.state.isStale a = true)
    (h : (fetchTree c a).perform w = (.ok (), v)) (hm : m ∈ w.state.chain n) :
    v.state.isStale m = true ↔ w.state.isStale m = true ∧
      ∃ way, way ++ [m] <+: w.state.staleWay n ∧ ∃ k ∈ way, v.state.isBound k = false := by
  have hway : w.state.staleWay n = a :: rest := by
    rw [staleWay, hchain, List.dropWhile_append_of_pos fun m hm => by rw [hbefore m hm]; rfl,
      List.dropWhile_cons_of_neg (by rw [ha]; decide)]
  have hnode {k : NodeId} (hk : k ∈ w.state.chain n) : w.state.HasNode k :=
    hasNode_of_mem_chain hf hn hk
  have hnodeA : w.state.HasNode a := hnode (by simp [hchain])
  obtain ⟨hconsults, hbound, hcurrent, hleaves⟩ :=
    fetchTree_ok hf hnodeA (isStale_iff.1 ha).1 h
  have hleads {way : List NodeId} {k : NodeId} (hpre : way ++ [k] <+: rest) :
      (w.state.below a).Leads (way ++ [k]) := by
    obtain ⟨later, rfl⟩ := hpre
    have hrest := (leads_of_chain hf hchain).resolve_left fun h => by simp at h
    exact hrest.of_append (by simp)
  rw [hway]
  rw [hchain, List.mem_append, List.mem_cons] at hm
  rcases hm with hm | rfl | hm
  · have hout := not_below_of_chain hf hchain hm
    rw [hconsults.isStale_eq hf (hnode (by simp [hchain, hm])) hout, hbefore m hm]
    simp
  · rw [isStale_eq_false_of_current hcurrent]
    refine ⟨nofun, ?_⟩
    rintro ⟨-, way, hpre, k, hk, -⟩
    cases way with
    | nil => cases hk
    | cons k' way =>
      have hmem := (hleads (List.cons_prefix_cons.1 hpre).2).subset (a := m) (by simp)
      exact absurd hmem (not_mem_below hf m)
  · constructor
    · intro hstale
      obtain ⟨way, later, rfl⟩ := List.append_of_mem hm
      have hpre : way ++ [m] <+: way ++ m :: later := ⟨later, by simp⟩
      obtain ⟨hstale, k, hk, hunbound⟩ := (hleaves way m (hleads hpre)).1 hstale
      exact ⟨hstale, a :: way, List.cons_prefix_cons.2 ⟨rfl, hpre⟩, k,
        List.mem_cons_of_mem _ hk, hunbound⟩
    · rintro ⟨hstale, way, hpre, k, hk, hunbound⟩
      cases way with
      | nil => cases hk
      | cons k' way =>
        obtain ⟨rfl, hrest⟩ := List.cons_prefix_cons.1 hpre
        refine (hleaves way m (hleads hrest)).2 ⟨hstale, k, ?_, hunbound⟩
        refine (List.mem_cons.1 hk).resolve_left fun h => ?_
        rw [h, hbound] at hunbound
        exact Bool.false_ne_true hunbound.symm

namespace Record

variable {r : Record} {path : String} {d : CellId} {x : Value}

/-- A path leads to the same column again as long as the shape of the forest stays. -/
theorem resolve_again (hf : WellFormed w.state) (hr : w.state.HasNode r.root)
    (h : (r.resolve path).perform w = (.ok d, u)) (hs : SameShape u.state v.state) :
    (r.resolve path).perform v = (.ok d, v) := by
  obtain ⟨-, hfound⟩ := (resolve_spec hf hr path).of_perform h
  obtain ⟨p, hp, hd⟩ := hfound d rfl
  rw [resolve, Action.perform_bind_ok (x := p) (by rw [hp]; rfl), Action.perform_state_bind,
    hs.lookupColumn?, hd]
  rfl

/-- A read that succeeds finds nothing stale on the way to the column, or fetches from the topmost
stale record. -/
theorem get_ok_iff (hresolve : (r.resolve path).perform w = (.ok d, u)) :
    (r.get c path).perform w = (.ok x, v) ↔ x = (v.state.cell d).value ∧
      (u.state.staleAnchor? (u.state.cell d).owner = none ∧ v = u ∨
        ∃ a, u.state.staleAnchor? (u.state.cell d).owner = some a ∧
          (fetchTree c a).perform u = (.ok (), v)) := by
  rw [get, Action.perform_bind_ok hresolve, Action.perform_state_bind]
  cases hanchor : u.state.staleAnchor? (u.state.cell d).owner with
  | none =>
    constructor
    · intro h
      obtain ⟨hx, rfl⟩ := Prod.mk.inj h
      exact ⟨(Except.ok.inj hx).symm, Or.inl ⟨rfl, rfl⟩⟩
    · rintro ⟨rfl, ⟨-, rfl⟩ | ⟨a, ha, -⟩⟩
      · rfl
      · cases ha
  | some anchor =>
    have hfetch : (LinkedRows.fetch c anchor).perform u = (fetchTree c anchor).perform u := by
      rw [LinkedRows.fetch, Action.perform_state_bind,
        (isStale_iff.1 (List.find?_some hanchor)).1]
      rfl
    constructor
    · intro h
      obtain ⟨⟨⟩, s, hs, h⟩ := Action.perform_bind_eq_ok.1 h
      obtain ⟨hx, rfl⟩ := Prod.mk.inj h
      exact ⟨(Except.ok.inj hx).symm, Or.inr ⟨anchor, rfl, hfetch.symm.trans hs⟩⟩
    · rintro ⟨rfl, ⟨hnone, -⟩ | ⟨a, ha, hv⟩⟩
      · cases hnone
      · obtain rfl := Option.some.inj ha
        exact (Action.perform_bind_ok (hfetch.trans hv) _).trans rfl

/-- **When reading a column again changes nothing.**  After a read of a column that succeeded,
reading it again returns the same value and leaves the world as it is, without any call, if and only
if no bound record on the way from the root to the column is stale.  Those that are stale then are
the records that were stale before the read and come, on the way down from the topmost such record,
after one that is new or deleted. -/
theorem get_again_iff (h : Reachable c r w) (hresolve : (r.resolve path).perform w = (.ok d, u))
    (hget : (r.get c path).perform w = (.ok x, v)) :
    ((r.get c path).perform v = (.ok x, v) ↔
      ∀ m ∈ v.state.chain (v.state.cell d).owner, v.state.isStale m = false) ∧
    ∀ m ∈ v.state.chain (v.state.cell d).owner, v.state.isStale m = true ↔
      u.state.isStale m = true ∧ ∃ way, way ++ [m] <+: u.state.staleWay (u.state.cell d).owner ∧
        ∃ k ∈ way, v.state.isBound k = false := by
  obtain ⟨hconsistent, hr⟩ := h.consistent
  have hf := hconsistent.toWellFormed
  obtain ⟨hgrown, hd⟩ := hasCell_of_resolve hf hr hresolve
  have hfu := hf.grows hgrown.grows
  have howner := hfu.hasOwner hd
  obtain ⟨rfl, hread⟩ := (get_ok_iff hresolve).1 hget
  have hs : SameShape u.state v.state := by
    rcases hread with ⟨-, rfl⟩ | ⟨a, ha, hfetch⟩
    · rfl
    · have hbound := (isStale_iff.1 (List.find?_some ha)).1
      exact ((consults_fetchTree c a hfu hbound).of_perform hfetch).learns.steady.shape
  have hfv := hfu.of_sameShape hs
  have hagain := resolve_again hf hr hresolve hs
  rw [hs.owner, hs.chain]
  refine ⟨?_, fun m hm => ?_⟩
  · rw [get_ok_iff hagain, and_iff_right rfl, hs.owner, staleAnchor?, hs.chain, List.find?_eq_none]
    simp only [Bool.not_eq_true, and_true]
    refine or_iff_left ?_
    -- A fetch makes the record current that it starts at.
    rintro ⟨a, ha, hfetch⟩
    have hstale := List.find?_some ha
    have hnode := hasNode_of_mem_chain hfu howner (List.mem_of_find?_eq_some ha)
    obtain ⟨-, -, hcurrent, -⟩ :=
      fetchTree_ok hfv ((hs.hasNode a).2 hnode) (isStale_iff.1 hstale).1 hfetch
    rw [isStale_eq_false_of_current hcurrent] at hstale
    exact Bool.false_ne_true hstale
  · rcases hread with ⟨hnone, rfl⟩ | ⟨a, ha, hfetch⟩
    · have hfresh := List.find?_eq_none.1 hnone m hm
      exact ⟨fun h => absurd h hfresh, fun h => absurd h.1 hfresh⟩
    · obtain ⟨hstale, before, rest, hchain, hbefore⟩ := List.find?_eq_some_iff_append.1 ha
      refine fetchTree_isStale hfu howner hchain (fun k hk => ?_) hstale hfetch hm
      simpa using hbefore k hk

/-! ### A way without new records, and one with a new record on it -/

/-- The first record links to row 7 of the joined table, which has a title. -/
def linkedTitle : RowsByText
  | "table0", "id", "1" => some fun _ => .int 7
  | "table1", "id", "7" => some fun _ => .text "Seven"
  | _, _, _ => none

/-- A title behind a link is read from both rows, and then shown again without a call. -/
theorem get_again_iff_linked :
    let opened := create "table0" none (some (.int 1)) .standard
    let r := opened.1
    let c := Connector.ofRows .sqlite linkedTitle
    let w := r.after c [.register "table1.title"] ⟨(), [], opened.2⟩
    let v := ((r.get c "table1.title").perform w).2
    Reachable c r w ∧ (r.get c "table1.title").perform w = (.ok (.text "Seven"), v) ∧
      v.log.length = 2 ∧ (r.get c "table1.title").perform v = (.ok (.text "Seven"), v) := by
  intro opened r c w v
  have hreachable : Reachable c r w := (Reachable.create () "table0" none _ .standard).after _
  have hresolve := Action.perform_eq (a := r.resolve "table1.title") (w := w) (r := .ok ⟨3⟩)
    (by decide +kernel)
  have hget : (r.get c "table1.title").perform w = (.ok (.text "Seven"), v) :=
    Action.perform_eq (by decide +kernel)
  refine ⟨hreachable, hget, by decide +kernel, ?_⟩
  exact (get_again_iff hreachable hresolve hget).1.2 (by decide +kernel)

/-- Row 8 of the second joined table has a title; the first record has no row. -/
def distantTitle : RowsByText
  | "table2", "id", "8" => some fun _ => .text "Eight"
  | _, _, _ => none

/-- A title is read through a new record whose link was assigned: the first read stops at the new
record, and the second one fetches the title. -/
theorem get_again_fetches_behind_new :
    let opened := create "table0" none (some (.int 1)) .standard
    let r := opened.1
    let c := Connector.ofRows .sqlite distantTitle
    let path := "table1.table2.title"
    let w := r.after c [.register path, .set "table1.table2_id" (.int 8)] ⟨(), [], opened.2⟩
    let v := ((r.get c path).perform w).2
    Reachable c r w ∧ (r.get c path).perform w = (.ok .null, v) ∧ v.log.length = 1 ∧
      ((r.get c path).perform v).1 = .ok (.text "Eight") ∧
      ((r.get c path).perform v).2.log.length = 2 := by
  intro opened r c path w v
  exact ⟨(Reachable.create () "table0" none _ .standard).after _,
    Action.perform_eq (by decide +kernel), by decide +kernel⟩

end Record
end LinkedRows
