/-
# Points of a save

`Comes` are the worlds that saving what is behind joins comes to, between its steps: at the start,
after any child with all below it, and so on further down.  A save that fails leaves the forest of
such a point, and one that succeeds ends at one (`SavedBelow.comes`), so what holds at every point
holds of both.

Up to any point the forest is steady, the log goes on, and no column changes but those of the
records behind the joins and the links at the top (`Comes.reaches`).  A column of the record that
the joins start at changes in one way only: it takes the key of a child that it links to
(`Comes.cell_start`).
-/

import LinkedRows.Proofs.Forest.Changes
import LinkedRows.Proofs.Saving

namespace LinkedRows

open Forest

/-- A link after the turn of its child.  It takes the key, unless the child is new, or was not new
before and the link is assigned, or the link holds the key. -/
def Cell.follow (link : Cell) (wasNew isNew : Bool) (key : Value) : Cell :=
  if !isNew && (wasNew || !link.isDirty) && !link.value.agrees key then link.assign key else link

theorem Cell.follow_cases (link : Cell) (wasNew isNew : Bool) (key : Value) :
    link.follow wasNew isNew key = link ∨
      link.follow wasNew isNew key = link.assign key ∧ isNew = false ∧
        (link.isDirty = true → wasNew = true) := by
  unfold follow
  split
  · rename_i h
    simp only [Bool.and_eq_true, Bool.or_eq_true, Bool.not_eq_true'] at h
    refine Or.inr ⟨rfl, h.1.1, fun hdirty => h.1.2.resolve_right fun hclean => ?_⟩
    rw [hdirty] at hclean
    cases hclean
  · exact Or.inl rfl

namespace Forest

variable {f : Forest} {e : EdgeId}

theorem cell_followChild (hl : f.HasCell (f.edge e).link) (wasNew : Bool) :
    (f.followChild e wasNew).cell (f.edge e).link = (f.cell (f.edge e).link).follow wasNew
      (f.isNew (f.edge e).child) (f.keyValue (f.edge e).child) := by
  unfold followChild Cell.follow
  dsimp only
  split
  · exact cell_modifyCell_self f hl _
  · rfl

/-- From the first forest to the second, the link of a join has taken the key of the child; if the
link was assigned, then only because the child was new. -/
structure LinkTakes (f g : Forest) (e : EdgeId) : Prop where
  bound : g.isNew (f.childOf e) = false
  cell : g.cell (f.edge e).link = (f.cell (f.edge e).link).assign (g.keyValue (f.childOf e))
  wasNew : (f.cell (f.edge e).link).isDirty = true → f.isNew (f.childOf e) = true

/-- The start can be moved back over assignments to the link. -/
theorem LinkTakes.of_start {g h : Forest} (ht : LinkTakes g h e) (hs : SameShape f g)
    (hnew : g.isNew (f.childOf e) = f.isNew (f.childOf e))
    (hlink : g.cell (f.edge e).link = f.cell (f.edge e).link ∨
      ∃ x, g.cell (f.edge e).link = (f.cell (f.edge e).link).assign x) : LinkTakes f h e := by
  obtain ⟨hbound, hcell, hwasNew⟩ := ht
  rw [hs.childOf] at hbound
  rw [hs.edge, hs.childOf] at hcell hwasNew
  rw [hnew] at hwasNew
  rcases hlink with hlink | ⟨x, hlink⟩ <;> rw [hlink] at hcell hwasNew
  · exact ⟨hbound, hcell, hwasNew⟩
  · exact ⟨hbound, hcell, fun _ => hwasNew rfl⟩

end Forest

variable {σ : Type} {c : Connector σ} {w u t v : World σ Forest} {n child : NodeId}
  {b below next : Branches} {e : EdgeId}

/-! ## One child -/

/-- Saving what is behind joins leaves alone the columns of all records but those behind the joins
and the one they start at. -/
theorem SavedBelow.cell_elsewhere {writes : List Write} (h : SavedBelow c b w writes v)
    (hf : WellFormed w.state) (hb : w.state.Hangs n b) {d : CellId}
    (hn : (w.state.cell d).owner ≠ n) (hd : (w.state.cell d).owner ∉ b.preOrder) :
    v.state.cell d = w.state.cell d := by
  refine (h.reaches hf hb).2.2 d hd ?_
  rintro e he rfl
  have he := edges_of_joins hb he
  exact hn ((hf.owner_link (hf.hasEdge he)).trans (hf.owner_of_edge he))

/-- Saving a record moves values to storage and leaves all columns but its key with their values. -/
theorem SavedNode.value {direct : Bool} {writes : List Write}
    (h : SavedNode c n direct w writes v) {d : CellId} (hd : d ≠ (w.state.node n).key) :
    (v.state.cell d).value = (w.state.cell d).value := by
  have hsettle (cells : List CellId) :
      ((w.state.settle cells).cell d).value = (w.state.cell d).value := by
    rw [cell_settle]
    split <;> rfl
  cases h with
  | nothing => rfl
  | write hplan hran =>
    rcases planSave?_eq_some hplan with ⟨fields, -, rfl⟩ | ⟨fields, -, -, rfl⟩
    · cases hran with
      | insert =>
        rw [setCurrent, cell_modifyNode, setKey, cell_modifyCell_of_ne, hsettle]
        rwa [node_settle]
    · cases hran with
      | update => exact hsettle _

/-- One kept child with all below it, and the link to it: what the save of these changes and what it
leaves alone. -/
structure SavedChild (c : Connector σ) (n : NodeId) (e : EdgeId) (child : NodeId)
    (below : Branches) (w u t : World σ Forest) : Prop where
  wellFormed : WellFormed w.state
  mem : e ∈ (w.state.node n).edges
  isChild : w.state.childOf e = child
  hangs : w.state.Hangs child below
  saved : ∃ writes, SavedBelow c below w writes u
  own : ∃ writes, SavedNode c child false u writes t

namespace SavedChild

theorem steady (h : SavedChild c n e child below w u t) : Steady w.state u.state ∧
    Steady w.state t.state ∧
      Steady w.state (t.state.followChild e (w.state.isNew child)) := by
  obtain ⟨_, hbelow⟩ := h.saved
  obtain ⟨_, hnode⟩ := h.own
  exact hbelow.steady_child hnode h.wellFormed h.mem h.isChild h.hangs

/-- Saving the child with all below it is steady, and so is letting the link follow it. -/
theorem steady_follow (h : SavedChild c n e child below w u t) :
    Steady w.state (t.state.followChild e (w.state.isNew child)) := h.steady.2.2

theorem hasNode (h : SavedChild c n e child below w u t) : w.state.HasNode child :=
  h.isChild ▸ h.wellFormed.hasChild (h.wellFormed.hasEdge h.mem)

theorem index_lt (h : SavedChild c n e child below w u t) : n.index < child.index :=
  h.isChild ▸ index_lt_childOf h.wellFormed h.mem

/-- The record that the join starts at is neither the child nor below it. -/
theorem owner_out (h : SavedChild c n e child below w u t) : n ≠ child ∧ n ∉ below.preOrder := by
  have hlt := h.index_lt
  refine ⟨fun hn => ?_, fun hn => ?_⟩
  · rw [hn] at hlt
    exact Nat.lt_irrefl _ hlt
  · have hdeep := (lt_of_mem_preOrder h.wellFormed h.hangs hn).1
    omega

/-- The child's own turn changes no columns but the child's. -/
theorem cell_own (h : SavedChild c n e child below w u t) {d : CellId}
    (hd : (w.state.cell d).owner ≠ child) : t.state.cell d = u.state.cell d := by
  obtain ⟨_, hnode⟩ := h.own
  have hs := h.steady.1
  refine (hnode.reaches (hs.wellFormed h.wellFormed) ((hs.shape.hasNode _).2 h.hasNode)).2.cell ?_
  rwa [hs.shape.owner, List.mem_singleton]

/-- Columns of other records stay until the link follows. -/
theorem cell_before (h : SavedChild c n e child below w u t) {d : CellId}
    (hchild : (w.state.cell d).owner ≠ child) (hbelow : (w.state.cell d).owner ∉ below.preOrder) :
    t.state.cell d = w.state.cell d := by
  obtain ⟨_, hsaved⟩ := h.saved
  rw [h.cell_own hchild, hsaved.cell_elsewhere h.wellFormed h.hangs hchild hbelow]

/-- Following the child reaches the link alone. -/
theorem cell_follow (h : SavedChild c n e child below w u t) {d : CellId}
    (hd : d ≠ (w.state.edge e).link) :
    (t.state.followChild e (w.state.isNew child)).cell d = t.state.cell d :=
  cell_followChild_of_ne (by rwa [h.steady.2.1.shape.edge])

/-- The link is a column of the record that the join starts at. -/
theorem cell_follow_of_owner (h : SavedChild c n e child below w u t) {d : CellId}
    (hd : (w.state.cell d).owner ≠ n) :
    (t.state.followChild e (w.state.isNew child)).cell d = t.state.cell d := by
  refine h.cell_follow ?_
  rintro rfl
  have hf := h.wellFormed
  exact hd ((hf.owner_link (hf.hasEdge h.mem)).trans (hf.owner_of_edge h.mem))

/-- The link after the turn of the child. -/
theorem cell_link (h : SavedChild c n e child below w u t) :
    (t.state.followChild e (w.state.isNew child)).cell (w.state.edge e).link =
      (w.state.cell (w.state.edge e).link).follow (w.state.isNew child) (t.state.isNew child)
        (t.state.keyValue child) := by
  have hf := h.wellFormed
  have hedge := hf.hasEdge h.mem
  have hs := h.steady.2.1
  have howner : (w.state.cell (w.state.edge e).link).owner = n :=
    (hf.owner_link hedge).trans (hf.owner_of_edge h.mem)
  have hfollow := cell_followChild (f := t.state) (e := e)
    ((hs.wellFormed hf).hasLink ((hs.shape.hasEdge e).2 hedge)) (w.state.isNew child)
  rw [hs.shape.edge, show (w.state.edge e).child = child from h.isChild] at hfollow
  rw [hfollow, h.cell_before (howner ▸ h.owner_out.1) (howner ▸ h.owner_out.2)]

/-- A column of the record that the join starts at stays, or it is the link and takes the key that
the child has after its turn. -/
theorem cell_followed (h : SavedChild c n e child below w u t) {d : CellId}
    (hd : (w.state.cell d).owner = n) :
    (t.state.followChild e (w.state.isNew child)).cell d = w.state.cell d ∨
      (w.state.edge e).link = d ∧ t.state.isNew child = false ∧
        (t.state.followChild e (w.state.isNew child)).cell d =
          (w.state.cell d).assign (t.state.keyValue child) ∧
        ((w.state.cell d).isDirty = true → w.state.isNew child = true) := by
  by_cases hlink : (w.state.edge e).link = d
  · subst hlink
    rw [h.cell_link]
    refine (Cell.follow_cases _ _ _ _).imp_right ?_
    rintro ⟨hcell, hbound, hwasNew⟩
    exact ⟨rfl, hbound, hcell, hwasNew⟩
  · left
    rw [h.cell_follow (Ne.symm hlink), h.cell_before (hd ▸ h.owner_out.1) (hd ▸ h.owner_out.2)]

end SavedChild

theorem SavedBelow.savedChild {deeper own : List Write} (hbelow : SavedBelow c below w deeper u)
    (hnode : SavedNode c child false u own t) (hf : WellFormed w.state)
    (hb : w.state.Hangs n (.cons e child below next)) : SavedChild c n e child below w u t :=
  ⟨hf, hb.mem, hb.isChild, hb.deeper, ⟨_, hbelow⟩, ⟨_, hnode⟩⟩

/-! ## Points -/

/-- Saving what is behind joins comes to a point. -/
inductive Comes (c : Connector σ) : Branches → World σ Forest → World σ Forest → Prop
  | start {b : Branches} {w : World σ Forest} : Comes c b w w
  | deleted {e : EdgeId} {child : NodeId} {below next : Branches} {w u : World σ Forest} :
      (w.state.node child).deleted = true → Comes c next w u →
      Comes c (.cons e child below next) w u
  | deeper {e : EdgeId} {child : NodeId} {below next : Branches} {w u : World σ Forest} :
      (w.state.node child).deleted = false → Comes c below w u →
      Comes c (.cons e child below next) w u
  | later {e : EdgeId} {child : NodeId} {below next : Branches} {w u t v : World σ Forest}
      {deeper own : List Write} : (w.state.node child).deleted = false →
      SavedBelow c below w deeper u → SavedNode c child false u own t →
      Comes c next (t.withState (t.state.followChild e (w.state.isNew child))) v →
      Comes c (.cons e child below next) w v

theorem SavedBelow.comes {writes : List Write} (h : SavedBelow c b w writes v) : Comes c b w v := by
  induction h with
  | nil => exact .start
  | deleted hdel _ ih => exact .deleted hdel ih
  | kept hdel hbelow hnode _ _ ih => exact .later hdel hbelow hnode ih

/-- Up to any point, columns change behind the joins and at the links at the top alone. -/
theorem Comes.reaches (h : Comes c b w u) (hf : WellFormed w.state) (hb : w.state.Hangs n b) :
    w.log <+: u.log ∧ Steady w.state u.state ∧
      ∀ d, (w.state.cell d).owner ∉ b.preOrder → (∀ e ∈ b.joins, (w.state.edge e).link ≠ d) →
        u.state.cell d = w.state.cell d := by
  induction h generalizing n with
  | start => exact ⟨List.prefix_rfl, Steady.refl _, fun _ _ _ => rfl⟩
  | deleted _ _ ih =>
    obtain ⟨hlog, hs, hcell⟩ := ih hf hb.later
    refine ⟨hlog, hs, fun d hd hlink => hcell d (fun hmem => hd ?_) fun e he => hlink e ?_⟩
    · exact Branches.mem_preOrder_cons.2 (Or.inr (Or.inr hmem))
    · exact List.mem_cons_of_mem _ he
  | deeper _ _ ih =>
    obtain ⟨-, hchild, -, hhang, -⟩ := hb
    obtain ⟨hlog, hs, hcell⟩ := ih hf hhang
    refine ⟨hlog, hs, fun d hd _ => hcell d (fun hmem => hd ?_) ?_⟩
    · exact Branches.mem_preOrder_cons.2 (Or.inr (Or.inl hmem))
    · -- The links at the top of `below` are columns of the child.
      rintro e he rfl
      have he := edges_of_joins hhang he
      rw [hf.owner_link (hf.hasEdge he), hf.owner_of_edge he] at hd
      exact hd (List.mem_cons_self ..)
  | @later e child below next w u t v _ _ _ hbelow hnode _ ih =>
    have hsaved := hbelow.savedChild hnode hf hb
    have hs := hsaved.steady_follow
    obtain ⟨hlog, hlater, hcell⟩ := ih (hs.wellFormed hf) (hs.shape.hangs hb.later)
    refine ⟨(hbelow.executes.1.trans hnode.executes.1).trans hlog, hs.trans hlater,
      fun d hd hlink => ?_⟩
    rw [Branches.mem_preOrder_cons, not_or, not_or] at hd
    rw [hcell, World.withState, hsaved.cell_follow (hlink e (List.mem_cons_self ..)).symm,
      hsaved.cell_before hd.1 hd.2.1]
    · rw [World.withState, hs.shape.owner]
      exact hd.2.2
    · intro e' he'
      rw [World.withState, hs.shape.edge]
      exact hlink e' (List.mem_cons_of_mem _ he')

/-- Columns of other records stay. -/
theorem Comes.cell_elsewhere (h : Comes c b w u) (hf : WellFormed w.state)
    (hb : w.state.Hangs n b) {d : CellId} (hn : (w.state.cell d).owner ≠ n)
    (hd : (w.state.cell d).owner ∉ b.preOrder) : u.state.cell d = w.state.cell d := by
  refine (h.reaches hf hb).2.2 d hd ?_
  rintro e he rfl
  have he := edges_of_joins hb he
  exact hn ((hf.owner_link (hf.hasEdge he)).trans (hf.owner_of_edge he))

namespace SavedChild

/-- What is saved later leaves alone the columns of the child and of the records below it. -/
theorem cell_later (h : SavedChild c n e child below w u t)
    (hb : w.state.Hangs n (.cons e child below next))
    (hjoins : (Branches.cons e child below next).joins.Nodup)
    (hlater : Comes c next (t.withState (t.state.followChild e (w.state.isNew child))) v)
    {d : CellId}
    (hd : (w.state.cell d).owner = child ∨ (w.state.cell d).owner ∈ below.preOrder) :
    v.state.cell d = t.state.cell d := by
  have hs := h.steady_follow
  have hn : (w.state.cell d).owner ≠ n := by
    rintro howner
    rw [howner] at hd
    exact hd.elim h.owner_out.1 h.owner_out.2
  have hnext : (w.state.cell d).owner ∉ next.preOrder := by
    rcases hd with hd | hd
    · rw [hd]
      exact child_not_mem_next h.wellFormed hb hjoins
    · exact not_mem_next_of_below h.wellFormed hb hjoins hd
  have hcell := hlater.cell_elsewhere (hs.wellFormed h.wellFormed) (hs.shape.hangs hb.later)
    (d := d) (by rwa [World.withState, hs.shape.owner]) (by rwa [World.withState, hs.shape.owner])
  exact hcell.trans (h.cell_follow_of_owner hn)

/-- Saving the child leaves alone the columns of the records behind the joins after it. -/
theorem cell_earlier (h : SavedChild c n e child below w u t)
    (hb : w.state.Hangs n (.cons e child below next))
    (hjoins : (Branches.cons e child below next).joins.Nodup) {d : CellId}
    (hd : (w.state.cell d).owner ∈ next.preOrder) :
    (t.state.followChild e (w.state.isNew child)).cell d = w.state.cell d := by
  have hn : (w.state.cell d).owner ≠ n := by
    intro howner
    have hlt := (lt_of_mem_preOrder h.wellFormed hb.later hd).1
    rw [howner] at hlt
    exact Nat.lt_irrefl _ hlt
  rw [h.cell_follow_of_owner hn, h.cell_before]
  · exact fun hchild => child_not_mem_next h.wellFormed hb hjoins (hchild ▸ hd)
  · exact fun hbelow => not_mem_next_of_below h.wellFormed hb hjoins hbelow hd

/-- The records behind the later joins keep their keys while the child is saved. -/
theorem keepsKey_earlier (h : SavedChild c n e child below w u t)
    (hb : w.state.Hangs n (.cons e child below next))
    (hjoins : (Branches.cons e child below next).joins.Nodup) {m : NodeId}
    (hm : m ∈ next.preOrder) :
    KeepsKey w.state (t.state.followChild e (w.state.isNew child)) m := by
  have hhas := (lt_of_mem_preOrder h.wellFormed hb.later hm).2
  refine h.steady_follow.shape.keepsKey (h.cell_earlier hb hjoins ?_)
  rwa [h.wellFormed.owner_key hhas]

/-- The child and the records below it keep their keys from the child's turn on. -/
theorem keepsKey_later (h : SavedChild c n e child below w u t)
    (hb : w.state.Hangs n (.cons e child below next))
    (hjoins : (Branches.cons e child below next).joins.Nodup)
    (hlater : Comes c next (t.withState (t.state.followChild e (w.state.isNew child))) v)
    {m : NodeId} (hm : m = child ∨ m ∈ below.preOrder) : KeepsKey t.state v.state m := by
  have hf := h.wellFormed
  obtain ⟨-, ht, hs⟩ := h.steady
  have hhas : w.state.HasNode m := by
    rcases hm with rfl | hm
    · exact h.hasNode
    · exact (lt_of_mem_preOrder hf h.hangs hm).2
  have hv := hs.trans (hlater.reaches (hs.wellFormed hf) (hs.shape.hangs hb.later)).2.1
  have hcell := h.cell_later hb hjoins hlater (d := (w.state.node m).key)
    (by rwa [hf.owner_key hhas])
  have htv : SameShape t.state v.state := Eq.trans hv.shape ht.shape.symm
  refine htv.keepsKey ?_
  rwa [ht.shape.key]

/-- The columns of the records below the child stay from the child's turn on. -/
theorem cell_below (h : SavedChild c n e child below w u t)
    (hb : w.state.Hangs n (.cons e child below next))
    (hjoins : (Branches.cons e child below next).joins.Nodup)
    (hlater : Comes c next (t.withState (t.state.followChild e (w.state.isNew child))) v)
    {d : CellId} (hd : (w.state.cell d).owner ∈ below.preOrder) :
    v.state.cell d = u.state.cell d := by
  rw [h.cell_later hb hjoins hlater (Or.inr hd), h.cell_own]
  rintro howner
  exact not_mem_of_hangs h.wellFormed h.hangs (howner ▸ hd)

/-- From the child's turn on the log goes on and the shape stays. -/
theorem goesOn (h : SavedChild c n e child below w u t)
    (hb : w.state.Hangs n (.cons e child below next))
    (hlater : Comes c next (t.withState (t.state.followChild e (w.state.isNew child))) v) :
    u.log <+: t.log ∧ t.log <+: v.log ∧ SameShape w.state v.state := by
  obtain ⟨_, hnode⟩ := h.own
  have hs := h.steady_follow
  obtain ⟨hlog, hv, -⟩ := hlater.reaches (hs.wellFormed h.wellFormed)
    (hs.shape.hangs hb.later)
  exact ⟨hnode.executes.1, hlog, hs.shape.trans hv.shape⟩

/-- The records below the child keep their keys from the child's turn on. -/
theorem keepsKey_below (h : SavedChild c n e child below w u t)
    (hb : w.state.Hangs n (.cons e child below next))
    (hjoins : (Branches.cons e child below next).joins.Nodup)
    (hlater : Comes c next (t.withState (t.state.followChild e (w.state.isNew child))) v)
    {m : NodeId} (hm : m ∈ below.preOrder) : KeepsKey u.state v.state m := by
  have hf := h.wellFormed
  have hhas := (lt_of_mem_preOrder hf h.hangs hm).2
  have hu := h.steady.1.shape
  refine SameShape.keepsKey (Eq.trans (h.goesOn hb hlater).2.2 hu.symm) ?_
  rw [hu.key]
  exact h.cell_below hb hjoins hlater (by rwa [hf.owner_key hhas])

end SavedChild

/-! ## Columns of the record that joins start at -/

/-- Up to any point, a column of the record that the joins start at stays as it is or takes the key
of a child that it links to. -/
theorem Comes.cell_start (h : Comes c b w u) (hf : WellFormed w.state) (hb : w.state.Hangs n b)
    (hjoins : b.joins.Nodup) {d : CellId} (hd : (w.state.cell d).owner = n) :
    u.state.cell d = w.state.cell d ∨
      ∃ e ∈ b.joins, (w.state.edge e).link = d ∧ LinkTakes w.state u.state e := by
  induction h with
  | start => exact Or.inl rfl
  | deleted _ _ ih =>
    refine (ih hf hb.later (List.nodup_cons.1 hjoins).2 hd).imp_right ?_
    rintro ⟨e, he, h⟩
    exact ⟨e, List.mem_cons_of_mem _ he, h⟩
  | @deeper e child below next w u _ hbelow =>
    obtain ⟨he, hchild, -, hhang, -⟩ := hb
    have hlt := index_lt_childOf hf he
    rw [hchild] at hlt
    refine Or.inl (hbelow.cell_elsewhere hf hhang (fun h => ?_) fun hmem => ?_)
    · rw [← hd, h] at hlt
      exact Nat.lt_irrefl _ hlt
    · have hdeep := (lt_of_mem_preOrder hf hhang hmem).1
      rw [hd] at hdeep
      omega
  | @later e child below next w u t v _ _ _ hbelow hnode hlater ih =>
    have hsaved := hbelow.savedChild hnode hf hb
    have hs := hsaved.steady_follow
    have hfollow := hsaved.cell_followed hd
    rcases ih (hs.wellFormed hf) (hs.shape.hangs hb.later) (List.nodup_cons.1 hjoins).2
      (by rwa [World.withState, hs.shape.owner]) with hcell | ⟨e', he', hlink, htakes⟩
    · -- The later joins leave the link alone, so it has what it took from this child.
      rw [hcell]
      refine hfollow.imp_right ?_
      rintro ⟨hlink, hbound, htaken, hwasNew⟩
      obtain ⟨-, rfl, -⟩ := id hb
      have hkey := hsaved.keepsKey_later hb hjoins hlater (Or.inl rfl)
      refine ⟨e, List.mem_cons_self .., hlink, hkey.isNew.trans hbound, ?_, ?_⟩
      · rw [hlink, hcell, hkey.keyValue]
        exact htaken
      · rwa [hlink]
    · right
      have hlink : (w.state.edge e').link = d := by rwa [World.withState, hs.shape.edge] at hlink
      have hmem := childOf_mem_preOrder hb.later he'
      refine ⟨e', List.mem_cons_of_mem _ he', hlink, htakes.of_start hs.shape ?_ ?_⟩
      · exact (hsaved.keepsKey_earlier hb hjoins hmem).isNew
      · rw [hlink]
        exact hfollow.imp_right fun h => ⟨_, h.2.2.1⟩

end LinkedRows
