/-
# Forests that differ in what was read

Two forests are twins if they have the same records and joins, and the same columns assigned the
same values.  They may differ in which columns are registered at all, and in what was read from
storage, keys included.

Columns of twins correspond by their record and their name (`SameColumn`).  Reading changes only one
of the twins, and so does registering a column; a join is registered in both, through columns that
correspond, and an assignment is made in both (`Twins.learns`, `Twins.withCell`, `Twins.withJoin`,
`Twins.assign`).
-/

import LinkedRows.Proofs.Forest.Below
import LinkedRows.Proofs.Forest.Learning

namespace LinkedRows
namespace Forest

/-- What is assigned to the column of a record with a name, if that is not the key. -/
def pending? (f : Forest) (n : NodeId) (name : String) : Option Value :=
  (f.findCell? n name).bind fun c => if (f.cell c).isKey then none else (f.cell c).assigned

/-- Two forests with the same records, joins and assignments. -/
structure Twins (f g : Forest) : Prop where
  length_nodes : g.nodes.length = f.nodes.length
  length_edges : g.edges.length = f.edges.length
  table (n) : (g.node n).table = (f.node n).table
  edges (n) : (g.node n).edges = (f.node n).edges
  parent (n) : (g.node n).parent = (f.node n).parent
  keyName {n} : f.HasNode n → g.keyName n = f.keyName n
  owner (e) : (g.edge e).owner = (f.edge e).owner
  child (e) : (g.edge e).child = (f.edge e).child
  label (e) : (g.edge e).label = (f.edge e).label
  pending? (n name) : g.pending? n name = f.pending? n name

/-- Columns of two forests with the same owner and the same name. -/
structure SameColumn (f g : Forest) (c d : CellId) : Prop where
  left : f.HasCell c
  right : g.HasCell d
  owner : (g.cell d).owner = (f.cell c).owner
  name : (g.cell d).name = (f.cell c).name

variable {f g f' g' : Forest} {c d : CellId}

/-! ## Assigned columns -/

theorem pending?_eq_some_iff (hf : WellFormed f) {n : NodeId} {name : String} {v : Value} :
    f.pending? n name = some v ↔ ∃ c ∈ (f.node n).cells, (f.cell c).name = name ∧
      (f.cell c).isKey = false ∧ (f.cell c).assigned = some v := by
  rw [pending?, Option.bind_eq_some_iff]
  constructor
  · rintro ⟨c, hc, hv⟩
    obtain ⟨hmem, hname⟩ := (findCell?_eq_some_iff hf).1 hc
    cases hk : (f.cell c).isKey with
    | true =>
      rw [hk] at hv
      cases hv
    | false =>
      rw [hk] at hv
      exact ⟨c, hmem, hname, hk, hv⟩
  · rintro ⟨c, hmem, hname, hk, hv⟩
    refine ⟨c, (findCell?_eq_some_iff hf).2 ⟨hmem, hname⟩, ?_⟩
    rw [hk]
    exact hv

theorem pending?_of_cell (hf : WellFormed f) (hc : f.HasCell c) (hk : (f.cell c).isKey = false) :
    f.pending? (f.cell c).owner (f.cell c).name = (f.cell c).assigned := by
  rw [pending?, (findCell?_eq_some_iff hf).2 ⟨hf.mem_owner hc, rfl⟩, Option.bind_some, hk]
  rfl

/-- A column is the key if it has the name of the key. -/
theorem isKey_iff_keyName (hf : WellFormed f) (hc : f.HasCell c) :
    (f.cell c).isKey = true ↔ f.keyName (f.cell c).owner = (f.cell c).name := by
  rw [hf.isKey_iff hc]
  constructor
  · intro h
    rw [keyName, h]
  · intro h
    exact hf.name_inj (hf.key_mem (hf.hasOwner hc)) (hf.mem_owner hc) h

theorem SameShape.findCell? (hs : SameShape f g) (n : NodeId) (name : String) :
    g.findCell? n name = f.findCell? n name := by
  simp only [Forest.findCell?, hs.cells, hs.name]

theorem pending?_of_sameShape (hs : SameShape f g)
    (h : ∀ c, (f.cell c).isKey = false → (g.cell c).assigned = (f.cell c).assigned)
    (n : NodeId) (name : String) : g.pending? n name = f.pending? n name := by
  rw [pending?, pending?, hs.findCell?]
  congr 1
  funext c
  rw [hs.isKey]
  cases hk : (f.cell c).isKey with
  | true => rfl
  | false => exact h c hk

/-- A change to one column that is no key, and to no other such column. -/
theorem pending?_of_change (hf : WellFormed f) (hs : SameShape f g) (hc : f.HasCell c)
    (hk : (f.cell c).isKey = false)
    (h : ∀ d, d ≠ c → (f.cell d).isKey = false → (g.cell d).assigned = (f.cell d).assigned)
    (n : NodeId) (name : String) : g.pending? n name =
      if n = (f.cell c).owner ∧ name = (f.cell c).name then (g.cell c).assigned
      else f.pending? n name := by
  have hg := hf.of_sameShape hs
  by_cases hsame : n = (f.cell c).owner ∧ name = (f.cell c).name
  · rw [if_pos hsame, hsame.1, hsame.2, ← hs.owner, ← hs.name]
    exact pending?_of_cell hg ((hs.hasCell c).2 hc) ((hs.isKey c).trans hk)
  · rw [if_neg hsame, pending?, pending?, hs.findCell?]
    cases hd : f.findCell? n name with
    | none => rfl
    | some d =>
      obtain ⟨hmem, hname⟩ := (findCell?_eq_some_iff hf).1 hd
      have hne : d ≠ c := by
        rintro rfl
        exact hsame ⟨(hf.owner_of_mem hmem).symm, hname.symm⟩
      rw [Option.bind_some, Option.bind_some, hs.isKey]
      cases hkd : (f.cell d).isKey with
      | true => rfl
      | false => exact h d hne hkd

/-- What is added is not assigned, unless it is a key. -/
theorem pending?_of_extends (hf : WellFormed f) (hg : WellFormed g) (hx : Extends f g)
    (hnew : ∀ c, g.HasCell c → ¬f.HasCell c → (g.cell c).isKey = false →
      (g.cell c).assigned = none) (n : NodeId) (name : String) :
    g.pending? n name = f.pending? n name := by
  ext v
  rw [pending?_eq_some_iff hg, pending?_eq_some_iff hf]
  constructor
  · rintro ⟨c, hmem, hname, hk, hv⟩
    have hcell := hg.hasCell hmem
    have howner := hg.owner_of_mem hmem
    by_cases hc : f.HasCell c
    · rw [hx.cell hc] at hname hk hv howner
      exact ⟨c, howner ▸ hf.mem_owner hc, hname, hk, hv⟩
    · rw [hnew c hcell hc hk] at hv
      cases hv
  · rintro ⟨c, hmem, hname, hk, hv⟩
    have hc := hf.hasCell hmem
    refine ⟨c, (hx.cells (hasNode_of_mem_cells hmem)).subset hmem, ?_⟩
    rw [hx.cell hc]
    exact ⟨hname, hk, hv⟩

/-- The pending columns of a record by name. -/
theorem pendingCells_eq_nil_iff (hf : WellFormed f) {n : NodeId} :
    f.pendingCells n = [] ↔ ∀ name, f.pending? n name = none := by
  constructor
  · intro h name
    by_contra hname
    obtain ⟨v, hv⟩ := Option.ne_none_iff_exists'.1 hname
    obtain ⟨c, hmem, -, hk, hv⟩ := (pending?_eq_some_iff hf).1 hv
    have hc : c ∈ f.pendingCells n :=
      mem_pendingCells.2 ⟨hmem, by rw [Cell.isDirty, hv]; rfl, hk⟩
    rw [h] at hc
    exact absurd hc List.not_mem_nil
  · intro h
    rw [List.eq_nil_iff_forall_not_mem]
    intro c hc
    obtain ⟨hmem, hdirty, hk⟩ := mem_pendingCells.1 hc
    obtain ⟨v, hv⟩ := Option.isSome_iff_exists.1 hdirty
    have hpending := h (f.cell c).name
    rw [(pending?_eq_some_iff hf).2 ⟨c, hmem, rfl, hk, hv⟩] at hpending
    cases hpending

/-! ## Twins -/

theorem SameColumn.of_findCell? (hf : WellFormed f) (hg : WellFormed g) {n : NodeId}
    {name : String} (hc : f.findCell? n name = some c) (hd : g.findCell? n name = some d) :
    SameColumn f g c d := by
  obtain ⟨hmem, hname⟩ := (findCell?_eq_some_iff hf).1 hc
  obtain ⟨hmem', hname'⟩ := (findCell?_eq_some_iff hg).1 hd
  refine ⟨hf.hasCell hmem, hg.hasCell hmem', ?_, hname'.trans hname.symm⟩
  rw [hf.owner_of_mem hmem, hg.owner_of_mem hmem']

/-- A record has no two columns with one name. -/
theorem SameColumn.eq_iff {c' d' : CellId} (h : SameColumn f g c d) (h' : SameColumn f g c' d')
    (hf : WellFormed f) (hg : WellFormed g) : c = c' ↔ d = d' := by
  constructor
  · rintro rfl
    have ho := h.owner.trans h'.owner.symm
    exact hg.name_inj (hg.mem_owner h.right) (ho ▸ hg.mem_owner h'.right)
      (h.name.trans h'.name.symm)
  · rintro rfl
    have ho := h.owner.symm.trans h'.owner
    exact hf.name_inj (hf.mem_owner h.left) (ho ▸ hf.mem_owner h'.left)
      (h.name.symm.trans h'.name)

namespace Twins

theorem refl (f : Forest) : Twins f f where
  length_nodes := rfl
  length_edges := rfl
  table _ := rfl
  edges _ := rfl
  parent _ := rfl
  keyName _ := rfl
  owner _ := rfl
  child _ := rfl
  label _ := rfl
  pending? _ _ := rfl

theorem hasNode (h : Twins f g) (n : NodeId) : g.HasNode n ↔ f.HasNode n := by
  rw [HasNode, HasNode, h.length_nodes]

theorem hasEdge (h : Twins f g) (e : EdgeId) : g.HasEdge e ↔ f.HasEdge e := by
  rw [HasEdge, HasEdge, h.length_edges]

theorem symm (h : Twins f g) : Twins g f where
  length_nodes := h.length_nodes.symm
  length_edges := h.length_edges.symm
  table n := (h.table n).symm
  edges n := (h.edges n).symm
  parent n := (h.parent n).symm
  keyName hn := (h.keyName ((h.hasNode _).1 hn)).symm
  owner e := (h.owner e).symm
  child e := (h.child e).symm
  label e := (h.label e).symm
  pending? n name := (h.pending? n name).symm

theorem childOf (h : Twins f g) (e : EdgeId) : g.childOf e = f.childOf e := h.child e

theorem branches (h : Twins f g) :
    ∀ (depth : Nat) (edges : List EdgeId), g.branches depth edges = f.branches depth edges
  | 0, _ => rfl
  | depth + 1, edges => by
    simp only [Forest.branches]
    congr 1
    funext e next
    rw [h.childOf, h.edges, Twins.branches h depth]

theorem below (h : Twins f g) (n : NodeId) : g.below n = f.below n := by
  rw [Forest.below, Forest.below, h.length_nodes, h.edges, h.branches]

/-- Links correspond. -/
theorem link (h : Twins f g) (hf : WellFormed f) (hg : WellFormed g) {e : EdgeId}
    (he : f.HasEdge e) : SameColumn f g (f.edge e).link (g.edge e).link := by
  have he' := (h.hasEdge e).2 he
  refine ⟨hf.hasLink he, hg.hasLink he', ?_, ?_⟩
  · rw [hf.owner_link he, hg.owner_link he', h.owner]
  · have hlabel := h.label e
    rw [hf.label_eq he, hg.label_eq he'] at hlabel
    exact congrArg Label.link hlabel

theorem key (h : Twins f g) (hf : WellFormed f) (hg : WellFormed g) {n : NodeId}
    (hn : f.HasNode n) : SameColumn f g (f.node n).key (g.node n).key := by
  have hn' := (h.hasNode n).2 hn
  refine ⟨hf.hasCell_key hn, hg.hasCell_key hn', ?_, h.keyName hn⟩
  rw [hf.owner_key hn, hg.owner_key hn']

theorem isKey (h : Twins f g) (hf : WellFormed f) (hg : WellFormed g)
    (hcd : SameColumn f g c d) : (g.cell d).isKey = (f.cell c).isKey := by
  have ho := hf.hasOwner hcd.left
  rw [Bool.eq_iff_iff, isKey_iff_keyName hf hcd.left, isKey_iff_keyName hg hcd.right, hcd.owner,
    hcd.name, h.keyName ho]

theorem assigned (h : Twins f g) (hf : WellFormed f) (hg : WellFormed g)
    (hcd : SameColumn f g c d) (hk : (f.cell c).isKey = false) :
    (g.cell d).assigned = (f.cell c).assigned := by
  rw [← pending?_of_cell hf hcd.left hk,
    ← pending?_of_cell hg hcd.right ((h.isKey hf hg hcd).trans hk), hcd.owner, hcd.name,
    h.pending?]

/-! ## Changes on both sides -/

theorem of_sameShape (h : Twins f g) (hf : SameShape f f') (hg : SameShape g g')
    (hpending : ∀ n name, g'.pending? n name = f'.pending? n name) : Twins f' g' where
  length_nodes := by rw [hf.length_nodes, hg.length_nodes, h.length_nodes]
  length_edges := by rw [hf.length_edges, hg.length_edges, h.length_edges]
  table n := by rw [hf.table, hg.table, h.table]
  edges n := by rw [hf.edges, hg.edges, h.edges]
  parent n := by rw [hf.parent, hg.parent, h.parent]
  keyName {n} hn := by rw [hf.keyName, hg.keyName, h.keyName ((hf.hasNode n).1 hn)]
  owner e := by rw [hf.edge, hg.edge, h.owner]
  child e := by rw [hf.edge, hg.edge, h.child]
  label e := by rw [hf.edge, hg.edge, h.label]
  pending? := hpending

theorem learns (h : Twins f g) (hf : WellFormed f) (hg : WellFormed g) (hff : Learns f f')
    (hgg : Learns g g') : Twins f' g' := by
  refine h.of_sameShape hff.steady.shape hgg.steady.shape fun n name => ?_
  rw [pending?_of_sameShape hgg.steady.shape fun _ hk => hgg.assigned hg hk,
    pending?_of_sameShape hff.steady.shape fun _ hk => hff.assigned hf hk, h.pending?]

/-- A column that is registered in one of the twins is not assigned. -/
theorem withCell (h : Twins f g) (hg : WellFormed g) {n : NodeId} {name : String}
    (hn : g.HasNode n) (hname : g.findCell? n name = none) : Twins f (g.withCell n name) where
  length_nodes := by rw [← h.length_nodes, Forest.withCell, length_nodes_modifyNode]
  length_edges := h.length_edges
  table m := by
    rw [Forest.withCell, node_modifyNode_proj _ Node.table n m]
    · exact h.table m
    · exact fun _ => rfl
  edges m := by
    rw [Forest.withCell, node_modifyNode_proj _ Node.edges n m]
    · exact h.edges m
    · exact fun _ => rfl
  parent m := by
    rw [Forest.withCell, node_modifyNode_proj _ Node.parent n m]
    · exact h.parent m
    · exact fun _ => rfl
  keyName {m} hm := by
    rw [(extends_withCell name hn).keyName hg ((h.hasNode m).2 hm), h.keyName hm]
  owner := h.owner
  child := h.child
  label := h.label
  pending? m x := by
    rw [← h.pending?]
    refine pending?_of_extends hg (hg.withCell hn hname) (extends_withCell name hn) ?_ m x
    intro c hc hold hk
    rw [((hasCell_withCell n c).1 hc).resolve_left hold, cell_newCell]
    rfl

/-- A join is registered in both twins. -/
theorem withJoin (h : Twins f g) (hf : WellFormed f) (hg : WellFormed g)
    (hcd : SameColumn f g c d) {table key : String}
    (hlabel : f.findEdge? (f.cell c).owner ⟨table, key, (f.cell c).name⟩ = none)
    (hlabel' : g.findEdge? (g.cell d).owner ⟨table, key, (g.cell d).name⟩ = none) :
    Twins (f.withJoin c table key) (g.withJoin d table key) := by
  have ho := hf.hasOwner hcd.left
  have ho' := hg.hasOwner hcd.right
  have hpending {f : Forest} (hf : WellFormed f) {c : CellId} (hc : f.HasCell c)
      (hlabel : f.findEdge? (f.cell c).owner ⟨table, key, (f.cell c).name⟩ = none) (n : NodeId)
      (name : String) : (f.withJoin c table key).pending? n name = f.pending? n name := by
    refine pending?_of_extends hf (hf.withJoin hc hlabel) (extends_withJoin (hf.hasOwner hc)) ?_ n
      name
    intro x hx hold hk
    rw [((hasCell_withJoin x).1 hx).resolve_left hold, cell_newChild] at hk
    cases hk
  have hnew : g.newEdge d table key =
      { f.newEdge c table key with link := d } := by
    rw [newEdge, newEdge, hcd.owner, hcd.name, h.length_nodes]
  exact
    { length_nodes := by
        simp only [Forest.withJoin, withChild, addNode, length_nodes_modifyNode, List.length_append,
          h.length_nodes, List.length_cons, List.length_nil]
      length_edges := by
        simp only [Forest.withJoin, withChild, modifyNode, List.length_append, addNode,
          h.length_edges, List.length_cons, List.length_nil]
      table := fun m => by
        rw [node_withJoin ho, node_withJoin ho', h.length_nodes, hcd.owner]
        split
        · rfl
        · split <;> exact h.table m
      edges := fun m => by
        rw [node_withJoin ho, node_withJoin ho', h.length_nodes, h.length_edges, hcd.owner]
        split
        · rfl
        · split
          · exact congrArg (· ++ _) (h.edges m)
          · exact h.edges m
      parent := fun m => by
        rw [node_withJoin ho, node_withJoin ho', h.length_nodes, h.length_edges, hcd.owner]
        split
        · rfl
        · split <;> exact h.parent m
      keyName := fun {m} hm => by
        rcases (hasNode_withJoin m).1 hm with hm | rfl
        · rw [(extends_withJoin ho).keyName hf hm,
            (extends_withJoin ho').keyName hg ((h.hasNode m).2 hm), h.keyName hm]
        · rw [keyName_newChild ho, ← h.length_nodes, keyName_newChild ho']
      owner := fun e => by
        rw [edge_withJoin, edge_withJoin, h.length_edges, hnew]
        split
        · rfl
        · exact h.owner e
      child := fun e => by
        rw [edge_withJoin, edge_withJoin, h.length_edges, hnew]
        split
        · rfl
        · exact h.child e
      label := fun e => by
        rw [edge_withJoin, edge_withJoin, h.length_edges, hnew]
        split
        · rfl
        · exact h.label e
      pending? := fun n name => by
        rw [hpending hf hcd.left hlabel, hpending hg hcd.right hlabel', h.pending?] }

end Twins

/-! ## Assigning -/

/-- From the first forest to the second, no columns were assigned but keys. -/
structure KeepsAssigned (f g : Forest) : Prop where
  shape : SameShape f g
  assigned {x} : (f.cell x).isKey = false → (g.cell x).assigned = (f.cell x).assigned

theorem KeepsAssigned.refl (f : Forest) : KeepsAssigned f f := ⟨rfl, fun _ => rfl⟩

theorem KeepsAssigned.trans {h : Forest} (hfg : KeepsAssigned f g) (hgh : KeepsAssigned g h) :
    KeepsAssigned f h where
  shape := hfg.shape.trans hgh.shape
  assigned {c} hk := by rw [hgh.assigned ((hfg.shape.isKey c).trans hk), hfg.assigned hk]

theorem keepsAssigned_foldl {α : Type} {step : Forest → α → Forest}
    (l : List α) (f : Forest) (hstep : ∀ g, SameShape f g → ∀ a ∈ l, KeepsAssigned g (step g a)) :
    KeepsAssigned f (l.foldl step f) := by
  induction l generalizing f with
  | nil => exact KeepsAssigned.refl f
  | cons a rest ih =>
    have hfirst := hstep f rfl a (List.mem_cons_self ..)
    refine hfirst.trans (ih _ fun g hg b hb => ?_)
    exact hstep g (hfirst.shape.trans hg) b (List.mem_cons_of_mem _ hb)

theorem keepsAssigned_rebindNode (hf : WellFormed f) {n : NodeId} (hn : f.HasNode n)
    (key : Value) : KeepsAssigned f (f.rebindNode n key) := by
  refine ⟨sameShape_rebindNode f n key, fun {c} hk => ?_⟩
  have hne : c ≠ (f.node n).key := by
    rintro rfl
    rw [isKey_key hf hn] at hk
    cases hk
  have hload (g : Forest) (cells : List CellId) :
      KeepsAssigned g (cells.foldl (fun g c => g.modifyCell c (·.load .null)) g) := by
    refine keepsAssigned_foldl cells g fun g _ d _ => ⟨sameShape_loadCell g d _, fun {c} _ => ?_⟩
    exact cell_modifyCell_proj g Cell.assigned d c fun _ => rfl
  have hshape : SameShape f ((f.modifyNode n fun node =>
      { node with current := false, deleted := false }).modifyCell (f.node n).key
        fun c => if key.isNull then c.discard else c.assign key) := by
    refine SameShape.trans (g := f.modifyNode n fun node =>
      { node with current := false, deleted := false }) (sameShape_modifyNode f n fun _ => rfl) ?_
    refine sameShape_modifyCell _ _ fun cell => ?_
    split <;> rfl
  unfold rebindNode
  dsimp only
  rw [(hload _ _).assigned ((hshape.isKey c).trans hk), cell_modifyCell_of_ne _ hne]
  rfl

theorem keepsAssigned_unbindBelow {n : NodeId} (b : Branches) (hf : WellFormed f)
    (hb : f.Hangs n b) : KeepsAssigned f (unbindBelow b f) := by
  induction b generalizing f n with
  | nil => exact KeepsAssigned.refl f
  | cons e child below next ihBelow ihNext =>
    obtain ⟨he, rfl, -, hbelow, hnext⟩ := hb
    rw [unbindBelow]
    split
    · exact ihNext hf hnext
    · have hnode := keepsAssigned_rebindNode hf (hf.hasChild (hf.hasEdge he)) .null
      have hdeep := hnode.trans (ihBelow (hf.of_sameShape hnode.shape) (hnode.shape.hangs hbelow))
      exact hdeep.trans (ihNext (hf.of_sameShape hdeep.shape) (hdeep.shape.hangs hnext))

theorem keepsAssigned_rebind (hf : WellFormed f) {n : NodeId} (hn : f.HasNode n) (key : Value) :
    KeepsAssigned f (f.rebind n key) := by
  have hnode := keepsAssigned_rebindNode hf hn key
  exact hnode.trans (keepsAssigned_unbindBelow _ (hf.of_sameShape hnode.shape)
    (hnode.shape.hangs (hangs_below hf n)))

/-- Of all columns but keys, an assignment assigns the one that it is for. -/
theorem pending?_assignCell (hf : WellFormed f) (hc : f.HasCell c) (v : Value) (n : NodeId)
    (name : String) : (f.modifyCell c (·.assign v)).pending? n name =
      if (f.cell c).isKey = false ∧ n = (f.cell c).owner ∧ name = (f.cell c).name then some v
      else f.pending? n name := by
  have hassign : SameShape f (f.modifyCell c (·.assign v)) :=
    sameShape_modifyCell f c fun _ => rfl
  cases hk : (f.cell c).isKey with
  | true =>
    rw [if_neg fun h => Bool.false_ne_true h.1.symm]
    refine pending?_of_sameShape hassign (fun d hd => ?_) n name
    rw [cell_modifyCell_of_ne]
    rintro rfl
    exact Bool.false_ne_true (hd.symm.trans hk)
  | false =>
    rw [pending?_of_change hf hassign hc hk fun d hd _ => by rw [cell_modifyCell_of_ne f hd],
      cell_modifyCell_self f hc]
    simp only [true_and]
    rfl

/-- The records that are rebound get other keys, and lose no assignments. -/
theorem pending?_assign (hf : WellFormed f) (hc : f.HasCell c) (v : Value) (n : NodeId)
    (name : String) : (f.assign c v).pending? n name =
      if (f.cell c).isKey = false ∧ n = (f.cell c).owner ∧ name = (f.cell c).name then some v
      else f.pending? n name := by
  have hassign : SameShape f (f.modifyCell c (·.assign v)) :=
    sameShape_modifyCell f c fun _ => rfl
  have hrebound : KeepsAssigned (f.modifyCell c (·.assign v)) (f.assign c v) := by
    unfold assign
    dsimp only
    split
    · refine keepsAssigned_foldl _ _ fun g hg m hm => ?_
      obtain ⟨e, he, rfl⟩ := List.mem_map.1 hm
      have hs := hassign.trans hg
      have hhas := hf.hasChild (hf.hasEdge (List.mem_of_mem_filter he))
      exact keepsAssigned_rebind (hf.of_sameShape hs) ((hs.hasNode _).2 hhas) v
    · exact KeepsAssigned.refl _
  rw [pending?_of_sameShape hrebound.shape fun _ hk => hrebound.assigned hk]
  exact pending?_assignCell hf hc v n name

namespace Twins

/-- Columns that correspond are assigned the same value. -/
theorem assign (h : Twins f g) (hf : WellFormed f) (hg : WellFormed g)
    (hcd : SameColumn f g c d) (v : Value) : Twins (f.assign c v) (g.assign d v) := by
  refine h.of_sameShape (sameShape_assign f c v) (sameShape_assign g d v) fun n name => ?_
  rw [pending?_assign hf hcd.left, pending?_assign hg hcd.right, h.isKey hf hg hcd, hcd.owner,
    hcd.name, h.pending?]

theorem assignCell (h : Twins f g) (hf : WellFormed f) (hg : WellFormed g)
    (hcd : SameColumn f g c d) (v : Value) :
    Twins (f.modifyCell c (·.assign v)) (g.modifyCell d (·.assign v)) := by
  refine h.of_sameShape (steady_assignCell f c v).shape (steady_assignCell g d v).shape
    fun n name => ?_
  rw [pending?_assignCell hf hcd.left, pending?_assignCell hg hcd.right, h.isKey hf hg hcd,
    hcd.owner, hcd.name, h.pending?]

end Twins
end Forest
end LinkedRows
