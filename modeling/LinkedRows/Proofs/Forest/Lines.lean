/-
# Lines

A forest in which one path was registered is a line: from the root on, each record has one column
besides its key, which is the link to the next record, and the last one has the column that the path
ends in.  `Unread` says so of the line from a record on, and that nothing was read along it: what
the records hold is not known, those behind the first are new, and only the last column may be
assigned.

That registering leads to a line follows from what it adds (`unread_of_adds`): a record or a column
that were not on the way of the chain would be reached by two different chains.
-/

import LinkedRows.Proofs.Forest.Changes
import LinkedRows.Proofs.Forest.Lone
import LinkedRows.Proofs.Forest.Tracking
import LinkedRows.Proofs.Merging
import LinkedRows.Proofs.Tables

namespace LinkedRows
namespace Forest

variable {f g : Forest} {n m root : NodeId} {d : CellId} {e : EdgeId} {label : Label}
  {joins rest : List Label} {leaf name : String} {a b : Option Value}

/-! ## One column -/

/-- A record has one column besides its key. -/
structure Single (f : Forest) (n : NodeId) (d : CellId) (name : String) : Prop where
  mem : d ∈ (f.node n).cells
  isKey : (f.cell d).isKey = false
  name : (f.cell d).name = name
  only {x} : x ∈ (f.node n).cells → (f.cell x).isKey = false → x = d

theorem filter_eq_singleton {α : Type} {l : List α} {x : α} {p : α → Bool} (hl : l.Nodup)
    (hx : x ∈ l) (hp : ∀ y ∈ l, p y = true ↔ y = x) : l.filter p = [x] := by
  refine List.perm_singleton.1 ?_
  refine (List.perm_ext_iff_of_nodup (hl.filter p) (List.nodup_singleton x)).2 fun y => ?_
  rw [List.mem_filter, List.mem_singleton]
  constructor
  · rintro ⟨hy, hpy⟩
    exact (hp y hy).1 hpy
  · rintro rfl
    exact ⟨hx, (hp y hx).2 rfl⟩

namespace Single

theorem hasNode (h : f.Single n d name) : f.HasNode n := hasNode_of_mem_cells h.mem

theorem hasCell (h : f.Single n d name) (hf : WellFormed f) : f.HasCell d := hf.hasCell h.mem

theorem owner (h : f.Single n d name) (hf : WellFormed f) : (f.cell d).owner = n :=
  hf.owner_of_mem h.mem

theorem of_sameShape (h : f.Single n d name) (hs : SameShape f g) : g.Single n d name where
  mem := by
    rw [hs.cells]
    exact h.mem
  isKey := (hs.isKey d).trans h.isKey
  name := (hs.name d).trans h.name
  only hx hk := by
    rw [hs.cells] at hx
    exact h.only hx ((hs.isKey _).symm.trans hk)

/-- The columns that a save writes, if the column is assigned. -/
theorem pendingCells_of_dirty (h : f.Single n d name) (hf : WellFormed f)
    (hdirty : (f.cell d).isDirty = true) : f.pendingCells n = [d] := by
  refine filter_eq_singleton (hf.nodup_cells n) h.mem fun x hx => ?_
  rw [Bool.and_eq_true, Bool.not_eq_true']
  constructor
  · exact fun hxd => h.only hx hxd.2
  · rintro rfl
    exact ⟨hdirty, h.isKey⟩

theorem pendingCells_of_clean (h : f.Single n d name) (hclean : (f.cell d).isDirty = false) :
    f.pendingCells n = [] := by
  refine List.filter_eq_nil_iff.2 fun x hx hxd => ?_
  rw [Bool.and_eq_true, Bool.not_eq_true'] at hxd
  rw [h.only hx hxd.2, hclean] at hxd
  exact Bool.false_ne_true hxd.1

/-- The columns that a fetch reads, if the column is not assigned. -/
theorem cleanCells (h : f.Single n d name) (hf : WellFormed f) (hbound : f.isNew n = false)
    (hclean : (f.cell d).isDirty = false) : f.cleanCells n = [d] := by
  refine filter_eq_singleton (hf.nodup_cells n) h.mem fun x hx => ?_
  rw [Bool.not_eq_true']
  constructor
  · exact fun hxd => h.only hx (isKey_eq_false_of_clean hf hx hbound hxd)
  · rintro rfl
    exact hclean

end Single

/-- A record has one join, and its column is the link of that join. -/
structure Link (f : Forest) (n : NodeId) (e : EdgeId) (label : Label) : Prop extends
    Single f n (f.edge e).link label.link where
  edges : (f.node n).edges = [e]
  label : (f.edge e).label = label

namespace Link

theorem mem_edges (h : f.Link n e label) : e ∈ (f.node n).edges := by
  rw [h.edges]
  exact List.mem_singleton_self e

theorem index_lt (h : f.Link n e label) (hf : WellFormed f) : n.index < (f.childOf e).index :=
  index_lt_childOf hf h.mem_edges

theorem hasEdge (h : f.Link n e label) (hf : WellFormed f) : f.HasEdge e :=
  hf.hasEdge h.mem_edges

theorem hasChild (h : f.Link n e label) (hf : WellFormed f) : f.HasNode (f.childOf e) :=
  hf.hasChild (h.hasEdge hf)

theorem of_sameShape (h : f.Link n e label) (hs : SameShape f g) : g.Link n e label where
  toSingle := by
    rw [hs.edge]
    exact h.toSingle.of_sameShape hs
  edges := (hs.edges n).trans h.edges
  label := by rw [hs.edge, h.label]

/-- The child is a record of the table and with the key column that the label names. -/
theorem place (h : f.Link n e label) (hf : WellFormed f) :
    (f.node (f.childOf e)).table = label.table ∧ f.keyName (f.childOf e) = label.key := by
  rw [← h.label, hf.label_eq (h.hasEdge hf)]
  exact ⟨rfl, rfl⟩

theorem below (h : f.Link n e label) (hf : WellFormed f) :
    f.below n = .cons e (f.childOf e) (f.below (f.childOf e)) .nil := by
  rw [below_eq_hang hf, h.edges]
  rfl

/-- A record other than the owner of the link is not reached by what reaches the owner. -/
theorem child_ne (h : f.Link n e label) (hf : WellFormed f) : f.childOf e ∉ [n] := by
  intro hmem
  have hlt := h.index_lt hf
  rw [List.mem_singleton.1 hmem] at hlt
  exact Nat.lt_irrefl _ hlt

end Link

theorem below_of_no_edges (hf : WellFormed f) (h : (f.node n).edges = []) : f.below n = .nil := by
  rw [below_eq_hang hf, h]
  rfl

/-! ## Lines of which nothing was read -/

/-- From a record on there is one way down, to one column, and nothing was read along it. -/
inductive Unread (f : Forest) (leaf : String) (a : Option Value) (d : CellId) :
    NodeId → List Label → Prop
  | last {n : NodeId} : f.Single n d leaf → (f.node n).edges = [] → (f.cell d).assigned = a →
      (f.node n).current = false → Unread f leaf a d n []
  | join {n : NodeId} {e : EdgeId} {label : Label} {rest : List Label} : f.Link n e label →
      (f.cell (f.edge e).link).assigned = none → (f.cell (f.edge e).link).stored = .null →
      (f.node n).current = false → f.isNew (f.childOf e) = true →
      Unread f leaf a d (f.childOf e) rest → Unread f leaf a d n (label :: rest)

namespace Unread

theorem hasNode (h : f.Unread leaf a d n joins) : f.HasNode n := by
  cases h with
  | last hs => exact hs.hasNode
  | join hl => exact hl.hasNode

theorem notCurrent (h : f.Unread leaf a d n joins) : (f.node n).current = false := by
  cases h with
  | last _ _ _ hcurrent => exact hcurrent
  | join _ _ _ hcurrent => exact hcurrent

/-- The line ends at the owner of its column. -/
theorem atEnd (h : f.Unread leaf a d n joins) (hf : WellFormed f) :
    f.Single (f.cell d).owner d leaf ∧ (f.node (f.cell d).owner).edges = [] ∧
      (f.cell d).assigned = a ∧ n.index ≤ (f.cell d).owner.index := by
  induction h with
  | last hs hedges ha =>
    rw [hs.owner hf]
    exact ⟨hs, hedges, ha, Nat.le_refl _⟩
  | join hl _ _ _ _ _ ih =>
    have hlt := hl.index_lt hf
    exact ⟨ih.1, ih.2.1, ih.2.2.1, by omega⟩

/-- A change that leaves alone the line from a record on, except what is assigned to the column at
its end. -/
theorem congr (h : f.Unread leaf a d n joins) (hf : WellFormed f) (hs : SameShape f g)
    (hcurrent : ∀ m : NodeId, n.index ≤ m.index → (g.node m).current = (f.node m).current)
    (hcell : ∀ x, (f.cell x).isKey = false → x ≠ d → n.index ≤ (f.cell x).owner.index →
      g.cell x = f.cell x)
    (hnew : ∀ m : NodeId, n.index < m.index → f.HasNode m → g.isNew m = f.isNew m)
    (hd : (g.cell d).assigned = b) : g.Unread leaf b d n joins := by
  induction h with
  | last hsingle hedges ha hc =>
    exact .last (hsingle.of_sameShape hs) ((hs.edges _).trans hedges) hd
      ((hcurrent _ (Nat.le_refl _)).trans hc)
  | @join n e label rest hl hassigned hstored hc hchild hrest ih =>
    have hlt := hl.index_lt hf
    have hlink : g.cell (f.edge e).link = f.cell (f.edge e).link := by
      have howner := hl.owner hf
      refine hcell _ hl.isKey ?_ (Nat.le_of_eq (congrArg NodeId.index howner.symm))
      rintro rfl
      have hend := (hrest.atEnd hf).2.2.2
      rw [howner] at hend
      omega
    have hrest : g.Unread leaf b d (g.childOf e) rest := by
      rw [hs.childOf]
      exact ih (fun m hm => hcurrent m (by omega)) (fun x hk hx ho => hcell x hk hx (by omega))
        fun m hm => hnew m (by omega)
    refine .join (hl.of_sameShape hs) ?_ ?_ ((hcurrent _ (Nat.le_refl _)).trans hc) ?_ hrest
    · rw [hs.edge, hlink, hassigned]
    · rw [hs.edge, hlink, hstored]
    · rw [hs.childOf, hnew _ hlt (hl.hasChild hf), hchild]

/-- What reaches older records alone leaves a line unread. -/
theorem of_reaches (h : f.Unread leaf a d n joins) (hf : WellFormed f) (hr : Reaches [m] f g)
    (hlt : m.index < n.index) (hnode : ∀ k, k ≠ m → g.node k = f.node k) :
    g.Unread leaf a d n joins := by
  have hne {k : NodeId} (hk : n.index ≤ k.index) : k ∉ [m] := by
    intro hmem
    rw [List.mem_singleton.1 hmem] at hk
    omega
  refine h.congr hf hr.shape (fun k hk => ?_) (fun x _ _ ho => hr.cell (hne ho))
    (fun k hk hhas => hr.isNew hf hhas (hne (Nat.le_of_lt hk))) ?_
  · rw [hnode k fun h => hne hk (List.mem_singleton.2 h)]
  · obtain ⟨-, -, ha, hle⟩ := h.atEnd hf
    rw [hr.cell (hne hle), ha]

/-- The first record of a line may get a key. -/
theorem seed (h : f.Unread leaf a d (f.childOf e) joins) (hf : WellFormed f) (he : f.HasEdge e) :
    (f.seedChild e).Unread leaf a d (f.childOf e) joins := by
  have hcell {x : CellId} (hk : (f.cell x).isKey = false) : (f.seedChild e).cell x = f.cell x := by
    refine cell_seedChild_of_ne ?_
    rintro rfl
    rw [isKey_key hf (hf.hasChild he)] at hk
    cases hk
  refine h.congr hf (steady_seedChild f e).shape (fun m _ => ?_) (fun x hk _ _ => hcell hk)
    (fun m hm hhas => ?_) ?_
  · rw [node_seedChild]
  · refine (reaches_seedChild hf he).isNew hf hhas fun hmem => ?_
    rw [List.mem_singleton.1 hmem] at hm
    exact Nat.lt_irrefl _ hm
  · obtain ⟨hsingle, -, ha, -⟩ := h.atEnd hf
    rw [hcell hsingle.isKey, ha]

/-- A line on whose last column something is assigned has changes. -/
theorem hasChanges (h : f.Unread leaf a d n joins) (hf : Intact f) (ha : a.isSome = true) :
    f.hasChanges n = true := by
  induction h with
  | last hs _ hassigned =>
    refine hasChanges_of_pendingCells hf ?_
    rw [hs.pendingCells_of_dirty hf.toWellFormed (by rw [Cell.isDirty, hassigned, ha])]
    exact List.cons_ne_nil _ _
  | join hl _ _ _ _ _ ih =>
    have hedge := hl.hasEdge hf.toWellFormed
    have howner := hf.owner_of_edge hl.mem_edges
    rw [← howner]
    exact hasChanges_owner hf hedge ih

/-- Assigning the column at the end of a line changes nothing else. -/
theorem assign (h : f.Unread leaf a d n joins) (hf : WellFormed f) (v : Value) :
    (f.assign d v).Unread leaf (some v) d n joins ∧
      f.assign d v = f.modifyCell d (·.assign v) := by
  obtain ⟨hsingle, hedges, -, -⟩ := h.atEnd hf
  have heq : f.assign d v = f.modifyCell d (·.assign v) := by
    have hlinked : f.linkedBy d = [] := by
      rw [linkedBy, hedges]
      rfl
    unfold Forest.assign
    dsimp only
    have hshape := (steady_assignCell f d v).shape
    rw [hlinked]
    split <;> rfl
  refine ⟨?_, heq⟩
  rw [heq]
  refine h.congr hf (steady_assignCell f d v).shape (fun _ _ => rfl)
    (fun x _ hx _ => cell_modifyCell_of_ne f hx _)
    (fun m _ hm => isNew_assignCell hf hsingle.isKey hm v) ?_
  rw [cell_modifyCell_self f (hsingle.hasCell hf)]
  rfl

end Unread

/-! ## Registering one path -/

/-- A record that was joined through a link that is null is new. -/
theorem Grows.isNew_child (hf : WellFormed f) (hg : Grows f g) (he : g.HasEdge e)
    (hadded : ¬f.HasEdge e) (hnull : (g.cell (g.edge e).link).value = .null) :
    g.isNew (g.edge e).child = true := by
  induction hg with
  | refl => exact absurd he hadded
  | @cell g n name hg hn hname ih =>
    have hwf := hf.grows hg
    have hx := extends_withCell name hn
    have he : g.HasEdge e := he
    rw [hx.edge he] at hnull ⊢
    rw [hx.cell (hwf.hasLink he)] at hnull
    rw [hx.isNew hwf (hwf.hasChild he)]
    exact ih he hnull
  | @join g link table key hg hl hlabel ih =>
    have hwf := hf.grows hg
    have ho := hwf.hasOwner hl
    have hx : Extends g (g.withJoin link table key) := extends_withJoin ho
    rcases (hasEdge_withJoin e).1 he with he | rfl
    · rw [hx.edge he] at hnull ⊢
      rw [hx.cell (hwf.hasLink he)] at hnull
      rw [hx.isNew hwf (hwf.hasChild he)]
      exact ih he hnull
    · rw [edge_newJoin, newEdge] at hnull ⊢
      rw [hx.cell hl] at hnull
      rw [isNew_newChild ho, hnull]
      rfl

/-- All columns besides keys, and all joins, are on the way of one chain. -/
structure OneWay (g : Forest) (root : NodeId) (c : Chain) : Prop extends WellFormed g where
  column {n x} : x ∈ (g.node n).cells → (g.cell x).isKey = false →
    ∃ c' ∈ c.columns, g.column? root c' = some x ∧ g.walk? root c'.joins = some n
  edge {n e before} : g.walk? root before = some n → e ∈ (g.node n).edges →
    before ++ [(g.edge e).label] <+: c.joins

theorem isKey_of_name_ne (hf : WellFormed f) (hmem : d ∈ (f.node n).cells)
    (h : (f.cell d).name ≠ f.keyName n) : (f.cell d).isKey = false := by
  by_contra hk
  rw [Bool.not_eq_false, hf.isKey_of_mem hmem] at hk
  exact h (by rw [← hk, keyName])

namespace OneWay

variable {c : Chain}

/-- The last record of the chain has the column at its end and no joins. -/
theorem last (h : g.OneWay root c) (hfound : g.column? root c = some d)
    (hname : c.leaf ≠ g.keyName (g.cell d).owner) :
    g.Single (g.cell d).owner d c.leaf ∧ (g.node (g.cell d).owner).edges = [] := by
  have hg := h.toWellFormed
  obtain ⟨hd, hwalk, hleaf⟩ := (column?_eq_some_iff hg).1 hfound
  have hmem := hg.mem_owner hd
  have hk := isKey_of_name_ne hg hmem (by rwa [hleaf])
  refine ⟨⟨hmem, hk, hleaf, fun {x} hx hkx => ?_⟩, ?_⟩
  · obtain ⟨c', hc', hfound', hwalk'⟩ := h.column hx hkx
    rcases Chain.mem_columns.1 hc' with rfl | ⟨label, hle, -⟩
    · exact Option.some.inj (hfound'.symm.trans hfound)
    · have hlen := hle.length_le
      rw [walk?_inj hg hwalk' hwalk, List.length_append, List.length_singleton] at hlen
      omega
  · refine List.eq_nil_iff_forall_not_mem.2 fun e he => ?_
    have hlen := (h.edge hwalk he).length_le
    rw [List.length_append, List.length_singleton] at hlen
    omega

/-- A record on the way has the next join and no other one, and the link of that join. -/
theorem link (h : g.OneWay root c) {before : List Label}
    (hjoins : c.joins = before ++ label :: rest) (hwalk : g.walk? root before = some n)
    (he : g.findEdge? n label = some e) (hname : label.link ≠ g.keyName n) :
    g.Link n e label := by
  have hg := h.toWellFormed
  obtain ⟨he, hlabel⟩ := (findEdge?_eq_some_iff hg).1 he
  have hedge := hg.hasEdge he
  have hmem : (g.edge e).link ∈ (g.node n).cells := hg.owner_of_edge he ▸ hg.link_mem hedge
  have hlink : (g.cell (g.edge e).link).name = label.link := by
    rw [← hlabel, hg.label_eq hedge]
  have hk := isKey_of_name_ne hg hmem (by rwa [hlink])
  refine ⟨⟨hmem, hk, hlink, fun {x} hx hkx => ?_⟩, ?_, hlabel⟩
  · obtain ⟨c', hc', hfound', hwalk'⟩ := h.column hx hkx
    have hsame := walk?_inj hg hwalk' hwalk
    rcases Chain.mem_columns.1 hc' with rfl | ⟨label', hle, hleaf⟩
    · rw [hjoins, List.append_right_eq_self] at hsame
      cases hsame
    · rw [hsame, hjoins, List.prefix_append_right_inj, List.cons_prefix_cons] at hle
      have hxName := ((column?_eq_some_iff hg).1 hfound').2.2
      refine hg.name_inj hx hmem ?_
      rw [hxName, ← hleaf, hle.1, hlink]
  · refine List.perm_singleton.1 ((List.perm_ext_iff_of_nodup (hg.nodup_edges n)
      (List.nodup_singleton e)).2 fun e' => ?_)
    rw [List.mem_singleton]
    constructor
    · intro he'
      have hle := h.edge hwalk he'
      rw [hjoins, List.prefix_append_right_inj, List.cons_prefix_cons] at hle
      exact hg.label_inj he' he (hle.1.trans hlabel.symm)
    · rintro rfl
      exact he

end OneWay

section

variable {key : Value} {c : Chain} {keyName : String → String}

/-- A record alone that a path was registered for has the way of its chain below it. -/
theorem Adds.oneWay (hf : Lone root key f) (hkeys : ∀ x, f.HasCell x → (f.cell x).isKey = true)
    (hadds : Adds root c.records c.columns f g) : g.OneWay root c where
  toWellFormed := hf.toWellFormed.grows hadds.grows
  column {n x} hmem hk := by
    have hg := hf.toWellFormed.grows hadds.grows
    rcases hadds.cell (hg.hasCell hmem) with hold | hkey | ⟨c', hc', hx⟩
    · rw [(hadds.grows.extends hf.toWellFormed).cell hold, hkeys x hold] at hk
      cases hk
    · exact absurd (hk.symm.trans hkey) (by decide)
    · have hwalk := ((column?_eq_some_iff hg).1 hx).2.1
      rw [hg.owner_of_mem hmem] at hwalk
      exact ⟨c', hc', hx, hwalk⟩
  edge {n e before} hwalk he := by
    have hg := hf.toWellFormed.grows hadds.grows
    have hstep : g.walk? root (before ++ [(g.edge e).label]) = some (g.childOf e) :=
      walk?_concat_eq_some.2 ⟨n, e, hwalk, (findEdge?_eq_some_iff hg).2 ⟨he, rfl⟩, rfl⟩
    rcases hadds.node (hg.hasChild (hg.hasEdge he)) with hold | ⟨joins, hjoins, hwalk'⟩
    · -- The only record that was there is no child.
      have hlt := index_lt_childOf hg he
      have hle := index_le_of_walk? hg hwalk
      rw [childOf, hf.only hold] at hlt
      omega
    · rw [← walk?_inj hg hwalk' hstep]
      exact (Chain.mem_records.1 hjoins).1

/-- **Registering one path for a record alone leads to a line.** -/
theorem unread_of_adds (hf : Lone root key f) (hkeys : ∀ x, f.HasCell x → (f.cell x).isKey = true)
    (hadds : Adds root c.records c.columns f g) (hfound : g.column? root c = some d)
    (hroot : g.keyName root = keyName (g.node root).table)
    (haddr : Tables.Addressed keyName c.leaf (g.node root).table c.joins) :
    g.Unread c.leaf none d root c.joins := by
  have hwf := hf.toWellFormed
  have hway := hadds.oneWay hf hkeys
  have hg := hway.toWellFormed
  have hcurrent (m : NodeId) : (g.node m).current = false := by
    by_contra h
    have hm := hadds.grows.wasCurrent hwf (Bool.not_eq_false _ ▸ h)
    rw [hf.only (hasNode_of_current hm), hf.stale] at hm
    cases hm
  have hassigned {x : CellId} (hk : (g.cell x).isKey = false) : (g.cell x).assigned = none := by
    have hclean := (hf.toUntouched.grows hadds.grows).clean hk
    rwa [Cell.isDirty, Option.isSome_eq_false_iff, Option.isNone_iff_eq_none] at hclean
  have hstored {x : CellId} (hk : (g.cell x).isKey = false) : (g.cell x).stored = .null := by
    refine hadds.grows.stored_null fun hold => ?_
    rw [(hadds.grows.extends hwf).cell hold, hkeys x hold] at hk
    cases hk
  obtain ⟨-, hwalkEnd, -⟩ := (column?_eq_some_iff hg).1 hfound
  suffices h : ∀ (rest before : List Label) (n : NodeId), c.joins = before ++ rest →
      g.walk? root before = some n → g.keyName n = keyName (g.node n).table →
      Tables.Addressed keyName c.leaf (g.node n).table rest →
        g.Unread c.leaf none d n rest from
    h c.joins [] root rfl rfl hroot haddr
  intro rest
  induction rest with
  | nil =>
    intro before n hjoins hwalk hkeyName hleaf
    rw [List.append_nil] at hjoins
    rw [hjoins, hwalk] at hwalkEnd
    obtain rfl := Option.some.inj hwalkEnd
    obtain ⟨hsingle, hedges⟩ := hway.last hfound (by rwa [hkeyName])
    exact .last hsingle hedges (hassigned hsingle.isKey) (hcurrent _)
  | cons label rest ih =>
    intro before n hjoins hwalk hkeyName haddr
    obtain ⟨hlinkName, hlabelKey, hrest⟩ := haddr
    have hsplit : before ++ label :: rest = (before ++ [label]) ++ rest := by simp
    rw [hjoins, hsplit, walk?_append, Option.bind_eq_some_iff] at hwalkEnd
    obtain ⟨k, hk, -⟩ := hwalkEnd
    obtain ⟨n', e, hn', hfind, rfl⟩ := walk?_concat_eq_some.1 hk
    obtain rfl := Option.some.inj (hwalk.symm.trans hn')
    have hlink := hway.link hjoins hwalk hfind (by rwa [hkeyName])
    have hvalue : (g.cell (g.edge e).link).value = .null := by
      rw [Cell.value, hassigned hlink.isKey, hstored hlink.isKey]
      rfl
    obtain ⟨htable, hkeyColumn⟩ := hlink.place hg
    refine .join hlink (hassigned hlink.isKey) (hstored hlink.isKey) (hcurrent n)
      (hadds.grows.isNew_child hwf (hlink.hasEdge hg) (hf.noEdge e) hvalue)
      (ih (before ++ [label]) _ (hjoins.trans hsplit) hk ?_ ?_)
    · rw [htable, hkeyColumn, hlabelKey]
    · rwa [htable]

end

/-- On the way down from a record without a parent, that record comes first. -/
theorem chain_of_walk? (hf : WellFormed f) (hroot : (f.node n).parent = none)
    (h : f.walk? n joins = some m) : ∃ rest, f.chain m = n :: rest := by
  induction joins using List.reverseRecOn generalizing m with
  | nil =>
    obtain rfl := Option.some.inj h
    exact ⟨[], chain_of_parent_none hroot⟩
  | append_singleton joins label ih =>
    obtain ⟨k, e, hk, he, rfl⟩ := walk?_concat_eq_some.1 h
    obtain ⟨he, -⟩ := (findEdge?_eq_some_iff hf).1 he
    obtain ⟨rest, hrest⟩ := ih hk
    have hparent : (f.node (f.childOf e)).parent = some e := hf.parent_child (hf.hasEdge he)
    refine ⟨rest ++ [f.childOf e], ?_⟩
    rw [chain_of_parent hf hparent, hf.owner_of_edge he, hrest]
    rfl

end Forest
end LinkedRows
