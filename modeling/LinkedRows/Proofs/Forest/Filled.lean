/-
# Forests filled with fields

A forest that was never read (`Unfetched`) holds nothing from storage, and the child of each join
has the value of its link for its key: a link that is assigned before the join is there gives the
child its key when it is joined, and one that is assigned later when it is bound.  Both growing and
assigning a column for the first time keep a forest so, if no link is a key.

What such a forest holds is then told by the fields that were assigned, each known by the chain of
its column (`Filled`).  Neither the order of the chains nor that of the fields is told, so forests
that were filled with the same fields are the same tree (`Filled.sameTree`).
-/

import LinkedRows.Proofs.Forest.Lone
import LinkedRows.Proofs.Places
import LinkedRows.Proofs.Relinking

namespace LinkedRows
namespace Forest

variable {f g : Forest} {n m k : NodeId} {d : CellId} {e : EdgeId} {v : Value}

/-! ## Nothing was read -/

/-- Nothing was read and nothing deleted, and all children have the values of their links for their
keys. -/
structure Unfetched (f : Forest) : Prop extends WellFormed f where
  stored (x : CellId) : (f.cell x).stored = .null
  undeleted (m : NodeId) : (f.node m).deleted = false
  stale (m : NodeId) : (f.node m).current = false
  matched {e : EdgeId} : f.HasEdge e → f.Matched e

namespace Unfetched

theorem consistent (hf : Unfetched f) : Consistent f := ⟨hf.toWellFormed, fun d _ => hf.stored d⟩

theorem addRoot_empty (table keyName : String) (key : Value) :
    Unfetched (Forest.empty.addRoot table keyName key).2 where
  toWellFormed := WellFormed.empty.addRoot table keyName key
  stored d := by
    rw [Forest.addRoot, cell_addNode]
    split <;> rfl
  undeleted := (Intact.empty.addRoot table keyName key).undeleted
  stale n := by
    rw [Forest.addRoot, node_addNode]
    split <;> rfl
  matched he := absurd he (Nat.not_lt_zero _)

theorem withCell (hf : Unfetched f) {name : String} (hn : f.HasNode n)
    (hname : f.findCell? n name = none) : Unfetched (f.withCell n name) where
  toWellFormed := hf.toWellFormed.withCell hn hname
  stored d := by
    rw [cell_withCell]
    split
    · rfl
    · exact hf.stored d
  undeleted m := by
    rw [node_withCell hn]
    split <;> exact hf.undeleted _
  stale m := by
    rw [node_withCell hn]
    split
    · rfl
    · exact hf.stale m
  matched {e} he := by
    have hold : f.HasEdge e := he
    exact ((extends_withCell name hn).kept hf.toWellFormed hold).matched_iff.2 (hf.matched hold)

theorem withJoin (hf : Unfetched f) {link : CellId} {table key : String} (hl : f.HasCell link)
    (hlabel : f.findEdge? (f.cell link).owner ⟨table, key, (f.cell link).name⟩ = none) :
    Unfetched (f.withJoin link table key) where
  toWellFormed := hf.toWellFormed.withJoin hl hlabel
  stored d := by
    rw [cell_withJoin]
    split
    · rfl
    · exact hf.stored d
  undeleted m := by
    rw [node_withJoin (hf.hasOwner hl)]
    split
    · rfl
    · split <;> exact hf.undeleted _
  stale m := by
    rw [node_withJoin (hf.hasOwner hl)]
    split
    · rfl
    · split <;> exact hf.stale _
  matched {e} he := by
    have hx : Extends f (f.withJoin link table key) := extends_withJoin (hf.hasOwner hl)
    rcases (hasEdge_withJoin e).1 he with hold | rfl
    · exact (hx.kept hf.toWellFormed hold).matched_iff.2 (hf.matched hold)
    · -- The new child was given the value of the link.
      rw [Matched, childKey, linkValue, edge_newJoin, newEdge,
        cell_key_newChild (hf.hasOwner hl), hx.cell hl]
      rfl

theorem grows (hf : Unfetched f) (hg : Grows f g) : Unfetched g := by
  induction hg with
  | refl => exact hf
  | cell _ hn hname ih => exact ih.withCell hn hname
  | join _ hl hlabel ih => exact ih.withJoin hl hlabel

theorem value_eq_null (hf : Unfetched f) (hd : (f.cell d).assigned = none) :
    (f.cell d).value = .null := by
  rw [Cell.value, hd, Option.getD_none, hf.stored]

/-- Assigning null to a column that was not assigned leaves all joins as they are. -/
theorem kept_assign_null (hf : Unfetched f) (hd : f.HasCell d) (hk : (f.cell d).isKey = false)
    (hfirst : (f.cell d).assigned = none) (he : f.HasEdge e) : Kept f (f.assign d .null) e := by
  have hnull := hf.value_eq_null hfirst
  rw [assign_of_unchanged (by rw [hnull]; rfl)]
  refine ⟨?_, ?_⟩
  · rw [linkValue, linkValue, edge_modifyCell]
    by_cases hlink : (f.edge e).link = d
    · rw [hlink, cell_modifyCell_self f hd, hnull]
      rfl
    · rw [cell_modifyCell_of_ne f hlink]
  · rw [childKey, childKey, edge_modifyCell, node_modifyCell]
    exact cell_key_assignCell hf.toWellFormed hk (hf.hasChild he) .null

/-- A column that was not assigned can be, if no link is a key. -/
theorem assign (hf : Unfetched f) (hd : f.HasCell d) (hk : (f.cell d).isKey = false)
    (hfirst : (f.cell d).assigned = none)
    (hlinks : ∀ e, f.HasEdge e → (f.cell (f.edge e).link).isKey = false) (v : Value) :
    Unfetched (f.assign d v) := by
  have hforgets := forgets_assign f d v
  have hmatched (e : EdgeId) (he : f.HasEdge e) : (f.assign d v).Matched e := by
    cases hchanged : (f.cell d).value.agrees v with
    | true =>
      obtain rfl : v = .null := by
        rw [hf.value_eq_null hfirst] at hchanged
        cases v <;> first | rfl | cases hchanged
      exact (hf.kept_assign_null hd hk hfirst he).matched_iff.2 (hf.matched he)
    | false =>
      have hthrough : ¬f.ThroughKey (f.linkedBy d) e := fun h => by
        have hkey := isKey_key hf.toWellFormed (hf.hasEdgeOwner he)
        rw [← h.2, hlinks e he] at hkey
        cases hkey
      rcases (assign_joins hf.consistent hd hk hchanged he).2 fun _ => hthrough with h | h
      · exact h.matched_iff.2 (hf.matched he)
      · exact h
  refine ⟨hf.of_sameShape hforgets.shape, fun c => ?_, fun n => ?_, fun n => ?_, fun {e} he => ?_⟩
  · exact (hforgets.stored c).elim (fun h => h.trans (hf.stored c)) id
  · rw [← Bool.not_eq_true]
    exact fun h => Bool.false_ne_true ((hf.undeleted n).symm.trans (hforgets.deleted n h))
  · rw [← Bool.not_eq_true]
    intro h
    have h := (rebinds_assign hf.toWellFormed d v).current h
    rw [node_modifyCell, hf.stale] at h
    cases h
  · exact hmatched e ((hforgets.shape.hasEdge e).1 he)

end Unfetched
/-! ## Fields -/

variable {start : Forest} {chains new : List Chain} {fields fields' : List (Chain × Value)}
  {c : Chain} {joins : List Label}

/-- The records and columns of a forest are those that some chains from a record pass through, and
of the columns, apart from keys, some fields are assigned and no other ones. -/
structure Filled (start : Forest) (n : NodeId) (chains : List Chain)
    (fields : List (Chain × Value)) (f : Forest) : Prop extends Unfetched f, Covers n chains f where
  hasRoot : f.HasNode n
  table : (f.node n).table = (start.node n).table
  key : f.cell (f.node n).key = start.cell (start.node n).key
  registered : ∀ x ∈ fields, x.1 ∈ chains
  pending (m : NodeId) (name : String) (v : Value) : f.pending? m name = some v ↔
    ∃ joins, f.walk? n joins = some m ∧ (⟨joins, name⟩, v) ∈ fields

namespace Filled

theorem addRoot_empty (table keyName : String) (key : Value) :
    let start := (Forest.empty.addRoot table keyName key).2
    Filled start ⟨0⟩ [] [] start := by
  intro start
  have hlone : Lone ⟨0⟩ key start := lone_addRoot table keyName key
  have hkeys (d : CellId) (hd : start.HasCell d) : (start.cell d).isKey = true :=
    isKey_addRoot_empty hd
  exact
    { toUnfetched := Unfetched.addRoot_empty table keyName key
      found := fun _ h => absurd h List.not_mem_nil
      node := fun hm => ⟨[], congrArg some (hlone.only hm).symm, Or.inl rfl⟩
      cell := fun hd => Or.inl (hkeys _ hd)
      hasRoot := hlone.hasRoot
      table := rfl
      key := rfl
      registered := fun _ h => absurd h List.not_mem_nil
      pending := fun m name v => by
        rw [pending?_eq_some_iff hlone.toWellFormed]
        constructor
        · rintro ⟨d, hmem, -, hk, -⟩
          exact absurd ((hkeys d (hlone.hasCell hmem)).symm.trans hk) (by decide)
        · rintro ⟨_, _, h⟩
          cases h }

theorem keyName (hf : Filled start n chains fields f) : f.keyName n = start.keyName n :=
  congrArg Cell.name hf.key

theorem adds (hf : Filled start n chains fields f)
    (ha : Adds n (new.flatMap Chain.records) (new.flatMap Chain.columns) f g)
    (hfound : ∀ c ∈ new, ∃ d, g.column? n c = some d) :
    Filled start n (new ++ chains) fields g := by
  have hwf := hf.toWellFormed
  have hg := hwf.grows ha.grows
  have hx := ha.grows.extends hwf
  have hpending (m : NodeId) (name : String) : g.pending? m name = f.pending? m name := by
    exact pending?_of_extends hwf hg hx (fun _ => ha.grows.unassigned) m name
  refine
    { toUnfetched := hf.toUnfetched.grows ha.grows
      toCovers := hf.toCovers.adds hwf ha hfound
      hasRoot := hx.hasNode hf.hasRoot
      table := (hx.table hf.hasRoot).trans hf.table
      key := ?_
      registered := fun x hx => List.mem_append_right _ (hf.registered x hx)
      pending := fun m name v => ?_ }
  · rw [hx.key hf.hasRoot, hx.cell (hwf.hasCell_key hf.hasRoot), hf.key]
  · rw [hpending, hf.pending]
    refine exists_congr fun joins => and_congr_left fun hmem => ?_
    -- The chains of the fields lead where they led.
    obtain ⟨d, hd⟩ := hf.found _ (hf.registered _ hmem)
    obtain ⟨k, hk, -⟩ := Option.bind_eq_some_iff.1 hd
    rw [show f.walk? n joins = some k from hk, walk?_of_extends hwf hg hx hk]

theorem free_links (hf : Filled start n chains fields f)
    (hfree : ∀ c ∈ chains.flatMap Chain.columns, keyNameAt (start.keyName n) c.joins ≠ c.leaf)
    (he : f.HasEdge e) : (f.cell (f.edge e).link).isKey = false := by
  obtain ⟨c, hmem, hlink⟩ := hf.toCovers.link hf.toWellFormed hf.hasRoot he
  rw [← Bool.not_eq_true, isKey_iff_keyNameAt hf.toWellFormed hlink, hf.keyName]
  exact hfree c hmem

theorem assign (hf : Filled start n chains fields f)
    (hfree : ∀ c ∈ chains.flatMap Chain.columns, keyNameAt (start.keyName n) c.joins ≠ c.leaf)
    (hc : c ∈ chains) (hd : f.column? n c = some d) (hfirst : ∀ x ∈ fields, x.1 ≠ c) (v : Value) :
    Filled start n chains ((c, v) :: fields) (f.assign d v) := by
  have hwf := hf.toWellFormed
  have hs := sameShape_assign f d v
  obtain ⟨hcell, hwalk, hname⟩ := (column?_eq_some_iff hwf).1 hd
  have hk : (f.cell d).isKey = false := by
    rw [← Bool.not_eq_true, isKey_iff_keyNameAt hwf hd, hf.keyName]
    exact hfree c (List.mem_flatMap.2 ⟨c, hc, Chain.mem_columns.2 (Or.inl rfl)⟩)
  have hunassigned : (f.cell d).assigned = none := by
    rw [Option.eq_none_iff_forall_ne_some]
    intro x hx
    rw [← pending?_of_cell hwf hcell hk, hf.pending] at hx
    obtain ⟨joins, hjoins, hmem⟩ := hx
    rw [walk?_inj hwf hjoins hwalk, hname] at hmem
    exact hfirst _ hmem rfl
  refine
    { toUnfetched := hf.toUnfetched.assign hcell hk hunassigned (fun e => hf.free_links hfree) v
      toCovers := hf.toCovers.of_sameShape hs
      hasRoot := (hs.hasNode n).2 hf.hasRoot
      table := (hs.table n).trans hf.table
      key := ?_
      registered := List.forall_mem_cons.2 ⟨hc, hf.registered⟩
      pending := fun m name x => ?_ }
  · have hne : (f.node n).key ≠ d := by
      rintro rfl
      exact absurd ((isKey_key hwf hf.hasRoot).symm.trans hk) (by decide)
    have hassign : SameShape f (f.modifyCell d (·.assign v)) :=
      sameShape_modifyCell f d fun _ => rfl
    rw [hs.key, (rebinds_assign hwf d v).cell (hwf.of_sameShape hassign),
      cell_modifyCell_of_ne f hne, hf.key]
    rw [hassign.owner, hwf.owner_key hf.hasRoot]
    have := index_le_of_walk? hwf hwalk
    omega
  · rw [pending?_assign hwf hcell]
    simp only [hs.walk?, List.mem_cons, Prod.mk.injEq]
    by_cases hsame : m = (f.cell d).owner ∧ name = (f.cell d).name
    · obtain ⟨rfl, rfl⟩ := hsame
      rw [if_pos ⟨hk, rfl, rfl⟩, hname]
      constructor
      · intro hx
        exact ⟨c.joins, hwalk, Or.inl ⟨rfl, (Option.some.inj hx).symm⟩⟩
      · rintro ⟨joins, hjoins, hmem⟩
        obtain rfl := walk?_inj hwf hjoins hwalk
        rcases hmem with ⟨-, rfl⟩ | hmem
        · rfl
        · exact absurd rfl (hfirst _ hmem)
    · rw [if_neg fun h => hsame h.2, hf.pending]
      refine exists_congr fun joins => and_congr_right fun hjoins => (or_iff_right ?_).symm
      rintro ⟨rfl, -⟩
      exact hsame ⟨Option.some.inj (hjoins.symm.trans hwalk), hname.symm⟩

/-- A column that is no key is assigned the value of its field. -/
theorem assigned_iff (hf : Filled start n chains fields f) (hd : f.column? n c = some d)
    (hk : (f.cell d).isKey = false) (v : Value) :
    (f.cell d).assigned = some v ↔ (c, v) ∈ fields := by
  obtain ⟨hcell, hwalk, hname⟩ := (column?_eq_some_iff hf.toWellFormed).1 hd
  rw [← pending?_of_cell hf.toWellFormed hcell hk, hf.pending, hname]
  constructor
  · rintro ⟨joins, hjoins, hmem⟩
    rwa [walk?_inj hf.toWellFormed hjoins hwalk] at hmem
  · intro hmem
    exact ⟨c.joins, hwalk, hmem⟩

variable {d' : CellId} {chains' : List Chain}

/-- Columns that are no keys hold the same if the same fields were assigned. -/
theorem unowned_of_not_key (hf : Filled start n chains fields f)
    (hg : Filled start n chains' fields' g) (hfields : ∀ x, x ∈ fields ↔ x ∈ fields')
    (hd : f.column? n c = some d) (hd' : g.column? n c = some d')
    (hk : (f.cell d).isKey = false) : (g.cell d').unowned = (f.cell d).unowned := by
  have hname := ((column?_eq_some_iff hf.toWellFormed).1 hd).2.2
  have hname' := ((column?_eq_some_iff hg.toWellFormed).1 hd').2.2
  have hk' : (g.cell d').isKey = false := by
    rw [← Bool.not_eq_true, isKey_iff_keyNameAt hg.toWellFormed hd', hg.keyName, ← hf.keyName,
      ← isKey_iff_keyNameAt hf.toWellFormed hd, hk]
    decide
  refine Cell.unowned_congr (hname'.trans hname.symm) (hk'.trans hk.symm)
    ((hg.stored d').trans (hf.stored d).symm) (Option.ext fun v => ?_)
  rw [hg.assigned_iff hd' hk', hf.assigned_iff hd hk, hfields]

/-- Keys hold the same then too: children have the values of their links for their keys. -/
theorem unowned_of_key (hf : Filled start n chains fields f)
    (hg : Filled start n chains' fields' g) (hfields : ∀ x, x ∈ fields ↔ x ∈ fields')
    (hfree : ∀ c ∈ chains.flatMap Chain.columns, keyNameAt (start.keyName n) c.joins ≠ c.leaf)
    (hd : f.column? n c = some d) (hd' : g.column? n c = some d')
    (hk : (f.cell d).isKey = true) : (g.cell d').unowned = (f.cell d).unowned := by
  have hwf := hf.toWellFormed
  have hwg := hg.toWellFormed
  obtain ⟨hcell, hwalk, hname⟩ := (column?_eq_some_iff hwf).1 hd
  obtain ⟨hcell', hwalk', hname'⟩ := (column?_eq_some_iff hwg).1 hd'
  have hk' : (g.cell d').isKey = true := by
    rwa [isKey_iff_keyNameAt hwg hd', hg.keyName, ← hf.keyName, ← isKey_iff_keyNameAt hwf hd]
  have hkey := (hwf.isKey_iff hcell).1 hk
  have hkey' := (hwg.isKey_iff hcell').1 hk'
  rcases List.eq_nil_or_concat' c.joins with hnil | ⟨joins, label, hjoins⟩
  · -- The key of the record itself is what it was.
    rw [hnil] at hwalk hwalk'
    obtain rfl := Option.some.inj hwalk
    rw [← Option.some.inj hwalk'] at hkey'
    rw [← hkey, ← hkey', hf.key, hg.key]
  · rw [hjoins] at hwalk hwalk'
    obtain ⟨e, he, hchild, hlink⟩ := link_of_walk? hwf hwalk
    obtain ⟨e', he', hchild', hlink'⟩ := link_of_walk? hwg hwalk'
    have hvalue : g.linkValue e' = f.linkValue e := by
      have h := hf.unowned_of_not_key hg hfields hlink hlink' (hf.free_links hfree he)
      simpa [linkValue] using congrArg Cell.value h
    have hmatched := hf.matched he
    have hmatched' := hg.matched he'
    rw [Matched, childKey, ← childOf, hchild, hkey] at hmatched
    rw [Matched, childKey, ← childOf, hchild', hkey', hvalue] at hmatched'
    exact Cell.unowned_congr (hname'.trans hname.symm) (hk'.trans hk.symm)
      ((hg.stored d').trans (hf.stored d).symm) (hmatched'.trans hmatched.symm)

/-- **Forests that are filled with the same fields are the same tree**, in whatever order these were
assigned. -/
theorem sameTree (hf : Filled start n chains fields f) (hg : Filled start n chains' fields' g)
    (hchains : ∀ c, c ∈ chains ↔ c ∈ chains') (hfields : ∀ x, x ∈ fields ↔ x ∈ fields')
    (hfree : ∀ c ∈ chains.flatMap Chain.columns, keyNameAt (start.keyName n) c.joins ≠ c.leaf) :
    SameTree n f g := by
  refine hf.toCovers.sameTree hg.toCovers hf.toWellFormed hg.toWellFormed hf.hasRoot hg.hasRoot
    hchains (hg.table.trans hf.table.symm) (hg.keyName.trans hf.keyName.symm)
    (fun c d d' hd hd' => ?_) fun m k => ?_
  · cases hk : (f.cell d).isKey with
    | true => exact hf.unowned_of_key hg hfields hfree hd hd' hk
    | false => exact hf.unowned_of_not_key hg hfields hd hd' hk
  · rw [hg.undeleted, hf.undeleted, hg.stale, hf.stale]
    exact ⟨rfl, rfl⟩

end Filled
end Forest
end LinkedRows
