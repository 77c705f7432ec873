/-
# Places in the tree of a record

The records below a record are known by the joins that lead to them, and their columns by chains.
What is there for registered paths is told by their chains alone (`Covers`): the records on the way
of the chains with their keys, and the columns on the way.  So forests that cover the same chains
have the same places, in whatever order the paths were registered.

Two trees are the same up to the order of columns and joins if the same joins lead to records in
both, and records in the same place hold the same (`SameTree`).
-/

import LinkedRows.Proofs.Forest.Twins
import LinkedRows.Proofs.Merging

namespace LinkedRows

/-- A column, whoever owns it. -/
def Cell.unowned (c : Cell) : Cell := { c with owner := default }

@[simp] theorem Cell.name_unowned (c : Cell) : c.unowned.name = c.name := rfl

@[simp] theorem Cell.value_unowned (c : Cell) : c.unowned.value = c.value := rfl

@[simp] theorem Cell.isDirty_unowned (c : Cell) : c.unowned.isDirty = c.isDirty := rfl

theorem Cell.unowned_congr {c d : Cell} (hname : c.name = d.name) (hkey : c.isKey = d.isKey)
    (hstored : c.stored = d.stored) (hassigned : c.assigned = d.assigned) :
    c.unowned = d.unowned := by
  rw [Cell.unowned, Cell.unowned, hname, hkey, hstored, hassigned]

namespace Forest

/-- The name of the key column of the record behind some joins from a record. -/
def keyNameAt (keyName : String) (joins : List Label) : String :=
  (joins.getLast?.map Label.key).getD keyName

/-- The table of the record behind some joins from a record. -/
def tableAt (table : String) (joins : List Label) : String :=
  (joins.getLast?.map Label.table).getD table

variable {f g : Forest} {n m k : NodeId} {d : CellId} {e : EdgeId} {c : Chain}
  {joins : List Label} {chains chains' : List Chain}

/-! ## Walks -/

theorem SameShape.walk? (hs : SameShape f g) (n : NodeId) (joins : List Label) :
    g.walk? n joins = f.walk? n joins := by
  induction joins generalizing n with
  | nil => rfl
  | cons label joins ih => simp only [Forest.walk?, findEdge?, hs.edges, hs.edge, hs.childOf, ih]

theorem SameShape.column? (hs : SameShape f g) (n : NodeId) (c : Chain) :
    g.column? n c = f.column? n c := by
  simp only [Forest.column?, hs.walk?, hs.findCell?]

theorem keyName_of_walk? (hf : WellFormed f) (h : f.walk? n joins = some m) :
    f.keyName m = keyNameAt (f.keyName n) joins := by
  rcases List.eq_nil_or_concat' joins with rfl | ⟨joins, label, rfl⟩
  · obtain rfl := Option.some.inj h
    rfl
  · rw [keyNameAt, List.getLast?_concat, (walk?_label hf h).2]
    rfl

theorem table_of_walk? (hf : WellFormed f) (h : f.walk? n joins = some m) :
    (f.node m).table = tableAt (f.node n).table joins := by
  rcases List.eq_nil_or_concat' joins with rfl | ⟨joins, label, rfl⟩
  · obtain rfl := Option.some.inj h
    rfl
  · rw [tableAt, List.getLast?_concat, (walk?_label hf h).1]
    rfl

/-- The column of a chain is a key if it has the name of one. -/
theorem isKey_iff_keyNameAt (hf : WellFormed f) (h : f.column? n c = some d) :
    (f.cell d).isKey = true ↔ keyNameAt (f.keyName n) c.joins = c.leaf := by
  obtain ⟨hd, hwalk, hname⟩ := (column?_eq_some_iff hf).1 h
  rw [isKey_iff_keyName hf hd, keyName_of_walk? hf hwalk, hname]

/-! ## What is there for registered paths -/

/-- All that is in a forest is a record, and what some chains from it pass through. -/
structure Covers (n : NodeId) (chains : List Chain) (f : Forest) : Prop where
  found : ∀ c ∈ chains, ∃ d, f.column? n c = some d
  node {m : NodeId} : f.HasNode m → ∃ joins, f.walk? n joins = some m ∧
    (joins = [] ∨ joins ∈ chains.flatMap Chain.records)
  cell {d : CellId} : f.HasCell d →
    (f.cell d).isKey = true ∨ ∃ c ∈ chains.flatMap Chain.columns, f.column? n c = some d

namespace Covers

theorem of_sameShape (hc : Covers n chains f) (hs : SameShape f g) : Covers n chains g where
  found c hmem := by
    rw [hs.column?]
    exact hc.found c hmem
  node hm := by
    simp only [hs.walk?]
    exact hc.node ((hs.hasNode _).1 hm)
  cell hd := by
    simp only [hs.column?, hs.isKey]
    exact hc.cell ((hs.hasCell _).1 hd)

/-- A forest that grows for more chains covers these too. -/
theorem adds (hc : Covers n chains f) (hf : WellFormed f)
    (ha : Adds n (chains'.flatMap Chain.records) (chains'.flatMap Chain.columns) f g)
    (hfound : ∀ c ∈ chains', ∃ d, g.column? n c = some d) : Covers n (chains' ++ chains) g where
  found c hmem := by
    rcases List.mem_append.1 hmem with hmem | hmem
    · exact hfound c hmem
    · obtain ⟨d, hd⟩ := hc.found c hmem
      exact ⟨d, column?_of_extends hf (hf.grows ha.grows) (ha.grows.extends hf) hd⟩
  node hm := by
    rw [List.flatMap_append]
    rcases ha.node hm with hm | ⟨joins, hmem, hwalk⟩
    · obtain ⟨joins, hwalk, hmem⟩ := hc.node hm
      exact ⟨joins, walk?_of_extends hf (hf.grows ha.grows) (ha.grows.extends hf) hwalk,
        hmem.imp_right (List.mem_append_right _)⟩
    · exact ⟨joins, hwalk, Or.inr (List.mem_append_left _ hmem)⟩
  cell hd := by
    rw [List.flatMap_append]
    rcases ha.cell hd with hold | hkey | ⟨c, hmem, hcolumn⟩
    · rw [(ha.grows.extends hf).cell hold]
      refine (hc.cell hold).imp_right fun ⟨c, hmem, hcolumn⟩ =>
        ⟨c, List.mem_append_right _ hmem, ?_⟩
      exact column?_of_extends hf (hf.grows ha.grows) (ha.grows.extends hf) hcolumn
    · exact Or.inl hkey
    · exact Or.inr ⟨c, List.mem_append_left _ hmem, hcolumn⟩

/-- The records on the way of the chains, and no other ones, are there. -/
theorem walk?_iff (hc : Covers n chains f) (hf : WellFormed f) (hn : f.HasNode n) :
    (∃ m, f.walk? n joins = some m) ↔ joins = [] ∨ joins ∈ chains.flatMap Chain.records := by
  constructor
  · rintro ⟨m, hm⟩
    obtain ⟨joins', hwalk, hmem⟩ := hc.node (hasNode_of_walk? hf hn hm)
    rwa [walk?_inj hf hm hwalk]
  · rintro (rfl | hmem)
    · exact ⟨n, rfl⟩
    · exact exists_walk?_of_records hf hc.found hmem

/-- The link of a join is on the way of the chains. -/
theorem link (hc : Covers n chains f) (hf : WellFormed f) (hn : f.HasNode n) (he : f.HasEdge e) :
    ∃ c ∈ chains.flatMap Chain.columns, f.column? n c = some (f.edge e).link := by
  obtain ⟨joins, hwalk, -⟩ := hc.node (hf.hasEdgeOwner he)
  have hchild : f.walk? n (joins ++ [(f.edge e).label]) = some (f.childOf e) :=
    walk?_concat_eq_some.2
      ⟨_, e, hwalk, (findEdge?_eq_some_iff hf).2 ⟨hf.mem_edges he, rfl⟩, rfl⟩
  have hrecord := ((hc.walk?_iff hf hn).1 ⟨_, hchild⟩).resolve_left (by simp)
  obtain ⟨c, hmem, hrecord⟩ := List.mem_flatMap.1 hrecord
  refine ⟨⟨joins, (f.edge e).label.link⟩, List.mem_flatMap.2 ⟨c, hmem, ?_⟩, ?_⟩
  · exact Chain.mem_columns.2 (Or.inr ⟨_, (Chain.mem_records.1 hrecord).1, rfl⟩)
  · refine (column?_eq_some_iff hf).2 ⟨hf.hasLink he, ?_, ?_⟩
    · rw [hf.owner_link he, hwalk]
    · rw [hf.label_eq he]

variable {n' : NodeId}

/-- What one forest covers is there in another one that covers the same. -/
theorem exists_walk? (hcf : Covers n chains f) (hcg : Covers n' chains' g) (hf : WellFormed f)
    (hg : WellFormed g) (hn : f.HasNode n) (hn' : g.HasNode n') (hsub : chains ⊆ chains')
    (h : f.walk? n joins = some m) : ∃ k, g.walk? n' joins = some k := by
  refine (hcg.walk?_iff hg hn').2 (((hcf.walk?_iff hf hn).1 ⟨m, h⟩).imp_right fun hmem => ?_)
  obtain ⟨c, hc, hmem⟩ := List.mem_flatMap.1 hmem
  exact List.mem_flatMap.2 ⟨c, hsub hc, hmem⟩

theorem exists_column? (hcf : Covers n chains f) (hcg : Covers n' chains' g) (hf : WellFormed f)
    (hg : WellFormed g) (hn : f.HasNode n) (hn' : g.HasNode n') (hsub : chains ⊆ chains')
    (hkeyName : g.keyName n' = f.keyName n) (h : f.column? n c = some d) :
    ∃ d', g.column? n' c = some d' ∧ (g.cell d').isKey = (f.cell d).isKey := by
  obtain ⟨hd, hwalk, hname⟩ := (column?_eq_some_iff hf).1 h
  have hthere : ∃ d', g.column? n' c = some d' := by
    rcases hcf.cell hd with hkey | ⟨c', hmem, hcolumn⟩
    · obtain ⟨k, hk⟩ := hcf.exists_walk? hcg hf hg hn hn' hsub hwalk
      have hhas := hasNode_of_walk? hg hn' hk
      refine ⟨(g.node k).key, (column?_eq_some_iff hg).2 ⟨hg.hasCell_key hhas, ?_, ?_⟩⟩
      · rwa [hg.owner_key hhas]
      · rw [← (isKey_iff_keyNameAt hf h).1 hkey, ← hkeyName]
        exact keyName_of_walk? hg hk
    · obtain rfl := column?_inj hf h hcolumn
      refine exists_column?_of_columns hg hcg.found ?_
      obtain ⟨c', hc', hmem⟩ := List.mem_flatMap.1 hmem
      exact List.mem_flatMap.2 ⟨c', hsub hc', hmem⟩
  obtain ⟨d', hd'⟩ := hthere
  refine ⟨d', hd', Bool.eq_iff_iff.2 ?_⟩
  rw [isKey_iff_keyNameAt hg hd', isKey_iff_keyNameAt hf h, hkeyName]

end Covers

/-! ## Trees up to order -/

/-- Two records hold the same, with their columns and joins in any order. -/
structure SameRecord (f g : Forest) (m k : NodeId) : Prop where
  table : (g.node k).table = (f.node m).table
  keyName : g.keyName k = f.keyName m
  keyValue : g.keyValue k = f.keyValue m
  isNew : g.isNew k = f.isNew m
  deleted : (g.node k).deleted = (f.node m).deleted
  current : (g.node k).current = (f.node m).current
  columns : ((g.node k).cells.map fun d => (g.cell d).unowned).Perm
    ((f.node m).cells.map fun d => (f.cell d).unowned)
  joins : ((g.node k).edges.map fun e => (g.edge e).label).Perm
    ((f.node m).edges.map fun e => (f.edge e).label)

/-- Two forests are trees that are the same up to the order of columns and joins: the same joins
lead to records in both, and to all of them, and records in the same place hold the same. -/
structure SameTree (n : NodeId) (f g : Forest) : Prop where
  place : ∀ joins, Option.Rel (SameRecord f g) (f.walk? n joins) (g.walk? n joins)
  left {m : NodeId} : f.HasNode m → ∃ joins, f.walk? n joins = some m
  right {m : NodeId} : g.HasNode m → ∃ joins, g.walk? n joins = some m

/-- The columns of records in the same place are the same in any order, if each chain leads to the
same column in both forests. -/
theorem perm_columns (hf : WellFormed f) (hg : WellFormed g) (hm : f.walk? n joins = some m)
    (hk : g.walk? n joins = some k)
    (hcolumn : ∀ c x, (∃ d, f.column? n c = some d ∧ (f.cell d).unowned = x) ↔
      ∃ d, g.column? n c = some d ∧ (g.cell d).unowned = x) :
    ((g.node k).cells.map fun d => (g.cell d).unowned).Perm
      ((f.node m).cells.map fun d => (f.cell d).unowned) := by
  have hnodup {f : Forest} (hf : WellFormed f) (m : NodeId) :
      ((f.node m).cells.map fun d => (f.cell d).unowned).Nodup :=
    List.Nodup.map_on (fun d hd d' hd' heq => hf.name_inj hd hd' (by
      simpa using congrArg Cell.name heq)) (hf.nodup_cells m)
  have hmem {f : Forest} {m : NodeId} (hf : WellFormed f) (hm : f.walk? n joins = some m)
      (x : Cell) : x ∈ (f.node m).cells.map (fun d => (f.cell d).unowned) ↔
        ∃ d, f.column? n ⟨joins, x.name⟩ = some d ∧ (f.cell d).unowned = x := by
    rw [List.mem_map]
    refine exists_congr fun d => ⟨?_, ?_⟩
    · rintro ⟨hd, rfl⟩
      refine ⟨(column?_eq_some_iff hf).2 ⟨hf.hasCell hd, ?_, rfl⟩, rfl⟩
      rwa [hf.owner_of_mem hd]
    · rintro ⟨hd, rfl⟩
      obtain ⟨hcell, hwalk, -⟩ := (column?_eq_some_iff hf).1 hd
      obtain rfl := Option.some.inj (hm.symm.trans hwalk)
      exact ⟨hf.mem_owner hcell, rfl⟩
  refine (List.perm_ext_iff_of_nodup (hnodup hg k) (hnodup hf m)).2 fun x => ?_
  rw [hmem hg hk, hmem hf hm, hcolumn]

/-- The joins of records in the same place are the same in any order, if the same joins lead to
records in both forests. -/
theorem perm_joins (hf : WellFormed f) (hg : WellFormed g) (hm : f.walk? n joins = some m)
    (hk : g.walk? n joins = some k)
    (hwalk : ∀ joins, (∃ m, f.walk? n joins = some m) ↔ ∃ k, g.walk? n joins = some k) :
    ((g.node k).edges.map fun e => (g.edge e).label).Perm
      ((f.node m).edges.map fun e => (f.edge e).label) := by
  have hnodup {f : Forest} (hf : WellFormed f) (m : NodeId) :
      ((f.node m).edges.map fun e => (f.edge e).label).Nodup :=
    List.Nodup.map_on (fun e he e' he' heq => hf.label_inj he he' heq) (hf.nodup_edges m)
  have hmem {f : Forest} {m : NodeId} (hf : WellFormed f) (hm : f.walk? n joins = some m)
      (label : Label) : label ∈ (f.node m).edges.map (fun e => (f.edge e).label) ↔
        ∃ k, f.walk? n (joins ++ [label]) = some k := by
    simp only [List.mem_map, walk?_concat_eq_some, hm, ← findEdge?_eq_some_iff hf]
    constructor
    · rintro ⟨e, he⟩
      exact ⟨_, m, e, rfl, he, rfl⟩
    · rintro ⟨_, _, e, heq, he, -⟩
      obtain rfl := Option.some.inj heq
      exact ⟨e, he⟩
  refine (List.perm_ext_iff_of_nodup (hnodup hg k) (hnodup hf m)).2 fun label => ?_
  rw [hmem hg hk, hmem hf hm, hwalk]

/-- **Forests that cover the same chains are the same tree**, if columns in the same place hold the
same. -/
theorem Covers.sameTree (hcf : Covers n chains f) (hcg : Covers n chains' g) (hf : WellFormed f)
    (hg : WellFormed g) (hn : f.HasNode n) (hn' : g.HasNode n)
    (hchains : ∀ c, c ∈ chains ↔ c ∈ chains') (htable : (g.node n).table = (f.node n).table)
    (hkeyName : g.keyName n = f.keyName n)
    (hcell : ∀ c d d', f.column? n c = some d → g.column? n c = some d' →
      (g.cell d').unowned = (f.cell d).unowned)
    (hnode : ∀ m k, (g.node k).deleted = (f.node m).deleted ∧
      (g.node k).current = (f.node m).current) : SameTree n f g := by
  have hsub : chains ⊆ chains' := fun c => (hchains c).1
  have hsub' : chains' ⊆ chains := fun c => (hchains c).2
  have hwalk (joins : List Label) :
      (∃ m, f.walk? n joins = some m) ↔ ∃ k, g.walk? n joins = some k :=
    ⟨fun ⟨_, h⟩ => hcf.exists_walk? hcg hf hg hn hn' hsub h,
      fun ⟨_, h⟩ => hcg.exists_walk? hcf hg hf hn' hn hsub' h⟩
  have hcolumn (c : Chain) (x : Cell) : (∃ d, f.column? n c = some d ∧ (f.cell d).unowned = x) ↔
      ∃ d, g.column? n c = some d ∧ (g.cell d).unowned = x := by
    constructor
    · rintro ⟨d, hd, rfl⟩
      obtain ⟨d', hd', -⟩ := hcf.exists_column? hcg hf hg hn hn' hsub hkeyName hd
      exact ⟨d', hd', hcell c d d' hd hd'⟩
    · rintro ⟨d', hd', rfl⟩
      obtain ⟨d, hd, -⟩ := hcg.exists_column? hcf hg hf hn' hn hsub' hkeyName.symm hd'
      exact ⟨d, hd, (hcell c d d' hd hd').symm⟩
  refine ⟨fun joins => ?_, fun hm => (hcf.node hm).imp fun _ h => h.1,
    fun hm => (hcg.node hm).imp fun _ h => h.1⟩
  cases hm : f.walk? n joins with
  | none =>
    cases hk : g.walk? n joins with
    | none => exact .none
    | some k =>
      obtain ⟨m, h⟩ := (hwalk joins).2 ⟨k, hk⟩
      cases hm.symm.trans h
  | some m =>
    obtain ⟨k, hk⟩ := (hwalk joins).1 ⟨m, hm⟩
    rw [hk]
    have hasM := hasNode_of_walk? hf hn hm
    have hasK := hasNode_of_walk? hg hn' hk
    have hname : g.keyName k = f.keyName m := by
      rw [keyName_of_walk? hg hk, keyName_of_walk? hf hm, hkeyName]
    -- The keys are columns in the same place.
    have hkey : (g.cell (g.node k).key).unowned = (f.cell (f.node m).key).unowned := by
      refine hcell ⟨joins, f.keyName m⟩ _ _ ((column?_eq_some_iff hf).2
        ⟨hf.hasCell_key hasM, ?_, rfl⟩) ((column?_eq_some_iff hg).2
          ⟨hg.hasCell_key hasK, ?_, hname⟩)
      · rwa [hf.owner_key hasM]
      · rwa [hg.owner_key hasK]
    exact .some
      { table := by rw [table_of_walk? hg hk, table_of_walk? hf hm, htable]
        keyName := hname
        keyValue := by simpa [keyValue] using congrArg Cell.value hkey
        isNew := by simpa [isNew] using congrArg Cell.isDirty hkey
        deleted := (hnode m k).1
        current := (hnode m k).2
        columns := perm_columns hf hg hm hk hcolumn
        joins := perm_joins hf hg hm hk hwalk }

end Forest
end LinkedRows
