/-
# Paths that mean the same are merged

Registering paths adds what their chains pass through and is not there yet, and nothing else
(`Adds`, by induction on the path: a link adds what is on its own way, the join adds one record with
its key column, and the inner path adds the rest behind that record).  Since different chains lead
to different records and columns, what is added can be counted: `register_merges` lists it without
repetition, whatever the order of the paths and however often they are registered.

A key column comes with its record.  So a column that is asked for by the name of the key of a
record that is not there yet is not added besides (`Forest.provides`).
-/

import LinkedRows.Proofs.Chains
import LinkedRows.Proofs.Operations
import Mathlib.Data.List.Dedup
import Mathlib.Data.List.Range

namespace LinkedRows

namespace Chain

/-- The chain behind some joins. -/
def under (joins : List Label) (c : Chain) : Chain := ⟨joins ++ c.joins, c.leaf⟩

variable {c d : Chain} {joins rest : List Label}

theorem append_mem_records (h : rest ∈ c.records) : joins ++ rest ∈ (c.under joins).records := by
  obtain ⟨hle, hne⟩ := mem_records.1 h
  refine mem_records.2 ⟨(List.prefix_append_right_inj joins).2 hle, fun hnil => hne ?_⟩
  exact (List.append_eq_nil_iff.1 hnil).2

theorem under_mem_columns (h : d ∈ c.columns) : d.under joins ∈ (c.under joins).columns := by
  rw [mem_columns] at h ⊢
  rcases h with rfl | ⟨label, hle, hleaf⟩
  · exact Or.inl rfl
  · refine Or.inr ⟨label, ?_, hleaf⟩
    rw [under, under, List.append_assoc]
    exact (List.prefix_append_right_inj joins).2 hle

/-- What is on the way of a link is on the way of the joins behind it. -/
theorem records_of_link (label : Label) (h : joins ∈ c.records) :
    joins ∈ (d.under (c.joins ++ [label])).records := by
  obtain ⟨hle, hne⟩ := mem_records.1 h
  refine mem_records.2 ⟨hle.trans ?_, hne⟩
  exact ⟨label :: d.joins, by simp [under]⟩

theorem columns_of_link {label : Label} (hlabel : label.link = c.leaf) {e : Chain}
    (h : e ∈ c.columns) : e ∈ (d.under (c.joins ++ [label])).columns := by
  rw [mem_columns] at h ⊢
  refine Or.inr ?_
  rcases h with rfl | ⟨label', hle, hleaf⟩
  · exact ⟨label, List.prefix_append _ _, hlabel⟩
  · refine ⟨label', hle.trans ?_, hleaf⟩
    exact ⟨label :: d.joins, by simp [under]⟩

end Chain

namespace Forest

variable {f g h : Forest} {n : NodeId}

/-! ## What registering adds -/

/-- The second forest has grown from the first one, and all that is new in it is behind some of the
joins from a record, or a column that one of the chains leads to, or the key of a new record. -/
structure Adds (n : NodeId) (records : List (List Label)) (columns : List Chain) (f g : Forest) :
    Prop where
  grows : Grows f g
  node {k : NodeId} : g.HasNode k → f.HasNode k ∨ ∃ joins ∈ records, g.walk? n joins = some k
  cell {d : CellId} : g.HasCell d →
    f.HasCell d ∨ (g.cell d).isKey = true ∨ ∃ c ∈ columns, g.column? n c = some d

namespace Adds

variable {records records' : List (List Label)} {columns columns' : List Chain}

theorem refl (n : NodeId) (f : Forest) : Adds n [] [] f f := ⟨.refl, Or.inl, Or.inl⟩

theorem mono (ha : Adds n records columns f g) (hrecords : ∀ joins ∈ records, joins ∈ records')
    (hcolumns : ∀ c ∈ columns, c ∈ columns') : Adds n records' columns' f g where
  grows := ha.grows
  node hm := (ha.node hm).imp_right fun ⟨joins, h, hwalk⟩ => ⟨joins, hrecords _ h, hwalk⟩
  cell hd := (ha.cell hd).imp_right (Or.imp_right fun ⟨c, h, hfound⟩ => ⟨c, hcolumns _ h, hfound⟩)

theorem trans (hf : WellFormed f) (ha : Adds n records columns f g)
    (hb : Adds n records columns g h) : Adds n records columns f h := by
  have hg := hf.grows ha.grows
  have hx := hb.grows.extends hg
  have hh := hg.grows hb.grows
  refine ⟨ha.grows.trans hb.grows, fun {m} hm => ?_, fun {d} hd => ?_⟩
  · rcases hb.node hm with hm | hm
    · refine (ha.node hm).imp_right fun ⟨joins, hmem, hwalk⟩ => ⟨joins, hmem, ?_⟩
      exact walk?_of_extends hg hh hx hwalk
    · exact Or.inr hm
  · rcases hb.cell hd with hd | hd
    · rcases ha.cell hd with hold | hkey | ⟨c, hmem, hfound⟩
      · exact Or.inl hold
      · exact Or.inr (Or.inl (by rwa [hx.cell hd]))
      · exact Or.inr (Or.inr ⟨c, hmem, column?_of_extends hg hh hx hfound⟩)
    · exact Or.inr hd

/-- What is added from a record is added from where a walk to it starts. -/
theorem under {joins : List Label} {k : NodeId} (ha : Adds k records columns f g)
    (hwalk : g.walk? n joins = some k) :
    Adds n (records.map (joins ++ ·)) (columns.map (Chain.under joins)) f g where
  grows := ha.grows
  node hm := (ha.node hm).imp_right fun ⟨rest, hmem, hrest⟩ =>
    ⟨_, List.mem_map_of_mem hmem, by rw [walk?_append, hwalk]; exact hrest⟩
  cell hd := (ha.cell hd).imp_right (Or.imp_right fun ⟨c, hmem, hfound⟩ =>
    ⟨_, List.mem_map_of_mem hmem, by
      rw [column?, Chain.under, walk?_append, hwalk]
      exact hfound⟩)

end Adds

theorem adds_ensureCell (hf : WellFormed f) (hn : f.HasNode n) (name : String) :
    Adds n [] [⟨[], name⟩] f (f.ensureCell n name).2 where
  grows := grows_ensureCell hn name
  node {m} hm := by
    refine Or.inl ?_
    cases hname : f.findCell? n name with
    | some d => rwa [ensureCell_of_some hname] at hm
    | none =>
      rw [ensureCell_of_none hname] at hm
      exact (hasNode_withCell n m).1 hm
  cell {d} hd := by
    refine (hasCell_ensureCell hd).imp_right fun hlast => Or.inr ⟨_, List.mem_singleton_self _, ?_⟩
    rw [hlast]
    exact ensureCell_spec hf hn name

/-- A join adds its record, with a key column and no other one. -/
theorem adds_ensureJoin (hf : WellFormed f) {link : CellId} (hl : f.HasCell link)
    {joins : List Label} (table key : String) (hwalk : f.walk? n joins = some (f.cell link).owner) :
    Adds n [joins ++ [⟨table, key, (f.cell link).name⟩]] [] f (f.ensureJoin link table key).2 ∧
      (f.ensureJoin link table key).2.walk? n (joins ++ [⟨table, key, (f.cell link).name⟩]) =
        some (f.ensureJoin link table key).1 := by
  have hgrows := grows_ensureJoin hl table key
  have hg := hf.grows hgrows
  have hx := hgrows.extends hf
  have hchild : (f.ensureJoin link table key).2.walk? n
      (joins ++ [⟨table, key, (f.cell link).name⟩]) = some (f.ensureJoin link table key).1 := by
    obtain ⟨e, he, hchild⟩ := Option.map_eq_some_iff.1 (ensureJoin_spec hf hl table key)
    rw [hx.cell hl] at he
    exact walk?_concat_eq_some.2 ⟨_, e, walk?_of_extends hf hg hx hwalk, he, hchild⟩
  refine ⟨⟨hgrows, fun {m} hm => ?_, fun {d} hd => ?_⟩, hchild⟩
  · cases he : f.findEdge? (f.cell link).owner ⟨table, key, (f.cell link).name⟩ with
    | some e =>
      rw [ensureJoin_of_some he] at hm
      exact Or.inl hm
    | none =>
      rw [ensureJoin_of_none he] at hm hchild ⊢
      refine ((hasNode_withJoin m).1 hm).imp_right fun hlast => ?_
      exact ⟨_, List.mem_singleton_self _, hlast ▸ hchild⟩
  · cases he : f.findEdge? (f.cell link).owner ⟨table, key, (f.cell link).name⟩ with
    | some e =>
      rw [ensureJoin_of_some he] at hd
      exact Or.inl hd
    | none =>
      rw [ensureJoin_of_none he] at hd ⊢
      refine ((hasCell_withJoin d).1 hd).imp_right fun hlast => Or.inl ?_
      rw [hlast, cell_newChild]
      rfl

/-- **A path adds what its chain passes through.** -/
theorem growColumn_adds (hf : WellFormed f) {p : Path} (hp : p.LinksFit)
    (hend : p.endsInColumn = true) (hn : f.HasNode n) :
    Adds n p.chain.records p.chain.columns f ((p.growColumn n).perform f).2 := by
  induction p generalizing f n with
  | column name =>
    exact (adds_ensureCell hf hn name).mono (fun _ h => absurd h List.not_mem_nil)
      fun c hc => Chain.mem_columns.2 (Or.inl (List.mem_singleton.1 hc))
  | table => cases hend
  | join name key link inner ihLink ihInner =>
    obtain ⟨hlink, hlinkEnd, hinner⟩ := hp
    obtain ⟨linkCell, hok⟩ := Path.exists_growColumn hlink hlinkEnd n f
    have hlinkAdds := ihLink hf hlink hlinkEnd hn
    have hlookup := (growColumn_spec hf hn (p := link)).2 linkCell hok
    rcases hr : (link.growColumn n).perform f with ⟨r, g⟩
    rw [hr] at hok hlinkAdds hlookup
    obtain rfl : r = .ok linkCell := hok
    have hg := hf.grows hlinkAdds.grows
    rw [lookupColumn?_eq hg hlink hlinkEnd] at hlookup
    obtain ⟨hl, hwalk, hname⟩ := (column?_eq_some_iff hg).1 hlookup
    obtain ⟨hjoinAdds, hchild⟩ := adds_ensureJoin hg hl name key hwalk
    rw [hname] at hjoinAdds hchild
    have hj := hg.grows hjoinAdds.grows
    have hn' := (hjoinAdds.grows.extends hg).hasNode ((hlinkAdds.grows.extends hf).hasNode hn)
    have hinnerAdds := ihInner hj hinner hend (hasNode_of_walk? hj hn' hchild)
    rw [Path.growColumn, Growth.perform_bind_ok hr,
      Growth.perform_bind_ok (Growth.perform_ofForest _ g)]
    -- All three parts are on the way of the whole chain.
    have hchain : (Path.join name key link inner).chain =
        inner.chain.under (link.chain.joins ++ [⟨name, key, link.chain.leaf⟩]) := by
      simp [Path.chain, Chain.under]
    rw [hchain]
    have hlast := hinnerAdds.under (walk?_of_extends hj (hj.grows hinnerAdds.grows)
      (hinnerAdds.grows.extends hj) hchild)
    refine ((hlinkAdds.mono (fun joins h => ?_) fun c hc => ?_).trans hf
      (hjoinAdds.mono (fun joins h => ?_) fun c hc => ?_)).trans hf
        (hlast.mono (fun joins h => ?_) fun c hc => ?_)
    · exact Chain.records_of_link _ h
    · exact Chain.columns_of_link rfl hc
    · rw [List.mem_singleton.1 h]
      exact Chain.mem_records.2 ⟨List.prefix_append _ _, by simp⟩
    · exact absurd hc List.not_mem_nil
    · obtain ⟨rest, hrest, rfl⟩ := List.mem_map.1 h
      exact Chain.append_mem_records hrest
    · obtain ⟨rest, hrest, rfl⟩ := List.mem_map.1 hc
      exact Chain.under_mem_columns hrest

/-- Registering paths, one after the other, adds what their chains pass through, and finds the
columns of all of them. -/
theorem exists_registerAll (hf : WellFormed f) (hn : f.HasNode n) {paths : List Path}
    (hpaths : ∀ p ∈ paths, p.LinksFit ∧ p.endsInColumn = true) :
    ∃ cells g, Growth.perform (paths.mapM (registerColumn n)) f = (.ok cells, g) ∧
      Adds n ((paths.map Path.chain).flatMap Chain.records)
        ((paths.map Path.chain).flatMap Chain.columns) f g ∧
      cells.map some = paths.map fun p => g.column? n p.chain := by
  induction paths generalizing f with
  | nil => exact ⟨[], f, rfl, Adds.refl n f, rfl⟩
  | cons p paths ih =>
    obtain ⟨hp, hend⟩ := hpaths p (List.mem_cons_self ..)
    obtain ⟨c, hc⟩ := exists_registerColumn hp hend n f
    have hadds := growColumn_adds hf hp hend hn
    have hlookup := (registerColumn_spec hf p hn).2 c hc
    rcases hr : (registerColumn n p).perform f with ⟨r, g⟩
    rw [hr] at hc hlookup
    obtain rfl : r = .ok c := hc
    have hgrown : ((p.growColumn n).perform f).2 = g := by
      rw [registerColumn, if_pos hend] at hr
      rw [hr]
    rw [hgrown] at hadds
    have hg := hf.grows hadds.grows
    obtain ⟨cells, h, hrest, hrestAdds, hcells⟩ := ih hg ((hadds.grows.extends hf).hasNode hn)
      fun q hq => hpaths q (List.mem_cons_of_mem _ hq)
    refine ⟨c :: cells, h, ?_, ?_, ?_⟩
    · rw [List.mapM_cons, Growth.perform_bind_ok hr, Growth.perform_bind_ok hrest]
      rfl
    · rw [List.map_cons, List.flatMap_cons, List.flatMap_cons]
      exact (hadds.mono (fun _ => List.mem_append_left _) fun _ => List.mem_append_left _).trans hf
        (hrestAdds.mono (fun _ => List.mem_append_right _) fun _ => List.mem_append_right _)
    · rw [lookupColumn?_eq hg hp hend] at hlookup
      rw [List.map_cons, List.map_cons, hcells, column?_of_extends hg (hg.grows hrestAdds.grows)
        (hrestAdds.grows.extends hg) hlookup]

/-! ## What is new -/

/-- The records of the second forest that the first one does not have. -/
def newNodes (f g : Forest) : List NodeId :=
  (List.range' f.nodes.length (g.nodes.length - f.nodes.length)).map NodeId.mk

/-- The columns of the second forest that the first one does not have. -/
def newCells (f g : Forest) : List CellId :=
  (List.range' f.cells.length (g.cells.length - f.cells.length)).map CellId.mk

theorem mem_newNodes {m : NodeId} : m ∈ newNodes f g ↔ g.HasNode m ∧ ¬f.HasNode m := by
  cases m
  simp only [newNodes, List.mem_map, List.mem_range'_1, HasNode, NodeId.mk.injEq, exists_eq_right]
  omega

theorem mem_newCells {d : CellId} : d ∈ newCells f g ↔ g.HasCell d ∧ ¬f.HasCell d := by
  cases d
  simp only [newCells, List.mem_map, List.mem_range'_1, HasCell, CellId.mk.injEq, exists_eq_right]
  omega

theorem nodup_newNodes (f g : Forest) : (newNodes f g).Nodup :=
  List.Nodup.map (fun _ _ h => NodeId.mk.inj h) List.nodup_range'

theorem nodup_newCells (f g : Forest) : (newCells f g).Nodup :=
  List.Nodup.map (fun _ _ h => CellId.mk.inj h) List.nodup_range'

/-- A column is there, or is the key of a record that is not there yet and comes with it. -/
def provides (f : Forest) (n : NodeId) (c : Chain) : Bool :=
  match f.walk? n c.joins with
  | some m => (f.findCell? m c.leaf).isSome
  | none => c.joins.getLast?.any fun label => label.key == c.leaf

/-- The joins to the records on the way of some chains that are not there, each once. -/
def missingRecords (f : Forest) (n : NodeId) (chains : List Chain) : List (List Label) :=
  (chains.flatMap Chain.records).dedup.filter fun joins => (f.walk? n joins).isNone

/-- The columns on the way of some chains that are not there and come with no record, each once. -/
def missingColumns (f : Forest) (n : NodeId) (chains : List Chain) : List Chain :=
  (chains.flatMap Chain.columns).dedup.filter fun c => !f.provides n c

theorem mem_missingRecords {chains : List Chain} {joins : List Label} :
    joins ∈ f.missingRecords n chains ↔
      joins ∈ chains.flatMap Chain.records ∧ f.walk? n joins = none := by
  rw [missingRecords, List.mem_filter, List.mem_dedup, Option.isNone_iff_eq_none]

theorem mem_missingColumns {chains : List Chain} {c : Chain} :
    c ∈ f.missingColumns n chains ↔
      c ∈ chains.flatMap Chain.columns ∧ f.provides n c = false := by
  rw [missingColumns, List.mem_filter, List.mem_dedup, Bool.not_eq_true']

section

variable {chains : List Chain}

/-- Where the chains lead to columns, all that is on their way is there. -/
theorem exists_walk?_of_records (hf : WellFormed g)
    (hfound : ∀ c ∈ chains, ∃ d, g.column? n c = some d) {joins : List Label}
    (h : joins ∈ chains.flatMap Chain.records) : ∃ m, g.walk? n joins = some m := by
  obtain ⟨c, hc, h⟩ := List.mem_flatMap.1 h
  obtain ⟨⟨rest, hrest⟩, -⟩ := Chain.mem_records.1 h
  obtain ⟨d, hd⟩ := hfound c hc
  obtain ⟨-, hwalk, -⟩ := (column?_eq_some_iff hf).1 hd
  rw [← hrest, walk?_append] at hwalk
  obtain ⟨m, hm, -⟩ := Option.bind_eq_some_iff.1 hwalk
  exact ⟨m, hm⟩

theorem exists_column?_of_columns (hf : WellFormed g)
    (hfound : ∀ c ∈ chains, ∃ d, g.column? n c = some d) {c' : Chain}
    (h : c' ∈ chains.flatMap Chain.columns) : ∃ d, g.column? n c' = some d := by
  obtain ⟨c, hc, h⟩ := List.mem_flatMap.1 h
  rcases Chain.mem_columns.1 h with rfl | ⟨label, hle, hleaf⟩
  · exact hfound _ hc
  · have hmem : c'.joins ++ [label] ∈ chains.flatMap Chain.records :=
      List.mem_flatMap.2 ⟨c, hc, Chain.mem_records.2 ⟨hle, by simp⟩⟩
    obtain ⟨m, hm⟩ := exists_walk?_of_records hf hfound hmem
    obtain ⟨d, hd⟩ := exists_link_of_walk? hf hm
    rw [hleaf] at hd
    exact ⟨d, hd⟩

variable {records : List (List Label)} {columns : List Chain}

/-- The new records are those that were missing. -/
theorem Adds.newNodes_perm (hf : WellFormed f) (hn : f.HasNode n)
    (ha : Adds n (chains.flatMap Chain.records) columns f g)
    (hfound : ∀ c ∈ chains, ∃ d, g.column? n c = some d) :
    ((f.missingRecords n chains).map (g.walk? n)).Perm ((newNodes f g).map some) := by
  have hg := hf.grows ha.grows
  have hx := ha.grows.extends hf
  have hwalk {joins : List Label} (h : joins ∈ f.missingRecords n chains) :
      ∃ m, g.walk? n joins = some m :=
    exists_walk?_of_records hg hfound (mem_missingRecords.1 h).1
  refine (List.perm_ext_iff_of_nodup ?_ ?_).2 fun found => ?_
  · refine List.Nodup.map_on (fun joins h rest _ heq => ?_) ((List.nodup_dedup _).filter _)
    obtain ⟨m, hm⟩ := hwalk h
    exact walk?_inj hg hm (heq ▸ hm)
  · exact (nodup_newNodes f g).map fun _ _ h => Option.some.inj h
  · rw [List.mem_map, List.mem_map]
    constructor
    · rintro ⟨joins, h, rfl⟩
      obtain ⟨m, hm⟩ := hwalk h
      obtain ⟨-, hnone⟩ := mem_missingRecords.1 h
      refine ⟨m, mem_newNodes.2 ⟨hasNode_of_walk? hg (hx.hasNode hn) hm, fun hold => ?_⟩, hm.symm⟩
      rw [walk?_of_hasNode hf hg hx hm hold] at hnone
      cases hnone
    · rintro ⟨m, hm, rfl⟩
      obtain ⟨hm, hnew⟩ := mem_newNodes.1 hm
      obtain ⟨joins, hjoins, hwalk⟩ := (ha.node hm).resolve_left hnew
      refine ⟨joins, mem_missingRecords.2 ⟨hjoins, ?_⟩, hwalk⟩
      cases hold : f.walk? n joins with
      | none => rfl
      | some k =>
        have hk := walk?_of_extends hf hg hx hold
        obtain rfl := Option.some.inj (hk.symm.trans hwalk)
        exact absurd (hasNode_of_walk? hf hn hold) hnew

/-- The record of a column that was there before was there before. -/
theorem hasOwner_of_hasCell (hf : WellFormed f) (hx : Extends f g) {d : CellId}
    (hold : f.HasCell d) : f.HasNode (g.cell d).owner := by
  rw [hx.cell hold]
  exact hf.hasOwner hold

/-- The new key columns are those of the new records. -/
theorem newKeys_perm (hf : WellFormed f) (hg : WellFormed g) (hx : Extends f g) :
    ((newNodes f g).map fun m => (g.node m).key).Perm
      ((newCells f g).filter fun d => (g.cell d).isKey) := by
  refine (List.perm_ext_iff_of_nodup ?_ ((nodup_newCells f g).filter _)).2 fun d => ?_
  · refine List.Nodup.map_on (fun m hm k hk heq => ?_) (nodup_newNodes f g)
    rw [← hg.owner_key (mem_newNodes.1 hm).1, ← hg.owner_key (mem_newNodes.1 hk).1, heq]
  · rw [List.mem_map, List.mem_filter]
    constructor
    · rintro ⟨m, hm, rfl⟩
      obtain ⟨hm, hnew⟩ := mem_newNodes.1 hm
      refine ⟨mem_newCells.2 ⟨hg.hasCell_key hm, fun hold => hnew ?_⟩, isKey_key hg hm⟩
      have howner := hasOwner_of_hasCell hf hx hold
      rwa [hg.owner_key hm] at howner
    · rintro ⟨hd, hkey⟩
      obtain ⟨hd, hnew⟩ := mem_newCells.1 hd
      have hkey := (hg.isKey_iff hd).1 hkey
      refine ⟨_, mem_newNodes.2 ⟨hg.hasOwner hd, fun hold => hnew ?_⟩, hkey⟩
      rw [← hkey, hx.key hold]
      exact hf.hasCell_key hold

/-- Of the columns that a forest has later, it provides those that it has and the keys of new
records. -/
theorem provides_iff (hf : WellFormed f) (hn : f.HasNode n) (hg : WellFormed g)
    (hx : Extends f g) {c : Chain} {d : CellId} (hd : g.column? n c = some d) :
    f.provides n c = true ↔ f.HasCell d ∨ (g.cell d).isKey = true := by
  obtain ⟨hcell, hwalk, hname⟩ := (column?_eq_some_iff hg).1 hd
  have howner := hg.hasOwner hcell
  unfold provides
  cases hold : f.walk? n c.joins with
  | some m =>
    have hm := hasNode_of_walk? hf hn hold
    obtain rfl := Option.some.inj ((walk?_of_extends hf hg hx hold).symm.trans hwalk)
    dsimp only
    constructor
    · intro h
      obtain ⟨d', hd'⟩ := Option.isSome_iff_exists.1 h
      have hcolumn : f.column? n c = some d' := Option.bind_eq_some_iff.2 ⟨_, hold, hd'⟩
      obtain rfl := Option.some.inj ((column?_of_extends hf hg hx hcolumn).symm.trans hd)
      exact Or.inl ((column?_eq_some_iff hf).1 hcolumn).1
    · intro h
      have hcell : f.HasCell d := h.elim id fun hkey => by
        rw [← (hg.isKey_iff hcell).1 hkey, hx.key hm]
        exact hf.hasCell_key hm
      rw [Option.isSome_iff_exists]
      refine ⟨d, (findCell?_eq_some_iff hf).2 ⟨?_, ?_⟩⟩
      · rw [hx.cell hcell]
        exact hf.mem_owner hcell
      · rwa [← hx.cell hcell]
  | none =>
    -- The record is new, and of its columns the key alone comes with it.
    have hnew : ¬f.HasCell d := fun hcell => by
      have hm := hasOwner_of_hasCell hf hx hcell
      rw [walk?_of_hasNode hf hg hx hwalk hm] at hold
      cases hold
    rcases List.eq_nil_or_concat' c.joins with hnil | ⟨joins, label, hjoins⟩
    · rw [hnil] at hold
      cases hold
    · rw [hjoins] at hwalk ⊢
      have hkeyName := (walk?_label hg hwalk).2
      rw [or_iff_right hnew, List.getLast?_concat, Option.any_some, beq_iff_eq, ← hkeyName, ← hname,
        hg.isKey_iff hcell]
      exact ⟨hg.name_inj (hg.key_mem howner) (hg.mem_owner hcell),
        fun hkey => congrArg (fun d => (g.cell d).name) hkey⟩

/-- The new columns that are no keys are those that were missing. -/
theorem Adds.newCells_perm {records : List (List Label)} (hf : WellFormed f) (hn : f.HasNode n)
    (ha : Adds n records (chains.flatMap Chain.columns) f g)
    (hfound : ∀ c ∈ chains, ∃ d, g.column? n c = some d) :
    ((f.missingColumns n chains).map (g.column? n)).Perm
      (((newCells f g).filter fun d => !(g.cell d).isKey).map some) := by
  have hg := hf.grows ha.grows
  have hx := ha.grows.extends hf
  have hcolumn {c : Chain} (h : c ∈ f.missingColumns n chains) : ∃ d, g.column? n c = some d :=
    exists_column?_of_columns hg hfound (mem_missingColumns.1 h).1
  refine (List.perm_ext_iff_of_nodup ?_ ?_).2 fun found => ?_
  · refine List.Nodup.map_on (fun c h c' _ heq => ?_) ((List.nodup_dedup _).filter _)
    obtain ⟨d, hd⟩ := hcolumn h
    exact column?_inj hg hd (heq ▸ hd)
  · exact ((nodup_newCells f g).filter _).map fun _ _ h => Option.some.inj h
  · simp only [List.mem_map, List.mem_filter, Bool.not_eq_true']
    constructor
    · rintro ⟨c, h, rfl⟩
      obtain ⟨d, hd⟩ := hcolumn h
      obtain ⟨-, hmissing⟩ := mem_missingColumns.1 h
      obtain ⟨hcell, -, -⟩ := (column?_eq_some_iff hg).1 hd
      rw [← Bool.not_eq_true, provides_iff hf hn hg hx hd, not_or, Bool.not_eq_true] at hmissing
      exact ⟨d, ⟨mem_newCells.2 ⟨hcell, hmissing.1⟩, hmissing.2⟩, hd.symm⟩
    · rintro ⟨d, ⟨hd, hkey⟩, rfl⟩
      obtain ⟨hd, hnew⟩ := mem_newCells.1 hd
      rcases (ha.cell hd).resolve_left hnew with hk | ⟨c, hc, hfoundCell⟩
      · cases hk.symm.trans hkey
      · refine ⟨c, mem_missingColumns.2 ⟨hc, ?_⟩, hfoundCell⟩
        rw [← Bool.not_eq_true, provides_iff hf hn hg hx hfoundCell, not_or, Bool.not_eq_true]
        exact ⟨hnew, hkey⟩

end

/-! ## Registering -/

/-- Two paths, registered one after the other, give one column exactly if they have one chain. -/
theorem registerColumn_eq_iff (hf : WellFormed f) (hn : f.HasNode n) {p q : Path}
    (hp : p.LinksFit) (hpEnd : p.endsInColumn = true) (hq : q.LinksFit)
    (hqEnd : q.endsInColumn = true) :
    ∃ c d g h, (registerColumn n p).perform f = (.ok c, g) ∧
      (registerColumn n q).perform g = (.ok d, h) ∧ (c = d ↔ p.chain = q.chain) := by
  obtain ⟨c, hc⟩ := exists_registerColumn hp hpEnd n f
  obtain ⟨hgrows, hlookup⟩ := registerColumn_spec hf p hn
  rcases hr : (registerColumn n p).perform f with ⟨r, g⟩
  rw [hr] at hc hgrows hlookup
  obtain rfl : r = .ok c := hc
  have hg := hf.grows hgrows
  have hlookup := hlookup c rfl
  rw [lookupColumn?_eq hg hp hpEnd] at hlookup
  obtain ⟨d, hd⟩ := exists_registerColumn hq hqEnd n g
  obtain ⟨hgrows', hlookup'⟩ := registerColumn_spec hg q ((hgrows.extends hf).hasNode hn)
  rcases hr' : (registerColumn n q).perform g with ⟨r, h⟩
  rw [hr'] at hd hgrows' hlookup'
  obtain rfl : r = .ok d := hd
  have hh := hg.grows hgrows'
  have hlookup' := hlookup' d rfl
  rw [lookupColumn?_eq hh hq hqEnd] at hlookup'
  have hlookup := column?_of_extends hg hh (hgrows'.extends hg) hlookup
  refine ⟨c, d, g, h, rfl, hr', ?_, ?_⟩
  · rintro rfl
    exact column?_inj hh hlookup hlookup'
  · intro hchain
    rw [hchain, hlookup'] at hlookup
    exact (Option.some.inj hlookup).symm

/-- **Registering merges exactly the paths that mean the same.**  In every forest that operations
lead to, for each of its records: two paths to columns, registered one after the other, give the
same column if and only if they have the same chain.  Registering any list of such paths succeeds
and leaves in place what there was.  It adds one record for each different sequence of joins on the
way of their chains that led to no record before; and of columns it adds the keys of these records
and, besides, one for each different chain of a column on the way that led to no column before and
is not one of these keys. -/
theorem register_merges (hf : Operated f) (hn : f.HasNode n) :
    (∀ p q : Path, p.LinksFit → p.endsInColumn = true → q.LinksFit → q.endsInColumn = true →
      ∃ c d g h, (registerColumn n p).perform f = (.ok c, g) ∧
        (registerColumn n q).perform g = (.ok d, h) ∧ (c = d ↔ p.chain = q.chain)) ∧
    ∀ paths : List Path, (∀ p ∈ paths, p.LinksFit ∧ p.endsInColumn = true) →
      ∃ cells g, Growth.perform (paths.mapM (registerColumn n)) f = (.ok cells, g) ∧
        cells.map some = paths.map (fun p => g.column? n p.chain) ∧ Extends f g ∧
        ((f.missingRecords n (paths.map Path.chain)).map (g.walk? n)).Perm
          ((newNodes f g).map some) ∧
        (((newNodes f g).map fun m => some (g.node m).key) ++
          (f.missingColumns n (paths.map Path.chain)).map (g.column? n)).Perm
            ((newCells f g).map some) := by
  have hwf := hf.wellFormed
  refine ⟨fun p q hp hpEnd hq hqEnd => registerColumn_eq_iff hwf hn hp hpEnd hq hqEnd,
    fun paths hpaths => ?_⟩
  obtain ⟨cells, g, hperform, hadds, hcells⟩ := exists_registerAll hwf hn hpaths
  have hfound : ∀ c ∈ paths.map Path.chain, ∃ d, g.column? n c = some d := by
    intro c hc
    obtain ⟨p, hp, rfl⟩ := List.mem_map.1 hc
    have hmem : g.column? n p.chain ∈ cells.map some := by
      rw [hcells]
      exact List.mem_map_of_mem hp
    obtain ⟨d, -, hd⟩ := List.mem_map.1 hmem
    exact ⟨d, hd.symm⟩
  have hx := hadds.grows.extends hwf
  refine ⟨cells, g, hperform, hcells, hx, hadds.newNodes_perm hwf hn hfound, ?_⟩
  have hkeys := (newKeys_perm hwf (hwf.grows hadds.grows) hx).map some
  rw [List.map_map] at hkeys
  refine (hkeys.append (hadds.newCells_perm hwf hn hfound)).trans ?_
  rw [← List.map_append]
  exact (List.filter_append_perm _ _).map some

/-- One record behind another one, and the same record by a join whose link is behind the first. -/
theorem register_merges_spellings :
    let f := (Forest.empty.addRoot "table0" "id" .null).2
    let nested : Path := .join "table1" "id" (.column "table1_id")
      (.join "table2" "id" (.column "table2_id") (.column "name"))
    let linked : Path := .join "table2" "id"
      (.join "table1" "id" (.column "table1_id") (.column "table2_id")) (.column "name")
    (∃ c g h, (registerColumn ⟨0⟩ nested).perform f = (.ok c, g) ∧
      (registerColumn ⟨0⟩ linked).perform g = (.ok c, h)) ∧
    ∃ cells g, Growth.perform ([nested, linked, nested].mapM (registerColumn ⟨0⟩)) f =
      (.ok cells, g) ∧ (newNodes f g).length = 2 ∧ (newCells f g).length = 5 := by
  intro f nested linked
  have hnested : nested.LinksFit := ⟨trivial, rfl, trivial, rfl, trivial⟩
  have hlinked : linked.LinksFit := ⟨⟨trivial, rfl, trivial⟩, rfl, trivial⟩
  obtain ⟨hsame, hall⟩ := register_merges (n := ⟨0⟩)
    (Operated.empty.addRoot "table0" "id" .null) (by decide)
  constructor
  · obtain ⟨c, d, g, h, hp, hq, hiff⟩ := hsame nested linked hnested rfl hlinked rfl
    obtain rfl := hiff.2 (by decide +kernel)
    exact ⟨c, g, h, hp, hq⟩
  · obtain ⟨cells, g, hperform, -, -, hnodes, hcells⟩ := hall [nested, linked, nested] (by
      simp only [List.mem_cons, List.not_mem_nil, or_false]
      rintro p (rfl | rfl | rfl)
      · exact ⟨hnested, rfl⟩
      · exact ⟨hlinked, rfl⟩
      · exact ⟨hnested, rfl⟩)
    have hnodes := hnodes.length_eq
    have hcells := hcells.length_eq
    rw [List.length_map, List.length_map] at hnodes
    rw [List.length_append, List.length_map, List.length_map, List.length_map, ← hnodes] at hcells
    exact ⟨cells, g, hperform, hnodes.symm.trans (by decide +kernel),
      hcells.symm.trans (by decide +kernel)⟩

end Forest
end LinkedRows
