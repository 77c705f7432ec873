/-
# The chain of a path

What a path to a column means is a chain: the joins from the record where it starts, one after the
other, each known by its label, and the name of the column at their end.  The path in the link of a
join has a chain of its own, whose joins come first and whose leaf is the link of the join.

In a forest a chain leads to at most one record (`walk?`) and to at most one column (`column?`), and
a path is registered exactly if its chain leads to a column, which is the column of the path then
(`lookupColumn?_eq`).  Different chains lead to different records, since every record has one join
that leads to it, and to different columns (`walk?_inj`, `column?_inj`).
-/

import LinkedRows.Proofs.Forest.Registration
import Mathlib.Data.List.Infix

namespace LinkedRows

/-- Joins from a record, and the name of a column at their end. -/
structure Chain where
  joins : List Label
  leaf : String
deriving DecidableEq, Repr

/-- The chain of a path that ends in a column. -/
def Path.chain : Path → Chain
  | .column name => ⟨[], name⟩
  | .table name key link => ⟨link.chain.joins ++ [⟨name, key, link.chain.leaf⟩], ""⟩
  | .join name key link inner =>
    ⟨link.chain.joins ++ ⟨name, key, link.chain.leaf⟩ :: inner.chain.joins, inner.chain.leaf⟩

namespace Chain

/-- The joins to each record on the way, up to the last one. -/
def records (c : Chain) : List (List Label) := c.joins.inits.filter (· ≠ [])

/-- The chains of all columns on the way: the link of each join, and the column at the end. -/
def columns (c : Chain) : List Chain :=
  c :: c.joins.inits.filterMap fun joins =>
    joins.getLast?.map fun label => ⟨joins.dropLast, label.link⟩

variable {c d : Chain} {joins : List Label}

theorem mem_records : joins ∈ c.records ↔ joins <+: c.joins ∧ joins ≠ [] := by
  rw [records, List.mem_filter, List.mem_inits, decide_eq_true_eq]

/-- A column on the way is the last one or the link of a join. -/
theorem mem_columns :
    d ∈ c.columns ↔ d = c ∨ ∃ label, d.joins ++ [label] <+: c.joins ∧ label.link = d.leaf := by
  rw [columns, List.mem_cons, List.mem_filterMap]
  refine or_congr_right ⟨?_, ?_⟩
  · rintro ⟨joins, hmem, h⟩
    obtain ⟨label, hlast, rfl⟩ := Option.map_eq_some_iff.1 h
    refine ⟨label, ?_, rfl⟩
    have hsplit : joins.dropLast ++ [label] = joins := List.dropLast_append_getLast? label hlast
    rw [hsplit]
    exact List.mem_inits _ _ |>.1 hmem
  · rintro ⟨label, hle, hleaf⟩
    refine ⟨_, (List.mem_inits _ _).2 hle, ?_⟩
    rw [List.getLast?_concat, List.dropLast_concat, Option.map_some, hleaf]

end Chain

namespace Forest

/-- The record that joins lead to. -/
def walk? (f : Forest) : NodeId → List Label → Option NodeId
  | n, [] => some n
  | n, label :: rest => (f.findEdge? n label).bind fun e => f.walk? (f.childOf e) rest

/-- The column that a chain leads to. -/
def column? (f : Forest) (n : NodeId) (c : Chain) : Option CellId :=
  (f.walk? n c.joins).bind fun m => f.findCell? m c.leaf

variable {f g : Forest} {n m k : NodeId} {joins rest : List Label} {label : Label} {c : Chain}

/-! ## Walks -/

theorem walk?_append (f : Forest) (n : NodeId) (joins rest : List Label) :
    f.walk? n (joins ++ rest) = (f.walk? n joins).bind fun m => f.walk? m rest := by
  induction joins generalizing n with
  | nil => rfl
  | cons label joins ih =>
    rw [List.cons_append, walk?, walk?, Option.bind_assoc]
    exact congrArg _ (funext fun e => ih _)

/-- The last join of a walk leads from the record before it. -/
theorem walk?_concat_eq_some : f.walk? n (joins ++ [label]) = some m ↔
    ∃ k e, f.walk? n joins = some k ∧ f.findEdge? k label = some e ∧ f.childOf e = m := by
  simp [walk?_append, walk?, Option.bind_eq_some_iff]

theorem hasNode_of_walk? (hf : WellFormed f) (hn : f.HasNode n) (h : f.walk? n joins = some m) :
    f.HasNode m := by
  induction joins generalizing n with
  | nil =>
    obtain rfl := Option.some.inj h
    exact hn
  | cons label joins ih =>
    obtain ⟨e, he, h⟩ := Option.bind_eq_some_iff.1 h
    exact ih (hf.hasChild (hf.hasEdge ((findEdge?_eq_some_iff hf).1 he).1)) h

/-- Every join leads to a younger record. -/
theorem index_le_of_walk? (hf : WellFormed f) (h : f.walk? n joins = some m) :
    n.index + joins.length ≤ m.index := by
  induction joins generalizing n with
  | nil =>
    obtain rfl := Option.some.inj h
    exact Nat.le_refl _
  | cons label joins ih =>
    obtain ⟨e, he, h⟩ := Option.bind_eq_some_iff.1 h
    obtain ⟨he, -⟩ := (findEdge?_eq_some_iff hf).1 he
    have hlt := hf.owner_lt_child (hf.hasEdge he)
    rw [hf.owner_of_edge he] at hlt
    have := ih h
    rw [List.length_cons]
    have hchild : (f.childOf e).index = (f.edge e).child.index := rfl
    omega

/-- **Different joins lead to different records.** -/
theorem walk?_inj (hf : WellFormed f) (h : f.walk? n joins = some m)
    (h' : f.walk? n rest = some m) : joins = rest := by
  induction joins using List.reverseRecOn generalizing rest m with
  | nil =>
    obtain rfl := Option.some.inj h
    have hle := index_le_of_walk? hf h'
    exact (List.length_eq_zero_iff.1 (by omega)).symm
  | append_singleton joins label ih =>
    rcases List.eq_nil_or_concat' rest with rfl | ⟨rest, label', rfl⟩
    · obtain rfl := Option.some.inj h'
      have hle := index_le_of_walk? hf h
      rw [List.length_append, List.length_singleton] at hle
      omega
    · obtain ⟨k, e, hk, he, hchild⟩ := walk?_concat_eq_some.1 h
      obtain ⟨k', e', hk', he', hchild'⟩ := walk?_concat_eq_some.1 h'
      rw [findEdge?_eq_some_iff hf] at he he'
      -- One join leads to the record, from one owner and with one label.
      obtain rfl := hf.edge_unique (hf.hasEdge he.1) (hf.hasEdge he'.1)
        (hchild.trans hchild'.symm)
      obtain rfl := (hf.owner_of_edge he.1).symm.trans (hf.owner_of_edge he'.1)
      obtain rfl := he.2.symm.trans he'.2
      rw [ih hk hk']

/-- The last label of a walk names the table and the key column of the record. -/
theorem walk?_label (hf : WellFormed f) (h : f.walk? n (joins ++ [label]) = some m) :
    (f.node m).table = label.table ∧ f.keyName m = label.key := by
  obtain ⟨k, e, -, hfind, rfl⟩ := walk?_concat_eq_some.1 h
  obtain ⟨he, rfl⟩ := (findEdge?_eq_some_iff hf).1 hfind
  rw [hf.label_eq (hf.hasEdge he)]
  exact ⟨rfl, rfl⟩

/-- The link of the last join of a walk is a column of the record before. -/
theorem link_of_walk? (hf : WellFormed f) (h : f.walk? n (joins ++ [label]) = some m) :
    ∃ e, f.HasEdge e ∧ f.childOf e = m ∧
      f.column? n ⟨joins, label.link⟩ = some (f.edge e).link := by
  obtain ⟨k, e, hk, hfind, hchild⟩ := walk?_concat_eq_some.1 h
  obtain ⟨he, rfl⟩ := (findEdge?_eq_some_iff hf).1 hfind
  have hedge := hf.hasEdge he
  refine ⟨e, hedge, hchild, ?_⟩
  refine Option.bind_eq_some_iff.2 ⟨k, hk, (findCell?_eq_some_iff hf).2 ⟨?_, ?_⟩⟩
  · exact hf.owner_of_edge he ▸ hf.link_mem hedge
  · rw [hf.label_eq hedge]

theorem exists_link_of_walk? (hf : WellFormed f) (h : f.walk? n (joins ++ [label]) = some m) :
    ∃ d, f.column? n ⟨joins, label.link⟩ = some d := by
  obtain ⟨e, -, -, hlink⟩ := link_of_walk? hf h
  exact ⟨_, hlink⟩

/-! ## Growth -/

theorem findEdge?_of_extends (hf : WellFormed f) (hg : WellFormed g) (hx : Extends f g)
    {e : EdgeId} (h : f.findEdge? n label = some e) : g.findEdge? n label = some e := by
  rw [findEdge?_eq_some_iff hf] at h
  rw [findEdge?_eq_some_iff hg, hx.edge (hf.hasEdge h.1)]
  exact ⟨(hx.edges (hasNode_of_mem_edges h.1)).subset h.1, h.2⟩

/-- A walk stays as the forest grows. -/
theorem walk?_of_extends (hf : WellFormed f) (hg : WellFormed g) (hx : Extends f g)
    (h : f.walk? n joins = some m) : g.walk? n joins = some m := by
  induction joins generalizing n with
  | nil => exact h
  | cons label joins ih =>
    obtain ⟨e, he, h⟩ := Option.bind_eq_some_iff.1 h
    have hedge := hf.hasEdge ((findEdge?_eq_some_iff hf).1 he).1
    refine Option.bind_eq_some_iff.2 ⟨e, findEdge?_of_extends hf hg hx he, ?_⟩
    rw [childOf, hx.edge hedge]
    exact ih h

/-- A walk to a record that was there before was there before. -/
theorem walk?_of_hasNode (hf : WellFormed f) (hg : WellFormed g) (hx : Extends f g)
    (h : g.walk? n joins = some m) (hm : f.HasNode m) : f.walk? n joins = some m := by
  induction joins using List.reverseRecOn generalizing m with
  | nil => exact h
  | append_singleton joins label ih =>
    obtain ⟨k, e, hk, he, hchild⟩ := walk?_concat_eq_some.1 h
    obtain ⟨he, hlabel⟩ := (findEdge?_eq_some_iff hg).1 he
    have hparent : (f.node m).parent = some e := by
      rw [← hx.parent hm, ← hchild]
      exact hg.parent_child (hg.hasEdge he)
    obtain ⟨hedge, hchildOld⟩ := hf.edge_of_parent hparent
    have howner : (f.edge e).owner = k := by
      rw [← hx.edge hedge, hg.owner_of_edge he]
    have hmem := hf.mem_edges hedge
    rw [howner] at hmem
    rw [hx.edge hedge] at hlabel
    exact walk?_concat_eq_some.2 ⟨k, e, ih hk (hasNode_of_mem_edges hmem),
      (findEdge?_eq_some_iff hf).2 ⟨hmem, hlabel⟩, hchildOld⟩

theorem column?_of_extends (hf : WellFormed f) (hg : WellFormed g) (hx : Extends f g) {d : CellId}
    (h : f.column? n c = some d) : g.column? n c = some d := by
  obtain ⟨m, hm, hd⟩ := Option.bind_eq_some_iff.1 h
  exact Option.bind_eq_some_iff.2
    ⟨m, walk?_of_extends hf hg hx hm, findCell?_of_extends hf hg hx hd⟩

/-! ## Columns -/

theorem column?_eq_some_iff (hf : WellFormed f) {d : CellId} : f.column? n c = some d ↔
    f.HasCell d ∧ f.walk? n c.joins = some (f.cell d).owner ∧ (f.cell d).name = c.leaf := by
  rw [column?, Option.bind_eq_some_iff]
  constructor
  · rintro ⟨m, hm, hd⟩
    obtain ⟨hd, hname⟩ := (findCell?_eq_some_iff hf).1 hd
    exact ⟨hf.hasCell hd, (hf.owner_of_mem hd).symm ▸ hm, hname⟩
  · rintro ⟨hd, hm, hname⟩
    exact ⟨_, hm, (findCell?_eq_some_iff hf).2 ⟨hf.mem_owner hd, hname⟩⟩

/-- **Different chains lead to different columns.** -/
theorem column?_inj (hf : WellFormed f) {c c' : Chain} {d : CellId} (h : f.column? n c = some d)
    (h' : f.column? n c' = some d) : c = c' := by
  obtain ⟨-, hwalk, hname⟩ := (column?_eq_some_iff hf).1 h
  obtain ⟨-, hwalk', hname'⟩ := (column?_eq_some_iff hf).1 h'
  have hjoins := walk?_inj hf hwalk hwalk'
  cases c
  cases c'
  exact congr (congrArg Chain.mk hjoins) (hname.symm.trans hname')

/-- **A path is looked up by its chain.** -/
theorem lookupColumn?_eq (hf : WellFormed f) {p : Path} (hp : p.LinksFit)
    (hend : p.endsInColumn = true) (n : NodeId) : f.lookupColumn? n p = f.column? n p.chain := by
  induction p generalizing n with
  | column name => rfl
  | table => cases hend
  | join name key link inner ihLink ihInner =>
    obtain ⟨hlink, hlinkEnd, hinner⟩ := hp
    have hjoined : ((f.lookupColumn? n link).bind fun d => f.joined? d name key) =
        f.walk? n (link.chain.joins ++ [⟨name, key, link.chain.leaf⟩]) := by
      refine Option.ext fun m => ?_
      rw [walk?_concat_eq_some, ihLink hlink hlinkEnd,
        Option.bind_eq_some_iff]
      constructor
      · rintro ⟨d, hd, hm⟩
        obtain ⟨-, hwalk, hname⟩ := (column?_eq_some_iff hf).1 hd
        obtain ⟨e, he, hchild⟩ := Option.map_eq_some_iff.1 hm
        rw [hname] at he
        exact ⟨_, e, hwalk, he, hchild⟩
      · rintro ⟨k, e, hk, he, hchild⟩
        obtain ⟨d, hd⟩ := exists_link_of_walk? hf (walk?_concat_eq_some.2 ⟨k, e, hk, he, hchild⟩)
        obtain ⟨-, hwalk, hname⟩ := (column?_eq_some_iff hf).1 hd
        obtain rfl := Option.some.inj (hk.symm.trans hwalk)
        refine ⟨d, hd, Option.map_eq_some_iff.2 ⟨e, ?_, hchild⟩⟩
        rw [hname]
        exact he
    have hsplit : link.chain.joins ++ ⟨name, key, link.chain.leaf⟩ :: inner.chain.joins =
        (link.chain.joins ++ [⟨name, key, link.chain.leaf⟩]) ++ inner.chain.joins := by simp
    rw [column?, Path.chain, hsplit, walk?_append, ← hjoined, Option.bind_assoc, Option.bind_assoc]
    refine congrArg _ (funext fun d => congrArg _ (funext fun k => ?_))
    exact ihInner hinner hend k

end Forest
end LinkedRows
