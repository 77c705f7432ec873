/-
# Registering paths

Registering a path only ever adds columns and joins (`Grows`), also when it fails half-way, so it
keeps a forest well formed and everything in it.  What it registers is what looking the path up
finds afterwards (`growColumn_spec`), and finds again after any further growth
(`lookupColumn?_of_extends`).

A path that fits and ends in a column registers without a fault.
-/

import LinkedRows.Forest.Resolve
import LinkedRows.Proofs.Forest.Joining
import LinkedRows.Proofs.PathReading

namespace LinkedRows

namespace Growth

variable {α β : Type}

/-- The result of a change of a forest, and the forest after it. -/
def perform (m : Growth α) (f : Forest) : Except Fault α × Forest := m.run.run f

theorem perform_bind_ok {m : Growth α} {f g : Forest} {a : α} (h : m.perform f = (.ok a, g))
    (k : α → Growth β) : (m >>= k).perform f = (k a).perform g := by
  unfold perform at h ⊢
  rw [ExceptT.run_bind, StateT.run_bind, h]
  rfl

theorem perform_bind_error {m : Growth α} {f g : Forest} {e : Fault}
    (h : m.perform f = (.error e, g)) (k : α → Growth β) :
    (m >>= k).perform f = (.error e, g) := by
  unfold perform at h ⊢
  rw [ExceptT.run_bind, StateT.run_bind, h]
  rfl

@[simp] theorem perform_throw (e : Fault) (f : Forest) :
    (throw e : Growth α).perform f = (.error e, f) := rfl

@[simp] theorem perform_ofForest (change : Forest → α × Forest) (f : Forest) :
    (ofForest change).perform f = (.ok (change f).1, (change f).2) := rfl

end Growth

namespace Forest

/-- Growth by columns and joins. -/
inductive Grows (f : Forest) : Forest → Prop
  | refl : Grows f f
  | cell {g : Forest} {n : NodeId} {name : String} : Grows f g → g.HasNode n →
      g.findCell? n name = none → Grows f (g.withCell n name)
  | join {g : Forest} {link : CellId} {table key : String} : Grows f g → g.HasCell link →
      g.findEdge? (g.cell link).owner ⟨table, key, (g.cell link).name⟩ = none →
      Grows f (g.withJoin link table key)

variable {f g h : Forest}

theorem Grows.trans (hfg : Grows f g) (hgh : Grows g h) : Grows f h := by
  induction hgh with
  | refl => exact hfg
  | cell _ hn hname ih => exact ih.cell hn hname
  | join _ hl hlabel ih => exact ih.join hl hlabel

theorem WellFormed.grows (hf : WellFormed f) (hg : Grows f g) : WellFormed g := by
  induction hg with
  | refl => exact hf
  | cell _ hn hname ih => exact ih.withCell hn hname
  | join _ hl hlabel ih => exact ih.withJoin hl hlabel

theorem Grows.extends (hf : WellFormed f) (hg : Grows f g) : Extends f g := by
  induction hg with
  | refl => exact Extends.refl f
  | cell _ hn _ ih => exact ih.trans (extends_withCell _ hn)
  | join hfg hl _ ih => exact ih.trans (extends_withJoin ((hf.grows hfg).hasOwner hl))

/-- A column that is added is not assigned, unless it is a key. -/
theorem Grows.unassigned (hg : Grows f g) {d : CellId} (hd : g.HasCell d) (hnew : ¬f.HasCell d)
    (hk : (g.cell d).isKey = false) : (g.cell d).assigned = none := by
  induction hg with
  | refl => exact absurd hd hnew
  | @cell g m name _ _ _ ih =>
    rw [cell_withCell] at hk ⊢
    rcases (hasCell_withCell m d).1 hd with hold | rfl
    · rw [if_neg (Nat.ne_of_lt hold)] at hk ⊢
      exact ih hold hk
    · rw [if_pos rfl]
      rfl
  | join _ _ _ ih =>
    rw [cell_withJoin] at hk ⊢
    rcases (hasCell_withJoin d).1 hd with hold | rfl
    · rw [if_neg (Nat.ne_of_lt hold)] at hk ⊢
      exact ih hold hk
    · rw [if_pos rfl] at hk
      cases hk

/-! ## One column, one join -/

theorem grows_ensureCell {n : NodeId} (hn : f.HasNode n) (name : String) :
    Grows f (f.ensureCell n name).2 := by
  cases hc : f.findCell? n name with
  | some c =>
    rw [ensureCell_of_some hc]
    exact Grows.refl
  | none =>
    rw [ensureCell_of_none hc]
    exact Grows.refl.cell hn hc

theorem grows_ensureJoin {link : CellId} (hl : f.HasCell link) (table key : String) :
    Grows f (f.ensureJoin link table key).2 := by
  cases he : f.findEdge? (f.cell link).owner ⟨table, key, (f.cell link).name⟩ with
  | some e =>
    rw [ensureJoin_of_some he]
    exact Grows.refl
  | none =>
    rw [ensureJoin_of_none he]
    exact Grows.refl.join hl he

theorem findCell?_eq_some_iff (hf : WellFormed f) {n : NodeId} {name : String} {c : CellId} :
    f.findCell? n name = some c ↔ c ∈ (f.node n).cells ∧ (f.cell c).name = name := by
  constructor
  · intro h
    exact ⟨List.mem_of_find?_eq_some h, by simpa using List.find?_some h⟩
  · rintro ⟨hc, hname⟩
    cases hd : f.findCell? n name with
    | none => exact absurd (by simpa using hname) (List.find?_eq_none.1 hd c hc)
    | some d =>
      have hdname : (f.cell d).name = name := by simpa using List.find?_some hd
      rw [hf.name_inj (List.mem_of_find?_eq_some hd) hc (hdname.trans hname.symm)]

theorem findEdge?_eq_some_iff (hf : WellFormed f) {n : NodeId} {label : Label} {e : EdgeId} :
    f.findEdge? n label = some e ↔ e ∈ (f.node n).edges ∧ (f.edge e).label = label := by
  constructor
  · intro h
    exact ⟨List.mem_of_find?_eq_some h, by simpa using List.find?_some h⟩
  · rintro ⟨he, hlabel⟩
    cases hd : f.findEdge? n label with
    | none => exact absurd (by simpa using hlabel) (List.find?_eq_none.1 hd e he)
    | some d =>
      have hdlabel : (f.edge d).label = label := by simpa using List.find?_some hd
      rw [hf.label_inj (List.mem_of_find?_eq_some hd) he (hdlabel.trans hlabel.symm)]

/-- The column that `ensureCell` gives is the record's column with that name. -/
theorem ensureCell_spec (hf : WellFormed f) {n : NodeId} (hn : f.HasNode n) (name : String) :
    (f.ensureCell n name).2.findCell? n name = some (f.ensureCell n name).1 := by
  cases hc : f.findCell? n name with
  | some c => rw [ensureCell_of_some hc, hc]
  | none =>
    rw [ensureCell_of_none hc, findCell?_eq_some_iff (hf.withCell hn hc), node_withCell hn,
      if_pos rfl, cell_newCell]
    exact ⟨List.mem_append_right _ (List.mem_singleton_self _), rfl⟩

theorem hasCell_ensureCell {n : NodeId} {name : String} {d : CellId}
    (hd : (f.ensureCell n name).2.HasCell d) : f.HasCell d ∨ d = (f.ensureCell n name).1 := by
  cases hname : f.findCell? n name with
  | some c =>
    rw [ensureCell_of_some hname] at hd
    exact Or.inl hd
  | none =>
    rw [ensureCell_of_none hname] at hd ⊢
    exact (hasCell_withCell n d).1 hd

/-- The record that `ensureJoin` gives is the one behind the link. -/
theorem ensureJoin_spec (hf : WellFormed f) {link : CellId} (hl : f.HasCell link)
    (table key : String) :
    (f.ensureJoin link table key).2.joined? link table key =
      some (f.ensureJoin link table key).1 := by
  cases he : f.findEdge? (f.cell link).owner ⟨table, key, (f.cell link).name⟩ with
  | some e => rw [ensureJoin_of_some he, joined?, he, Option.map_some]
  | none =>
    have ho := hf.hasOwner hl
    have hfind : (f.withJoin link table key).findEdge? (f.cell link).owner
        ⟨table, key, (f.cell link).name⟩ = some ⟨f.edges.length⟩ := by
      rw [findEdge?_eq_some_iff (hf.withJoin hl he), mem_edges_withJoin ho, edge_newJoin]
      exact ⟨Or.inr ⟨rfl, rfl⟩, rfl⟩
    rw [ensureJoin_of_none he, joined?, (extends_withJoin ho).cell hl, hfind, Option.map_some,
      edge_newJoin, newEdge]

theorem hasNode_of_joined? (hf : WellFormed f) {link : CellId} {table key : String}
    {child : NodeId} (h : f.joined? link table key = some child) : f.HasNode child := by
  obtain ⟨e, he, rfl⟩ := Option.map_eq_some_iff.1 h
  exact hf.hasChild (hf.hasEdge ((findEdge?_eq_some_iff hf).1 he).1)

/-! ## Looking up -/

theorem hasCell_of_lookupColumn? (hf : WellFormed f) {p : Path} {n : NodeId} {c : CellId}
    (h : f.lookupColumn? n p = some c) : f.HasCell c := by
  induction p generalizing n with
  | column name => exact hf.hasCell ((findCell?_eq_some_iff hf).1 h).1
  | table => exact absurd h (by simp [lookupColumn?])
  | join name key link inner _ ih =>
    simp only [lookupColumn?, Option.bind_eq_bind, Option.bind_eq_some_iff] at h
    obtain ⟨_, _, child, _, h⟩ := h
    exact ih h

theorem findCell?_of_extends (hf : WellFormed f) (hg : WellFormed g) (hx : Extends f g)
    {n : NodeId} {name : String} {c : CellId} (h : f.findCell? n name = some c) :
    g.findCell? n name = some c := by
  rw [findCell?_eq_some_iff hf] at h
  have hn := hasNode_of_mem_cells h.1
  rw [findCell?_eq_some_iff hg, hx.cell (hf.hasCell h.1)]
  exact ⟨(hx.cells hn).subset h.1, h.2⟩

theorem joined?_of_extends (hf : WellFormed f) (hg : WellFormed g) (hx : Extends f g)
    {link : CellId} (hl : f.HasCell link) {table key : String} {child : NodeId}
    (h : f.joined? link table key = some child) : g.joined? link table key = some child := by
  obtain ⟨e, he, rfl⟩ := Option.map_eq_some_iff.1 h
  rw [findEdge?_eq_some_iff hf] at he
  have hn := hasNode_of_mem_edges he.1
  have hedge := hx.edge (hf.hasEdge he.1)
  refine Option.map_eq_some_iff.2 ⟨e, ?_, by rw [hedge]⟩
  rw [findEdge?_eq_some_iff hg, hx.cell hl, hedge]
  exact ⟨(hx.edges hn).subset he.1, he.2⟩

/-- A path stays registered. -/
theorem lookupColumn?_of_extends (hf : WellFormed f) (hg : WellFormed g) (hx : Extends f g)
    {p : Path} {n : NodeId} {c : CellId} (h : f.lookupColumn? n p = some c) :
    g.lookupColumn? n p = some c := by
  induction p generalizing n c with
  | column name => exact findCell?_of_extends hf hg hx h
  | table => exact absurd h (by simp [lookupColumn?])
  | join name key link inner ihLink ihInner =>
    simp only [lookupColumn?, Option.bind_eq_bind, Option.bind_eq_some_iff] at h ⊢
    obtain ⟨linkCell, hlink, child, hchild, h⟩ := h
    exact ⟨linkCell, ihLink hlink, child,
      joined?_of_extends hf hg hx (hasCell_of_lookupColumn? hf hlink) hchild, ihInner h⟩

/-- Which paths are registered depends on the shape of a forest alone. -/
theorem SameShape.lookupColumn? (hs : SameShape f g) (n : NodeId) (p : Path) :
    g.lookupColumn? n p = f.lookupColumn? n p := by
  have hcell (n : NodeId) (name : String) : g.findCell? n name = f.findCell? n name := by
    simp only [findCell?, hs.cells, hs.name]
  have hjoined (link : CellId) (table key : String) :
      g.joined? link table key = f.joined? link table key := by
    simp only [joined?, findEdge?, hs.owner, hs.name, hs.edges, hs.edge]
  induction p generalizing n with
  | column name => exact hcell n name
  | table => rfl
  | join name key link inner ihLink ihInner =>
    simp only [Forest.lookupColumn?, ihLink, hjoined, ihInner]

/-! ## Registering -/

/-- Registering a column only grows the forest, and a column that it gives is the one that looking
the path up finds. -/
theorem growColumn_spec (hf : WellFormed f) {p : Path} {n : NodeId} (hn : f.HasNode n) :
    Grows f ((p.growColumn n).perform f).2 ∧
      ∀ c, ((p.growColumn n).perform f).1 = .ok c →
        ((p.growColumn n).perform f).2.lookupColumn? n p = some c := by
  induction p generalizing f n with
  | column name =>
    refine ⟨grows_ensureCell hn name, fun c hc => ?_⟩
    obtain rfl : (f.ensureCell n name).1 = c := Except.ok.inj hc
    exact ensureCell_spec hf hn name
  | table name key link ih =>
    obtain ⟨hgrows, hlookup⟩ := ih hf hn
    rcases hr : (link.growColumn n).perform f with ⟨e | linkCell, g⟩ <;> rw [hr] at hgrows hlookup
    · rw [Path.growColumn, Growth.perform_bind_error hr]
      exact ⟨hgrows, fun c hc => by cases hc⟩
    · rw [Path.growColumn, Growth.perform_bind_ok hr]
      have hl := hasCell_of_lookupColumn? (hf.grows hgrows) (hlookup linkCell rfl)
      exact ⟨hgrows.trans (grows_ensureJoin hl name key), fun c hc => by cases hc⟩
  | join name key link inner ihLink ihInner =>
    obtain ⟨hgrows, hlookup⟩ := ihLink hf hn
    rcases hr : (link.growColumn n).perform f with ⟨e | linkCell, g⟩ <;> rw [hr] at hgrows hlookup
    · rw [Path.growColumn, Growth.perform_bind_error hr]
      exact ⟨hgrows, fun c hc => by cases hc⟩
    rw [Path.growColumn, Growth.perform_bind_ok hr,
      Growth.perform_bind_ok (Growth.perform_ofForest _ g)]
    have hg := hf.grows hgrows
    have hlink := hlookup linkCell rfl
    have hl := hasCell_of_lookupColumn? hg hlink
    have hjoin := grows_ensureJoin hl name key
    have hchild := ensureJoin_spec hg hl name key
    have hj := hg.grows hjoin
    obtain ⟨hinner, hfound⟩ := ihInner hj (hasNode_of_joined? hj hchild)
    refine ⟨(hgrows.trans hjoin).trans hinner, fun c hc => ?_⟩
    have hx := hinner.extends hj
    have hlast := hj.grows hinner
    have hlinkJoin := lookupColumn?_of_extends hg hj (hjoin.extends hg) hlink
    simp only [lookupColumn?, Option.bind_eq_bind, Option.bind_eq_some_iff]
    exact ⟨linkCell, lookupColumn?_of_extends hj hlast hx hlinkJoin, _,
      joined?_of_extends hj hlast hx ((hjoin.extends hg).hasCell hl) hchild, hfound c hc⟩

/-- Registering a table only grows the forest. -/
theorem grows_growTable (hf : WellFormed f) {p : Path} {n : NodeId} (hn : f.HasNode n) :
    Grows f ((p.growTable n).perform f).2 := by
  induction p generalizing f n with
  | column name => exact Grows.refl
  | table name key link _ =>
    obtain ⟨hgrows, hlookup⟩ := growColumn_spec (p := link) hf hn
    rcases hr : (link.growColumn n).perform f with ⟨e | linkCell, g⟩ <;> rw [hr] at hgrows hlookup
    · rw [Path.growTable, Growth.perform_bind_error hr]
      exact hgrows
    · rw [Path.growTable, Growth.perform_bind_ok hr]
      have hl := hasCell_of_lookupColumn? (hf.grows hgrows) (hlookup linkCell rfl)
      exact hgrows.trans (grows_ensureJoin hl name key)
  | join name key link inner _ ih =>
    obtain ⟨hgrows, hlookup⟩ := growColumn_spec (p := link) hf hn
    rcases hr : (link.growColumn n).perform f with ⟨e | linkCell, g⟩ <;> rw [hr] at hgrows hlookup
    · rw [Path.growTable, Growth.perform_bind_error hr]
      exact hgrows
    rw [Path.growTable, Growth.perform_bind_ok hr,
      Growth.perform_bind_ok (Growth.perform_ofForest _ g)]
    have hg := hf.grows hgrows
    have hl := hasCell_of_lookupColumn? hg (hlookup linkCell rfl)
    have hjoin := grows_ensureJoin hl name key
    have hj := hg.grows hjoin
    exact (hgrows.trans hjoin).trans
      (ih hj (hasNode_of_joined? hj (ensureJoin_spec hg hl name key)))

theorem registerColumn_spec (hf : WellFormed f) (p : Path) {n : NodeId} (hn : f.HasNode n) :
    Grows f ((registerColumn n p).perform f).2 ∧
      ∀ c, ((registerColumn n p).perform f).1 = .ok c →
        ((registerColumn n p).perform f).2.lookupColumn? n p = some c := by
  unfold registerColumn
  split
  · exact growColumn_spec hf hn
  · exact ⟨Grows.refl, fun c hc => by cases hc⟩

theorem grows_registerTable (hf : WellFormed f) (p : Path) {n : NodeId} (hn : f.HasNode n) :
    Grows f ((registerTable n p).perform f).2 := by
  unfold registerTable
  split
  · exact Grows.refl
  · exact grows_growTable hf hn

end Forest

/-! ## Paths that register without a fault -/

theorem Path.exists_growColumn {p : Path} (hp : p.LinksFit) (hend : p.endsInColumn = true)
    (n : NodeId) (f : Forest) : ∃ c, ((p.growColumn n).perform f).1 = .ok c := by
  induction p generalizing f n with
  | column name => exact ⟨_, rfl⟩
  | table => exact absurd hend Bool.false_ne_true
  | join name key link inner ihLink ihInner =>
    obtain ⟨hlink, hlinkEnd, hinner⟩ := hp
    obtain ⟨c, hc⟩ := ihLink hlink hlinkEnd n f
    rcases hr : (link.growColumn n).perform f with ⟨e | linkCell, g⟩ <;> rw [hr] at hc
    · cases hc
    · rw [Path.growColumn, Growth.perform_bind_ok hr,
        Growth.perform_bind_ok (Growth.perform_ofForest _ g)]
      exact ihInner hinner hend _ _

/-- A fitting path to a column registers. -/
theorem Forest.exists_registerColumn {p : Path} (hp : p.LinksFit) (hend : p.endsInColumn = true)
    (n : NodeId) (f : Forest) : ∃ c, ((registerColumn n p).perform f).1 = .ok c := by
  rw [registerColumn, if_pos hend]
  exact Path.exists_growColumn hp hend n f

end LinkedRows
