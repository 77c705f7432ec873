/-
# Forests that mirror a database

Every record of a forest stands for a row, or for none: the key of a root is given, and the key of
a child is what its link holds or shall hold.  A function from records to keys says so for all
records, also for those that have not learned their keys yet (`place`, `truth`, `effective`).

A forest mirrors a database when what it knows is true where that matters: a record with a key has
the right one, which its link shows too, a link holds nothing or what storage holds, and a current
record holds all that storage holds (`Mirrors`).  The steps of reading keep that, if what is loaded
is true.  Growth keeps it too, as long as the columns that become links hold nothing that is not
true (`Honest`).
-/

import LinkedRows.Proofs.Database
import LinkedRows.Proofs.Forest.Learning

namespace LinkedRows
namespace Forest

/-- Where a record stands that has a given key. -/
def place (f : Forest) (keys : NodeId → Value) (n : NodeId) : Place :=
  ⟨(f.node n).table, f.keyName n, keys n⟩

/-- What storage holds for a column. -/
def truth (db : Database) (f : Forest) (keys : NodeId → Value) (c : CellId) : Value :=
  db.value (f.place keys (f.cell c).owner) (f.cell c).name

/-- What a column shall hold: a key column the key, any other one what was assigned to it, or what
storage holds. -/
def effective (db : Database) (f : Forest) (keys : NodeId → Value) (c : CellId) : Value :=
  if (f.cell c).isKey then f.truth db keys c else (f.cell c).assigned.getD (f.truth db keys c)

/-- A column holds nothing from storage, or what storage holds. -/
def Honest (db : Database) (f : Forest) (keys : NodeId → Value) (c : CellId) : Prop :=
  (f.cell c).isKey = false → (f.cell c).stored = .null ∨ (f.cell c).stored = f.truth db keys c

/-- The record stands for a row that is there. -/
def RowFound (db : Database) (f : Forest) (keys : NodeId → Value) (n : NodeId) : Prop :=
  keys n ≠ .null ∧ db.row? (f.node n).table ⟨f.keyName n, keys n⟩ ≠ none

/-- What the forest knows is true. -/
structure Mirrors (db : Database) (f : Forest) (keys : NodeId → Value) : Prop extends Intact f where
  bound {n} : f.HasNode n → f.isNew n = false → f.keyValue n = keys n ∧ keys n ≠ .null
  child {e} : f.HasEdge e → keys (f.edge e).child = f.effective db keys (f.edge e).link
  link {e} : f.HasEdge e → f.Honest db keys (f.edge e).link
  absent {n c} : c ∈ (f.node n).cells → ¬f.RowFound db keys n → f.Honest db keys c
  current {n c} : (f.node n).current = true → c ∈ (f.node n).cells → (f.cell c).isKey = false →
    (f.cell c).isDirty = false → (f.cell c).stored = f.truth db keys c
  linked {e} : f.HasEdge e → f.isNew (f.edge e).child = false →
    (f.cell (f.edge e).link).value ≠ .null

variable {db : Database} {f g : Forest} {keys keys' : NodeId → Value}

/-! ## The same columns -/

theorem truth_of_sameShape (hs : SameShape f g) (c : CellId) :
    g.truth db keys c = f.truth db keys c := by
  rw [truth, truth, place, place, hs.name, hs.owner, hs.table, hs.keyName]

theorem truth_of_extends (hf : WellFormed f) (hx : Extends f g)
    (hkeys : ∀ n, f.HasNode n → keys' n = keys n) {c : CellId} (hc : f.HasCell c) :
    g.truth db keys' c = f.truth db keys c := by
  have ho := hf.hasOwner hc
  rw [truth, truth, place, place, hx.cell hc, hx.table ho, hx.keyName hf ho, hkeys _ ho]

theorem honest_of_sameShape (hs : SameShape f g) {c : CellId}
    (hstored : (g.cell c).stored = (f.cell c).stored ∨ (g.cell c).stored = f.truth db keys c)
    (h : f.Honest db keys c) : g.Honest db keys c := by
  intro hk
  rw [truth_of_sameShape hs]
  rcases hstored with hstored | hstored
  · rw [hstored]
    exact h ((hs.isKey c).symm.trans hk)
  · exact Or.inr hstored

theorem honest_of_extends (hf : WellFormed f) (hx : Extends f g)
    (hkeys : ∀ n, f.HasNode n → keys' n = keys n) {c : CellId} (hc : f.HasCell c)
    (h : f.Honest db keys c) : g.Honest db keys' c := by
  intro hk
  rw [truth_of_extends hf hx hkeys hc]
  rw [hx.cell hc] at hk ⊢
  exact h hk

/-- A new column is honest. -/
theorem honest_of_stored_null {c : CellId} (h : (f.cell c).stored = .null) :
    f.Honest db keys c := fun _ => Or.inl h

theorem rowFound_of_sameShape (hs : SameShape f g) (n : NodeId) :
    g.RowFound db keys n ↔ f.RowFound db keys n := by
  rw [RowFound, RowFound, hs.table, hs.keyName]

theorem rowFound_of_extends (hf : WellFormed f) (hx : Extends f g)
    (hkeys : ∀ n, f.HasNode n → keys' n = keys n) {n : NodeId} (hn : f.HasNode n) :
    g.RowFound db keys' n ↔ f.RowFound db keys n := by
  rw [RowFound, RowFound, hx.table hn, hx.keyName hf hn, hkeys n hn]

theorem effective_of_extends (hf : WellFormed f) (hx : Extends f g)
    (hkeys : ∀ n, f.HasNode n → keys' n = keys n) {c : CellId} (hc : f.HasCell c) :
    g.effective db keys' c = f.effective db keys c := by
  rw [effective, effective, truth_of_extends hf hx hkeys hc, hx.cell hc]

/-- The key column of a record truly holds its key. -/
theorem truth_key (hf : WellFormed f) {n : NodeId} (hn : f.HasNode n) :
    f.truth db keys (f.node n).key = keys n := by
  rw [truth, hf.owner_key hn]
  exact db.value_keyName (f.place keys n)

theorem name_ne_keyName (hf : WellFormed f) {n : NodeId} {d : CellId} (hmem : d ∈ (f.node n).cells)
    (hk : (f.cell d).isKey = false) : (f.cell d).name ≠ f.keyName n := by
  intro hname
  have hkey := hf.name_inj hmem (hf.key_mem (hasNode_of_mem_cells hmem)) hname
  rw [hkey, isKey_key hf (hasNode_of_mem_cells hmem)] at hk
  exact Bool.false_ne_true hk.symm

theorem truth_of_row (hf : WellFormed f) {n : NodeId} {d : CellId} (hmem : d ∈ (f.node n).cells)
    (hk : (f.cell d).isKey = false) (hkey : keys n ≠ .null) {row : String → Value}
    (hrow : db.row? (f.node n).table ⟨f.keyName n, keys n⟩ = some row) :
    f.truth db keys d = row (f.cell d).name := by
  rw [truth, hf.owner_of_mem hmem]
  exact db.value_of_row (name_ne_keyName hf hmem hk) hkey hrow

/-- The values of a row in the order of some columns. -/
theorem map_truth_of_row (hf : WellFormed f) {n : NodeId} {cells : List CellId}
    (hcells : ∀ d ∈ cells, d ∈ (f.node n).cells ∧ (f.cell d).isKey = false) (hkey : keys n ≠ .null)
    {row : String → Value} (hrow : db.row? (f.node n).table ⟨f.keyName n, keys n⟩ = some row) :
    (cells.map fun d => (f.cell d).name).map row = cells.map (f.truth db keys) := by
  rw [List.map_map]
  refine List.map_congr_left fun d hd => ?_
  obtain ⟨hmem, hk⟩ := hcells d hd
  exact (truth_of_row hf hmem hk hkey hrow).symm

theorem truth_of_not_rowFound (hf : WellFormed f) {n : NodeId} {d : CellId}
    (hmem : d ∈ (f.node n).cells) (hk : (f.cell d).isKey = false) (hrow : ¬f.RowFound db keys n) :
    f.truth db keys d = .null := by
  rw [truth, hf.owner_of_mem hmem]
  by_cases hkey : keys n = .null
  · exact db.value_of_null hkey _
  · refine db.value_of_no_row (name_ne_keyName hf hmem hk) ?_
    by_contra hfound
    exact hrow ⟨hkey, hfound⟩

/-- The key column of a record shall hold its key. -/
theorem effective_key (hf : WellFormed f) {n : NodeId} (hn : f.HasNode n) :
    f.effective db keys (f.node n).key = keys n := by
  rw [effective, if_pos (isKey_key hf hn), truth_key hf hn]

theorem effective_of_column {c : CellId} (hk : (f.cell c).isKey = false) :
    f.effective db keys c = (f.cell c).assigned.getD (f.truth db keys c) := by
  rw [effective, hk]
  rfl

/-- Reading changes no column's part in what the forest shall hold. -/
theorem Learns.effective (h : Learns f g) (hf : WellFormed f) (c : CellId) :
    g.effective db keys c = f.effective db keys c := by
  have hs := h.steady.shape
  cases hk : (f.cell c).isKey with
  | true =>
    rw [Forest.effective, Forest.effective, if_pos hk, if_pos ((hs.isKey c).trans hk),
      truth_of_sameShape hs]
  | false =>
    rw [effective_of_column hk, effective_of_column ((hs.isKey c).trans hk),
      truth_of_sameShape hs, h.assigned hf hk]

namespace Mirrors

/-- The value of an honest column is null, or what the column shall hold. -/
theorem value_eq (hm : Mirrors db f keys) {c : CellId} (hc : f.HasCell c)
    (hhonest : f.Honest db keys c) :
    (f.cell c).value = .null ∨ (f.cell c).value = f.effective db keys c := by
  cases hk : (f.cell c).isKey with
  | true =>
    have ho := hm.hasOwner hc
    have hkey := (hm.isKey_iff hc).1 hk
    cases hnew : f.isNew (f.cell c).owner with
    | true =>
      rw [← hkey]
      exact Or.inl (keyValue_of_isNew hm.toWellFormed hm.unstored ho hnew)
    | false =>
      rw [← hkey, effective_key hm.toWellFormed ho]
      exact Or.inr (hm.bound ho hnew).1
  | false =>
    rw [effective_of_column hk, Cell.value]
    cases ha : (f.cell c).assigned with
    | some v => exact Or.inr rfl
    | none => exact hhonest hk

/-- A link that is not null is what the link shall hold. -/
theorem key_of_value (hm : Mirrors db f keys) {e : EdgeId} (he : f.HasEdge e)
    (hv : (f.cell (f.edge e).link).value ≠ .null) :
    (f.cell (f.edge e).link).value = keys (f.edge e).child := by
  rw [hm.child he]
  exact (hm.value_eq (hm.hasLink he) (hm.link he)).resolve_left hv

/-- A column of a record that has a row and is current is what it shall hold. -/
theorem value_of_current (hm : Mirrors db f keys) {c : CellId} (hc : f.HasCell c)
    (hbound : f.isNew (f.cell c).owner = false)
    (hcurrent : (f.node (f.cell c).owner).current = true) :
    (f.cell c).value = f.effective db keys c := by
  cases hk : (f.cell c).isKey with
  | true =>
    have ho := hm.hasOwner hc
    rw [← (hm.isKey_iff hc).1 hk, effective_key hm.toWellFormed ho]
    exact (hm.bound ho hbound).1
  | false =>
    rw [effective_of_column hk, Cell.value]
    cases ha : (f.cell c).assigned with
    | some v => rfl
    | none =>
      have hclean : (f.cell c).isDirty = false := by rw [Cell.isDirty, ha]; rfl
      exact hm.current hcurrent (hm.mem_owner hc) hk hclean

theorem key_of_current (hm : Mirrors db f keys) {e : EdgeId} (he : f.HasEdge e)
    (hbound : f.isNew (f.edge e).owner = false)
    (hcurrent : (f.node (f.edge e).owner).current = true) :
    (f.cell (f.edge e).link).value = keys (f.edge e).child := by
  rw [← hm.owner_link he] at hbound hcurrent
  rw [hm.child he]
  exact hm.value_of_current (hm.hasLink he) hbound hcurrent

/-! ## Growing -/

end Mirrors

/-- The keys of all records and of one more, which has what its link shall hold. -/
def joinedKeys (db : Database) (f : Forest) (keys : NodeId → Value) (link : CellId) (n : NodeId) :
    Value :=
  if n.index = f.nodes.length then f.effective db keys link else keys n

theorem joinedKeys_of_hasNode {link : CellId} {n : NodeId} (hn : f.HasNode n) :
    f.joinedKeys db keys link n = keys n := if_neg (Nat.ne_of_lt hn)

namespace Mirrors

theorem withCell (hm : Mirrors db f keys) {n : NodeId} {name : String} (hn : f.HasNode n)
    (hname : f.findCell? n name = none) : Mirrors db (f.withCell n name) keys where
  toIntact := hm.toIntact.withCell hn hname
  bound {m} hhas hbound := by
    have hx := extends_withCell name hn
    have hhas := (hasNode_withCell n m).1 hhas
    rw [hx.isNew hm.toWellFormed hhas] at hbound
    rw [hx.keyValue hm.toWellFormed hhas]
    exact hm.bound hhas hbound
  child {e} he := by
    have hx := extends_withCell name hn
    have he : f.HasEdge e := he
    rw [hx.edge he, effective_of_extends hm.toWellFormed hx (fun _ _ => rfl) (hm.hasLink he)]
    exact hm.child he
  link {e} he := by
    have hx := extends_withCell name hn
    have he : f.HasEdge e := he
    rw [hx.edge he]
    exact honest_of_extends hm.toWellFormed hx (fun _ _ => rfl) (hm.hasLink he) (hm.link he)
  absent {m c} hmem hrow := by
    have hx := extends_withCell name hn
    have hwf := hm.toWellFormed.withCell hn hname
    have howner := hwf.owner_of_mem hmem
    rcases (hasCell_withCell n c).1 (hwf.hasCell hmem) with hc | rfl
    · have hhas := (hasNode_withCell n m).1 (hasNode_of_mem_cells hmem)
      rw [rowFound_of_extends hm.toWellFormed hx (fun _ _ => rfl) hhas] at hrow
      rw [hx.cell hc] at howner
      exact honest_of_extends hm.toWellFormed hx (fun _ _ => rfl) hc
        (hm.absent (howner ▸ hm.mem_owner hc) hrow)
    · refine honest_of_stored_null ?_
      rw [cell_newCell]
      rfl
  current {m c} hcurrent hmem hk hclean := by
    have hx := extends_withCell name hn
    have hhas := (hasNode_withCell n m).1 (hasNode_of_mem_cells hmem)
    rw [hx.cells_of_current hhas hcurrent] at hmem
    have hc := hm.hasCell hmem
    rw [truth_of_extends hm.toWellFormed hx (fun _ _ => rfl) hc]
    rw [hx.cell hc] at hk hclean ⊢
    exact hm.current (hx.current hhas hcurrent) hmem hk hclean
  linked {e} he hbound := by
    have hx := extends_withCell name hn
    have he : f.HasEdge e := he
    rw [hx.edge he] at hbound ⊢
    rw [hx.isNew hm.toWellFormed (hm.hasChild he)] at hbound
    rw [hx.cell (hm.hasLink he)]
    exact hm.linked he hbound

/-- The child of a new join has the key that the link shall hold, if it has one. -/
theorem withJoin (hm : Mirrors db f keys) {link : CellId} {table key : String}
    (hl : f.HasCell link) (hhonest : f.Honest db keys link)
    (hlabel : f.findEdge? (f.cell link).owner ⟨table, key, (f.cell link).name⟩ = none) :
    Mirrors db (f.withJoin link table key) (f.joinedKeys db keys link) := by
  have hwf := hm.toWellFormed
  have ho := hm.hasOwner hl
  have hx : Extends f (f.withJoin link table key) := extends_withJoin ho
  have hkeys : ∀ n, f.HasNode n → f.joinedKeys db keys link n = keys n := fun _ =>
    joinedKeys_of_hasNode
  have hnewKeys : f.joinedKeys db keys link ⟨f.nodes.length⟩ = f.effective db keys link :=
    if_pos rfl
  exact
    { toIntact := hm.toIntact.withJoin hl hlabel
      bound := fun {m} hhas hbound => by
        rcases (hasNode_withJoin m).1 hhas with hhas | rfl
        · rw [hx.isNew hwf hhas] at hbound
          rw [hx.keyValue hwf hhas, hkeys m hhas]
          exact hm.bound hhas hbound
        · rw [isNew_newChild ho] at hbound
          have hv : (f.cell link).value ≠ .null := fun h => by
            rw [h] at hbound
            exact absurd hbound (by decide)
          rw [keyValue_newChild ho, hnewKeys]
          have heq := (hm.value_eq hl hhonest).resolve_left hv
          exact ⟨heq, heq ▸ hv⟩
      child := fun {e} he => by
        rcases (hasEdge_withJoin e).1 he with he | rfl
        · rw [hx.edge he, hkeys _ (hm.hasChild he),
            effective_of_extends hwf hx hkeys (hm.hasLink he)]
          exact hm.child he
        · rw [edge_newJoin, newEdge, hnewKeys]
          exact (effective_of_extends hwf hx hkeys hl).symm
      link := fun {e} he => by
        rcases (hasEdge_withJoin e).1 he with he | rfl
        · rw [hx.edge he]
          exact honest_of_extends hwf hx hkeys (hm.hasLink he) (hm.link he)
        · rw [edge_newJoin]
          exact honest_of_extends hwf hx hkeys hl hhonest
      absent := fun {m c} hmem hrow => by
        have hwf' := hwf.withJoin hl hlabel
        have howner := hwf'.owner_of_mem hmem
        rcases (hasCell_withJoin c).1 (hwf'.hasCell hmem) with hc | rfl
        · rw [hx.cell hc] at howner
          have hhas := howner ▸ hm.hasOwner hc
          rw [rowFound_of_extends hwf hx hkeys hhas] at hrow
          exact honest_of_extends hwf hx hkeys hc (hm.absent (howner ▸ hm.mem_owner hc) hrow)
        · refine honest_of_stored_null ?_
          rw [cell_newChild]
          rfl
      current := fun {m c} hcurrent hmem hk hclean => by
        rcases (hasNode_withJoin m).1 (hasNode_of_mem_cells hmem) with hhas | rfl
        · rw [hx.cells_of_current hhas hcurrent] at hmem
          have hc := hm.hasCell hmem
          rw [truth_of_extends hwf hx hkeys hc]
          rw [hx.cell hc] at hk hclean ⊢
          exact hm.current (hx.current hhas hcurrent) hmem hk hclean
        · rw [node_newChild ho] at hcurrent
          exact absurd hcurrent Bool.false_ne_true
      linked := fun {e} he hbound => by
        rcases (hasEdge_withJoin e).1 he with he | rfl
        · rw [hx.edge he] at hbound ⊢
          rw [hx.isNew hwf (hm.hasChild he)] at hbound
          rw [hx.cell (hm.hasLink he)]
          exact hm.linked he hbound
        · rw [edge_newJoin, newEdge] at hbound ⊢
          rw [isNew_newChild ho] at hbound
          rw [hx.cell hl]
          intro hv
          rw [hv] at hbound
          exact absurd hbound (by decide) }

/-! ## Reading -/

/-- A link that has a value keeps one if existing records keep their keys, and columns their values
or get what storage holds. -/
theorem link_ne_null_of_steady (hm : Mirrors db f keys) (hs : Steady f g)
    (hkey : ∀ n, f.HasNode n → f.isNew n = false → g.keyValue n = f.keyValue n)
    (hcell : ∀ c, f.HasCell c → (f.cell c).isKey = false →
      (g.cell c).assigned = (f.cell c).assigned ∧
        ((g.cell c).stored = (f.cell c).stored ∨ (g.cell c).stored = f.truth db keys c))
    {e : EdgeId} (he : f.HasEdge e) (hold : (f.cell (f.edge e).link).value ≠ .null) :
    (g.cell (f.edge e).link).value ≠ .null := by
  have hlink := hm.hasLink he
  have hvalue := (hm.value_eq hlink (hm.link he)).resolve_left hold
  cases hk : (f.cell (f.edge e).link).isKey with
  | true =>
    -- The link is the key of a record that has one, and keeps it.
    have ho := hm.hasOwner hlink
    have hkeyCell := (hm.isKey_iff hlink).1 hk
    have hbound := isNew_of_keyValue hm.toWellFormed hm.unstored ho (by rwa [keyValue, hkeyCell])
    have hkeep := hkey _ ho hbound
    rw [keyValue, keyValue, hs.shape.key, hkeyCell] at hkeep
    rwa [hkeep]
  | false =>
    obtain ⟨hassigned, hstored⟩ := hcell _ hlink hk
    rw [effective_of_column hk] at hvalue
    rw [Cell.value, hassigned]
    rcases hstored with h | h <;> rw [h]
    · exact hold
    · rwa [← hvalue]

/-- Steady changes that give records the keys they stand for, and columns what storage holds. -/
theorem of_steady (hm : Mirrors db f keys) (hs : Steady f g)
    (hbound : ∀ n, f.HasNode n → f.isNew n = true → g.isNew n = false →
      g.keyValue n = keys n ∧ keys n ≠ .null)
    (hkey : ∀ n, f.HasNode n → f.isNew n = false → g.keyValue n = f.keyValue n)
    (hcell : ∀ c, f.HasCell c → (f.cell c).isKey = false →
      (g.cell c).assigned = (f.cell c).assigned ∧
        ((g.cell c).stored = (f.cell c).stored ∨ (g.cell c).stored = f.truth db keys c))
    (hcurrent : ∀ n, (g.node n).current = true → ∀ c ∈ (f.node n).cells, (f.cell c).isKey = false →
      (f.cell c).isDirty = false → (g.cell c).stored = f.truth db keys c)
    (hlinked : ∀ e, f.HasEdge e → f.isNew (f.edge e).child = true →
      g.isNew (f.edge e).child = false → (f.cell (f.edge e).link).value ≠ .null) :
    Mirrors db g keys where
  toIntact := hm.toIntact.steady hs
  bound {n} hn hnew := by
    have hn := (hs.shape.hasNode n).1 hn
    cases hold : f.isNew n with
    | true => exact hbound n hn hold hnew
    | false =>
      rw [hkey n hn hold]
      exact hm.bound hn hold
  child {e} he := by
    have he := (hs.shape.hasEdge e).1 he
    rw [hs.shape.edge, hm.child he]
    cases hk : (f.cell (f.edge e).link).isKey with
    | true =>
      rw [effective, effective, if_pos hk, if_pos ((hs.shape.isKey _).trans hk),
        truth_of_sameShape hs.shape]
    | false =>
      rw [effective_of_column hk, effective_of_column ((hs.shape.isKey _).trans hk),
        truth_of_sameShape hs.shape, (hcell _ (hm.hasLink he) hk).1]
  link {e} he := by
    have he := (hs.shape.hasEdge e).1 he
    rw [hs.shape.edge]
    intro hk
    have hold := (hs.shape.isKey _).symm.trans hk
    exact honest_of_sameShape hs.shape (hcell _ (hm.hasLink he) hold).2 (hm.link he) hk
  absent {n c} hmem hrow := by
    rw [hs.shape.cells] at hmem
    rw [rowFound_of_sameShape hs.shape] at hrow
    intro hk
    have hold := (hs.shape.isKey c).symm.trans hk
    exact honest_of_sameShape hs.shape (hcell c (hm.hasCell hmem) hold).2 (hm.absent hmem hrow) hk
  current {n c} hcur hmem hk hclean := by
    rw [hs.shape.cells] at hmem
    have hk := (hs.shape.isKey c).symm.trans hk
    rw [truth_of_sameShape hs.shape]
    refine hcurrent n hcur c hmem hk ?_
    rw [Cell.isDirty, ← (hcell c (hm.hasCell hmem) hk).1]
    exact hclean
  linked {e} he hnew := by
    have he := (hs.shape.hasEdge e).1 he
    rw [hs.shape.edge] at hnew ⊢
    refine hm.link_ne_null_of_steady hs hkey hcell he ?_
    cases hold : f.isNew (f.edge e).child with
    | true => exact hlinked e he hold hnew
    | false => exact hm.linked he hold

/-- A seeded child learns its key. -/
theorem seedChild (hm : Mirrors db f keys) {e : EdgeId} (he : f.HasEdge e) :
    Mirrors db (f.seedChild e) keys := by
  have hwf := hm.toWellFormed
  have hreach := reaches_seedChild hwf he
  have hother {n : NodeId} (h : n ≠ (f.edge e).child) : n ∉ [(f.edge e).child] := by simpa using h
  have hne {c : CellId} (hk : (f.cell c).isKey = false) : c ≠ (f.node (f.edge e).child).key := by
    rintro rfl
    rw [isKey_key hwf (hwf.hasChild he)] at hk
    exact Bool.false_ne_true hk.symm
  have hnode (n : NodeId) : (f.seedChild e).node n = f.node n := node_seedChild f e n
  -- Only the child can have lost its newness, and only by a link that is not null.
  have hseeded {n : NodeId} (hn : f.HasNode n) (hold : f.isNew n = true)
      (hnew : (f.seedChild e).isNew n = false) :
      n = (f.edge e).child ∧ (f.cell (f.edge e).link).value ≠ .null := by
    by_cases hchild : n = (f.edge e).child
    · refine ⟨hchild, fun hv => ?_⟩
      rw [seedChild_of_null hv] at hnew
      exact absurd (hold.symm.trans hnew) (by decide)
    · rw [hreach.isNew hwf hn (hother hchild)] at hnew
      exact absurd (hold.symm.trans hnew) (by decide)
  refine hm.of_steady hreach.toSteady (fun n hn hold hnew => ?_) (fun n hn hold => ?_)
    (fun c hc hk => ?_) (fun n hcur c hmem hk hclean => ?_) fun e' he' hold hnew => ?_
  · obtain ⟨rfl, hv⟩ := hseeded hn hold hnew
    rw [seedChild_of_value hold hv, keyValue_setKey hwf hn]
    have heq := hm.key_of_value he hv
    exact ⟨heq, heq ▸ hv⟩
  · by_cases hchild : n = (f.edge e).child
    · subst hchild
      rw [seedChild_of_bound hold]
    · exact hreach.keyValue hwf hn (hother hchild)
  · rw [cell_seedChild_of_ne (hne hk)]
    exact ⟨rfl, Or.inl rfl⟩
  · rw [cell_seedChild_of_ne (hne hk)]
    exact hm.current (hnode n ▸ hcur) hmem hk hclean
  · obtain ⟨hchild, hv⟩ := hseeded (hm.hasChild he') hold hnew
    rwa [hwf.edge_unique he' he hchild]

/-- Columns take what storage holds. -/
theorem load (hm : Mirrors db f keys) {cells : List CellId}
    (hcells : ∀ c ∈ cells, (f.cell c).isKey = false) :
    Mirrors db (f.load cells (cells.map (f.truth db keys))) keys := by
  have hwf := hm.toWellFormed
  have hcell {c : CellId} (hc : f.HasCell c) :=
    cell_load_map f cells (f.truth db keys) hc
  have hkeep {n : NodeId} (hn : f.HasNode n) :
      (f.load cells (cells.map (f.truth db keys))).cell (f.node n).key =
        f.cell (f.node n).key := by
    rw [hcell (hwf.hasCell_key hn), if_neg]
    intro hmem
    exact Bool.false_ne_true ((hcells _ hmem).symm.trans (isKey_key hwf hn))
  have hisNew {n : NodeId} (hn : f.HasNode n) :
      (f.load cells (cells.map (f.truth db keys))).isNew n = f.isNew n := by
    rw [isNew, isNew, node_load, hkeep hn]
  refine hm.of_steady (steady_load f _ hcells) (fun n hn hold hnew => ?_) (fun n hn hold => ?_)
    (fun c hc hk => ?_) (fun n hcur c hmem hk hclean => ?_) fun e he hold hnew => ?_
  · exact absurd (hold.symm.trans ((hisNew hn).symm.trans hnew)) (by decide)
  · rw [keyValue, keyValue, node_load, hkeep hn]
  · rw [hcell hc]
    split
    · exact ⟨rfl, Or.inr rfl⟩
    · exact ⟨rfl, Or.inl rfl⟩
  · rw [hcell (hwf.hasCell hmem)]
    split
    · rfl
    · rw [node_load] at hcur
      exact hm.current hcur hmem hk hclean
  · exact absurd (hold.symm.trans ((hisNew (hm.hasChild he)).symm.trans hnew)) (by decide)

/-- A record is marked as current when its columns hold what storage holds. -/
theorem setCurrent (hm : Mirrors db f keys) {n : NodeId}
    (hread : ∀ c ∈ (f.node n).cells, (f.cell c).isKey = false → (f.cell c).isDirty = false →
      (f.cell c).stored = f.truth db keys c) : Mirrors db (f.setCurrent n true) keys := by
  have hnew (m : NodeId) : (f.setCurrent n true).isNew m = f.isNew m := by
    rw [isNew, isNew, (sameShape_setCurrent f n true).key]
    rfl
  refine hm.of_steady (steady_setCurrent f n true) (fun m _ hold hnow => ?_) (fun m _ _ => ?_)
    (fun c _ _ => ⟨rfl, Or.inl rfl⟩) (fun m hcurrent c hmem hk hclean => ?_)
      fun e _ hold hnow => ?_
  · exact absurd (hold.symm.trans ((hnew m).symm.trans hnow)) (by decide)
  · rw [keyValue, keyValue, (sameShape_setCurrent f n true).key]
    rfl
  · by_cases h : m = n
    · exact hread c (h ▸ hmem) hk hclean
    · rw [Forest.setCurrent, node_modifyNode, if_neg fun hm => h hm.1] at hcurrent
      exact hm.current hcurrent hmem hk hclean
  · exact absurd (hold.symm.trans ((hnew _).symm.trans hnow)) (by decide)

end Mirrors
end Forest
end LinkedRows
