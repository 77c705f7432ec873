/-
# Handles stay good

Records, columns and joins are known by their handles, so what stands behind a handle must never
change.  `Operation` lists what can be asked of a forest through its handles: to grow, to take
values, and to save, fetch or delete through a connector, which may fail at any call.  An operation
that succeeds half-way leaves what it did, so all that is shown here holds for refused operations
too.

There are only two ways for a forest to change.  It grows, by a root (`addRoot`) or by columns and
joins (`Grows`), behind what is there; or it keeps its shape (`SameShape`).  Both leave every handle
as it is (`Persists`), both keep the forest well formed, and of the two only `addRoot` makes a
record that no join leads to (`Operation.isRoot_result_iff`).  What holds of all forests that a run
of operations builds is put together from these steps.
-/

import LinkedRows.Proofs.Operations

namespace LinkedRows
namespace Forest

variable {f g h : Forest}

/-! ## What stands behind a handle -/

/-- All records, columns and joins of the first forest are those of the second, each under its
handle; the lists of a record are at most continued. -/
structure Persists (f g : Forest) : Prop where
  hasNode {n} : f.HasNode n → g.HasNode n
  hasCell {c} : f.HasCell c → g.HasCell c
  hasEdge {e} : f.HasEdge e → g.HasEdge e
  table {n} : f.HasNode n → (g.node n).table = (f.node n).table
  key {n} : f.HasNode n → (g.node n).key = (f.node n).key
  parent {n} : f.HasNode n → (g.node n).parent = (f.node n).parent
  cells {n} : f.HasNode n → (f.node n).cells <+: (g.node n).cells
  edges {n} : f.HasNode n → (f.node n).edges <+: (g.node n).edges
  name {c} : f.HasCell c → (g.cell c).name = (f.cell c).name
  owner {c} : f.HasCell c → (g.cell c).owner = (f.cell c).owner
  isKey {c} : f.HasCell c → (g.cell c).isKey = (f.cell c).isKey
  edge {e} : f.HasEdge e → g.edge e = f.edge e

/-- Growth leaves every handle as it is. -/
theorem Extends.persists (hx : Extends f g) : Persists f g where
  hasNode := hx.hasNode
  hasCell := hx.hasCell
  hasEdge := hx.hasEdge
  table := hx.table
  key := hx.key
  parent := hx.parent
  cells := hx.cells
  edges := hx.edges
  name hc := congrArg Cell.name (hx.cell hc)
  owner hc := congrArg Cell.owner (hx.cell hc)
  isKey hc := congrArg Cell.isKey (hx.cell hc)
  edge := hx.edge

/-- A change that keeps the shape leaves every handle as it is. -/
theorem SameShape.persists (hs : SameShape f g) : Persists f g where
  hasNode := (hs.hasNode _).2
  hasCell := (hs.hasCell _).2
  hasEdge := (hs.hasEdge _).2
  table _ := hs.table _
  key _ := hs.key _
  parent _ := hs.parent _
  cells _ := hs.cells _ ▸ List.prefix_rfl
  edges _ := hs.edges _ ▸ List.prefix_rfl
  name _ := hs.name _
  owner _ := hs.owner _
  isKey _ := hs.isKey _
  edge _ := hs.edge _

/-! ## Records that no join leads to -/

/-- A record without a parent. -/
def IsRoot (f : Forest) (n : NodeId) : Prop := f.HasNode n ∧ (f.node n).parent = none

instance (f : Forest) (n : NodeId) : Decidable (f.IsRoot n) :=
  inferInstanceAs (Decidable (_ ∧ _))

theorem SameShape.isRoot_iff (hs : SameShape f g) (n : NodeId) : g.IsRoot n ↔ f.IsRoot n := by
  rw [IsRoot, IsRoot, hs.hasNode, hs.parent]

theorem isRoot_withCell_iff {n : NodeId} {name : String} (hn : f.HasNode n) (m : NodeId) :
    (f.withCell n name).IsRoot m ↔ f.IsRoot m := by
  have hparent (hm : f.HasNode m) := (extends_withCell name hn).parent hm
  rw [IsRoot, IsRoot, hasNode_withCell]
  exact and_congr_right fun hm => by rw [hparent hm]

/-- The child of a new join is no root. -/
theorem isRoot_withJoin_iff {link : CellId} {table key : String}
    (hl : f.HasNode (f.cell link).owner) (m : NodeId) :
    (f.withJoin link table key).IsRoot m ↔ f.IsRoot m := by
  have hx : Extends f (f.withJoin link table key) := extends_withJoin hl
  have hparent (hm : f.HasNode m) := hx.parent hm
  constructor
  · rintro ⟨hm, hroot⟩
    rcases (hasNode_withJoin m).1 hm with hold | rfl
    · exact ⟨hold, hparent hold ▸ hroot⟩
    · rw [node_newChild hl] at hroot
      cases hroot
  · rintro ⟨hm, hroot⟩
    exact ⟨(hasNode_withJoin m).2 (Or.inl hm), (hparent hm).trans hroot⟩

/-- Growth by columns and joins makes no root. -/
theorem Grows.isRoot_iff (hf : WellFormed f) (hg : Grows f g) (m : NodeId) :
    g.IsRoot m ↔ f.IsRoot m := by
  induction hg with
  | refl => rfl
  | cell _ hn _ ih => exact (isRoot_withCell_iff hn m).trans ih
  | join hfg hl _ ih => exact (isRoot_withJoin_iff ((hf.grows hfg).hasOwner hl) m).trans ih

theorem isRoot_addRoot_iff (table keyName : String) (key : Value) (m : NodeId) :
    (f.addRoot table keyName key).2.IsRoot m ↔
      f.IsRoot m ∨ m = (f.addRoot table keyName key).1 := by
  rw [IsRoot, addRoot, hasNode_addNode, node_addNode]
  constructor
  · rintro ⟨hm | hm, hroot⟩
    · rw [if_neg (Nat.ne_of_lt hm)] at hroot
      exact Or.inl ⟨hm, hroot⟩
    · exact Or.inr hm
  · rintro (⟨hm, hroot⟩ | rfl)
    · rw [if_neg (Nat.ne_of_lt hm)]
      exact ⟨Or.inl hm, hroot⟩
    · exact ⟨Or.inr rfl, by rw [addNode, if_pos rfl]; rfl⟩

/-! ## Operations -/

/-- What can be asked of a forest. -/
inductive Operation : Type 1
  | addRoot (table keyName : String) (key : Value)
  | ensureCell (n : NodeId) (name : String)
  | ensureJoin (link : CellId) (table key : String)
  | registerColumn (n : NodeId) (p : Path)
  | registerTable (n : NodeId) (p : Path)
  | assign (d : CellId) (v : Value)
  /-- Gives a column a value and leaves alone what hangs on it. -/
  | set (d : CellId) (v : Value)
  | discard (d : CellId)
  | save {σ : Type} (c : Connector σ) (store : σ) (n : NodeId)
  | fetch {σ : Type} (c : Connector σ) (store : σ) (n : NodeId)
  | delete {σ : Type} (c : Connector σ) (store : σ) (n : NodeId)
  | deleteAll {σ : Type} (c : Connector σ) (store : σ) (n : NodeId)

namespace Operation

/-- The handles that an operation is asked with are handles of the forest. -/
def Fits (f : Forest) : Operation → Prop
  | .addRoot _ _ _ => True
  | .ensureCell n _ | .registerColumn n _ | .registerTable n _ => f.HasNode n
  | .ensureJoin d _ _ | .assign d _ | .set d _ | .discard d => f.HasCell d
  | .save _ _ n | .fetch _ _ n | .delete _ _ n | .deleteAll _ _ n => f.HasNode n

instance (f : Forest) (op : Operation) : Decidable (op.Fits f) := by
  cases op <;> unfold Fits <;> infer_instance

/-- The forest after an operation, granted or refused. -/
def result (f : Forest) : Operation → Forest
  | .addRoot table keyName key => (f.addRoot table keyName key).2
  | .ensureCell n name => (f.ensureCell n name).2
  | .ensureJoin link table key => (f.ensureJoin link table key).2
  | .registerColumn n p => ((Forest.registerColumn n p).perform f).2
  | .registerTable n p => ((Forest.registerTable n p).perform f).2
  | .assign d v => f.assign d v
  | .set d v => f.modifyCell d (·.assign v)
  | .discard d => f.modifyCell d Cell.discard
  | .save c store n => ((LinkedRows.save c n).perform ⟨store, [], f⟩).2.state
  | .fetch c store n => ((LinkedRows.fetch c n).perform ⟨store, [], f⟩).2.state
  | .delete c store n => ((LinkedRows.delete c n).perform ⟨store, [], f⟩).2.state
  | .deleteAll c store n => ((LinkedRows.deleteAll c n).perform ⟨store, [], f⟩).2.state

/-- The root that an operation makes. -/
def root? (f : Forest) : Operation → Option NodeId
  | .addRoot table keyName key => some (f.addRoot table keyName key).1
  | _ => none

/-- What an operation does to the shape of a forest: a root, or growth by columns and joins, or
nothing at all. -/
theorem result_cases (hf : WellFormed f) (op : Operation) (hop : op.Fits f) :
    (∃ table keyName key, op = .addRoot table keyName key) ∨
      op.root? f = none ∧ (Grows f (op.result f) ∨ SameShape f (op.result f)) := by
  cases op with
  | addRoot table keyName key => exact Or.inl ⟨table, keyName, key, rfl⟩
  | ensureCell n name => exact Or.inr ⟨rfl, Or.inl (grows_ensureCell hop name)⟩
  | ensureJoin link table key => exact Or.inr ⟨rfl, Or.inl (grows_ensureJoin hop table key)⟩
  | registerColumn n p => exact Or.inr ⟨rfl, Or.inl (registerColumn_spec hf p hop).1⟩
  | registerTable n p => exact Or.inr ⟨rfl, Or.inl (grows_registerTable hf p hop)⟩
  | assign d v => exact Or.inr ⟨rfl, Or.inr (sameShape_assign f d v)⟩
  | set d v => exact Or.inr ⟨rfl, Or.inr (sameShape_modifyCell f d fun _ => rfl)⟩
  | discard d => exact Or.inr ⟨rfl, Or.inr (sameShape_modifyCell f d fun _ => rfl)⟩
  | save c store n =>
    exact Or.inr ⟨rfl, Or.inr (save_steady (w := ⟨store, [], f⟩) hf hop).shape⟩
  | fetch c store n => exact Or.inr ⟨rfl, Or.inr (consults_fetch c n hf).learns.steady.shape⟩
  | delete c store n => exact Or.inr ⟨rfl, Or.inr (delete_sameShape c n ⟨store, [], f⟩)⟩
  | deleteAll c store n =>
    exact Or.inr ⟨rfl, Or.inr (deleteAll_sameShape (w := ⟨store, [], f⟩) hf c n)⟩

variable (hf : WellFormed f) (op : Operation) (hop : op.Fits f)
include hf hop

theorem wellFormed_result : WellFormed (op.result f) := by
  obtain ⟨table, keyName, key, rfl⟩ | ⟨-, hgrows | hshape⟩ := op.result_cases hf hop
  · exact hf.addRoot table keyName key
  · exact hf.grows hgrows
  · exact hf.of_sameShape hshape

omit hf in
/-- Operations bring no key into storage. -/
theorem consistent_result (hf : Consistent f) : Consistent (op.result f) := by
  have hwf := hf.toWellFormed
  cases op with
  | addRoot table keyName key =>
    refine ⟨hwf.addRoot table keyName key, fun d hk => ?_⟩
    rw [result, Forest.addRoot, cell_addNode] at hk ⊢
    split at hk
    · rw [if_pos ‹_›]
      rfl
    · rw [if_neg ‹_›]
      exact hf.unstored d hk
  | ensureCell n name => exact hf.grows (grows_ensureCell hop name)
  | ensureJoin link table key => exact hf.grows (grows_ensureJoin hop table key)
  | registerColumn n p => exact hf.grows (registerColumn_spec hwf p hop).1
  | registerTable n p => exact hf.grows (grows_registerTable hwf p hop)
  | assign d v => exact hf.assign d v
  | set d v => exact hf.forgets (forgets_modifyCell f d (fun _ => rfl) fun _ => Or.inl rfl)
  | discard d => exact hf.forgets (forgets_modifyCell f d (fun _ => rfl) fun _ => Or.inl rfl)
  | save c store n => exact hf.steady (save_steady (w := ⟨store, [], f⟩) hwf hop)
  | fetch c store n => exact hf.steady (consults_fetch (w := ⟨store, [], f⟩) c n hwf).learns.steady
  | delete c store n => exact (delete_like (w := ⟨store, [], f⟩) hf n).1
  | deleteAll c store n => exact (deleteAll_like (w := ⟨store, [], f⟩) hf n).1

theorem persists_result : Persists f (op.result f) := by
  obtain ⟨table, keyName, key, rfl⟩ | ⟨-, hgrows | hshape⟩ := op.result_cases hf hop
  · exact (extends_addNode table keyName key none).persists
  · exact (hgrows.extends hf).persists
  · exact hshape.persists

/-- The roots after an operation are those before it and the one that it made. -/
theorem isRoot_result_iff (m : NodeId) :
    (op.result f).IsRoot m ↔ f.IsRoot m ∨ m ∈ op.root? f := by
  obtain ⟨table, keyName, key, rfl⟩ | ⟨hroot, hgrows | hshape⟩ := op.result_cases hf hop
  · rw [result, isRoot_addRoot_iff, root?, Option.mem_some_iff, eq_comm (a := m)]
  · rw [hroot, hgrows.isRoot_iff hf]
    simp
  · rw [hroot, hshape.isRoot_iff]
    simp

end Operation

/-! ## Runs -/

/-- The forests that runs of operations build from the empty one, each with the roots that were
made in the run. -/
inductive Run : List NodeId → Forest → Prop
  | empty : Run [] Forest.empty
  | step {roots : List NodeId} {f : Forest} (op : Operation) : Run roots f → op.Fits f →
      Run (roots ++ (op.root? f).toList) (op.result f)

namespace Run

variable {roots : List NodeId}

theorem wellFormed (h : Run roots f) : WellFormed f := by
  induction h with
  | empty => exact WellFormed.empty
  | step op _ hop ih => exact op.wellFormed_result ih hop

theorem consistent (h : Run roots f) : Consistent f := by
  induction h with
  | empty => exact ⟨WellFormed.empty, fun _ _ => rfl⟩
  | step op _ hop ih => exact op.consistent_result hop ih

theorem isRoot_iff (h : Run roots f) (n : NodeId) : f.IsRoot n ↔ n ∈ roots := by
  induction h with
  | empty => simp [IsRoot, HasNode, Forest.empty]
  | step op hrun hop ih =>
    rw [op.isRoot_result_iff hrun.wellFormed hop, ih, List.mem_append, Option.mem_toList,
      Option.mem_def]

/-- **Every forest that operations build is well formed, its roots are the records that were added
as roots, and no operation on it takes or changes what stands behind a handle.** -/
theorem invariant (h : Run roots f) :
    WellFormed f ∧ (∀ n, f.IsRoot n ↔ n ∈ roots) ∧
      ∀ op : Operation, op.Fits f → Persists f (op.result f) :=
  ⟨h.wellFormed, h.isRoot_iff, fun op hop => op.persists_result h.wellFormed hop⟩

/-- A database that cannot be reached. -/
def unreachable : Connector Unit :=
  let fault : Fault := .connection ⟨"unreachable", none⟩
  { dialect := .sqlite
    query := fun _ _ => (.error fault, ())
    execute := fun _ _ => (.error fault, ())
    lastIdentifier := fun _ => (.error fault, ())
    describe := fun _ _ => (.error fault, ()) }

/-- Registering stops half-way, a link is moved, and the save is refused. -/
def halfway : List Operation :=
  let unfinished : Path := .table "table1" "id" (.column "table1_id")
  [.addRoot "table0" "id" (.int 1),
    .registerColumn ⟨0⟩ (.join "table2" "id" unfinished (.column "title")),
    .assign ⟨1⟩ (.int 7), .save unreachable () ⟨0⟩]

theorem invariant_halfway :
    let f := halfway.foldl Operation.result Forest.empty
    Run [⟨0⟩] f ∧ f.nodes.length = 2 ∧ f.keyValue ⟨1⟩ = .int 7 ∧
      WellFormed f ∧ (∀ n, f.IsRoot n ↔ n ∈ [⟨0⟩]) ∧
      ∀ op : Operation, op.Fits f → Persists f (op.result f) := by
  intro f
  have hroot := Run.empty.step (.addRoot "table0" "id" (.int 1)) trivial
  have hgrown := hroot.step (halfway[1]) (by decide)
  have hmoved := hgrown.step (halfway[2]) (by decide +kernel)
  have hsaved : Run [⟨0⟩] f := hmoved.step (halfway[3]) (by decide +kernel)
  exact ⟨hsaved, by decide +kernel, by decide +kernel, invariant hsaved⟩

end Run

end Forest
end LinkedRows
