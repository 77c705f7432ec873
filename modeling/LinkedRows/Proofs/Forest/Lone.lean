/-
# Forests of one record

The forest of a record that was just created holds that record alone, and only its key is assigned
(`Lone`).  It stays so while columns are registered and take values.
-/

import LinkedRows.Proofs.Forest.Learning

namespace LinkedRows
namespace Forest

/-- A forest of one record that was never read, with a key or without one. -/
structure Lone (root : NodeId) (key : Value) (f : Forest) : Prop extends Untouched f where
  hasRoot : f.HasNode root
  only {n} : f.HasNode n → n = root
  noEdge (e) : ¬f.HasEdge e
  keyed : f.keyValue root = key
  stale : (f.node root).current = false

variable {f g : Forest} {root : NodeId} {key : Value} {c : CellId}

theorem lone_addRoot (table keyName : String) (key : Value) :
    Lone ⟨0⟩ key (Forest.empty.addRoot table keyName key).2 where
  toUntouched := Untouched.addRoot_empty table keyName key
  hasRoot := Nat.zero_lt_one
  only {n} hn := by
    cases n
    exact congrArg NodeId.mk (Nat.lt_one_iff.1 hn)
  noEdge _ := Nat.not_lt_zero _
  keyed := by
    show (if key.isNull then none else some key).getD .null = key
    cases key <;> rfl
  stale := rfl

/-- The first column of a forest is a key. -/
theorem isKey_addRoot_empty {table keyName : String} {key : Value} {c : CellId}
    (hc : (Forest.empty.addRoot table keyName key).2.HasCell c) :
    ((Forest.empty.addRoot table keyName key).2.cell c).isKey = true := by
  have hfirst : c = ⟨0⟩ := by
    cases c
    exact congrArg CellId.mk (Nat.lt_one_iff.1 hc)
  rw [hfirst]
  rfl

namespace Lone

theorem isRoot (h : Lone root key f) : (f.node root).parent = none := by
  rw [Option.eq_none_iff_forall_ne_some]
  intro e he
  exact h.noEdge e (h.edge_of_parent he).1

theorem bound (h : Lone root key f) (hkey : key ≠ .null) : f.isNew root = false :=
  isNew_of_keyValue h.toWellFormed h.unstored h.hasRoot (by rwa [h.keyed])

theorem owner (h : Lone root key f) (hc : f.HasCell c) : (f.cell c).owner = root :=
  h.only (h.hasOwner hc)

theorem withCell (h : Lone root key f) {name : String} (hname : f.findCell? root name = none) :
    Lone root key (f.withCell root name) where
  toUntouched := h.toUntouched.withCell h.hasRoot hname
  hasRoot := (hasNode_withCell root root).2 h.hasRoot
  only hn := h.only ((hasNode_withCell root _).1 hn)
  noEdge := h.noEdge
  keyed := ((extends_withCell name h.hasRoot).keyValue h.toWellFormed h.hasRoot).trans h.keyed
  stale := by rw [node_withCell h.hasRoot, if_pos rfl]

theorem ensureCell (h : Lone root key f) (name : String) :
    Lone root key (f.ensureCell root name).2 := by
  cases hname : f.findCell? root name with
  | some c => rwa [ensureCell_of_some hname]
  | none =>
    rw [ensureCell_of_none hname]
    exact h.withCell hname

theorem loadCell (h : Lone root key f) (hc : (f.cell c).isKey = false) (v : Value) :
    Lone root key (f.modifyCell c (·.load v)) where
  toUntouched := by
    show Untouched (f.load [c] [v])
    exact h.toUntouched.load [v] fun d hd => by rwa [List.mem_singleton.1 hd]
  hasRoot := h.hasRoot
  only := h.only
  noEdge := h.noEdge
  keyed := by
    rw [← h.keyed, keyValue, keyValue, node_modifyCell, cell_modifyCell_of_ne]
    rintro rfl
    rw [isKey_key h.toWellFormed h.hasRoot] at hc
    cases hc
  stale := h.stale

end Lone

end Forest
end LinkedRows
