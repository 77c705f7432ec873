/-
# Kept joins

Walks that save or read pass over deleted records with all below them.  `keptJoins` are the joins
that such a walk goes through: those on the ways down that meet no deleted record.  Where a join is
kept its child is not deleted, and the joins of that child that lead to records not deleted are kept
as well.
-/

import LinkedRows.Proofs.Forest.Below
import LinkedRows.Proofs.Forest.Steady

namespace LinkedRows
namespace Forest

/-- The joins on the ways down that meet no deleted record. -/
def keptJoins (f : Forest) : Branches → List EdgeId
  | .nil => []
  | .cons e child below next =>
    if (f.node child).deleted then f.keptJoins next
    else e :: f.keptJoins below ++ f.keptJoins next

variable {f g : Forest} {n : NodeId} {b below next : Branches} {e : EdgeId} {child : NodeId}

theorem keptJoins_deleted (h : (f.node child).deleted = true) :
    f.keptJoins (.cons e child below next) = f.keptJoins next := by rw [keptJoins, if_pos h]

theorem keptJoins_kept (h : (f.node child).deleted = false) :
    f.keptJoins (.cons e child below next) = e :: f.keptJoins below ++ f.keptJoins next := by
  rw [keptJoins, h, if_neg Bool.false_ne_true]

theorem mem_keptJoins_kept {k : EdgeId} (h : (f.node child).deleted = false) :
    k ∈ f.keptJoins (.cons e child below next) ↔
      k = e ∨ k ∈ f.keptJoins below ∨ k ∈ f.keptJoins next := by
  rw [keptJoins_kept h, List.cons_append, List.mem_cons, List.mem_append]

/-- Which joins are kept is a matter of the deleted records alone. -/
theorem Steady.keptJoins (hs : Steady f g) : g.keptJoins b = f.keptJoins b := by
  induction b with
  | nil => rfl
  | cons e child below next ihBelow ihNext =>
    rw [Forest.keptJoins, Forest.keptJoins, hs.deleted, ihBelow, ihNext]

/-- A join at the top is kept unless its child is deleted. -/
theorem mem_keptJoins_of_joins (hb : f.Hangs n b) (he : e ∈ b.joins)
    (hdel : (f.node (f.edge e).child).deleted = false) : e ∈ f.keptJoins b := by
  induction b generalizing n with
  | nil => exact he
  | cons e' child below next _ ihNext =>
    obtain ⟨-, hchild, -, -, hnext⟩ := hb
    cases hdel' : (f.node child).deleted with
    | true =>
      rw [keptJoins_deleted hdel']
      rcases List.mem_cons.1 he with rfl | he
      · rw [show (f.edge e).child = child from hchild, hdel'] at hdel
        cases hdel
      · exact ihNext hnext he
    | false =>
      rw [mem_keptJoins_kept hdel']
      exact (List.mem_cons.1 he).imp_right fun he => Or.inr (ihNext hnext he)

theorem mem_keptJoins_below (hf : WellFormed f) (he : e ∈ (f.node n).edges)
    (hdel : (f.node (f.edge e).child).deleted = false) : e ∈ f.keptJoins (f.below n) :=
  mem_keptJoins_of_joins (hangs_below hf n) (by rwa [joins_below hf]) hdel

/-- The records that a walk from a record goes through: itself, and the children of kept joins. -/
def Passed (f : Forest) (n m : NodeId) : Prop :=
  m = n ∨ ∃ e ∈ f.keptJoins (f.below n), f.childOf e = m

theorem Steady.passed_iff (hs : Steady f g) (n m : NodeId) : g.Passed n m ↔ f.Passed n m := by
  simp only [Passed, hs.shape.below, hs.keptJoins, hs.shape.childOf]

/-- A kept join leads from a record that the walk goes through to one that is not deleted. -/
theorem kept_spec (hf : WellFormed f) (hb : f.Hangs n b) (he : e ∈ f.keptJoins b) :
    f.HasEdge e ∧ (f.node (f.edge e).child).deleted = false ∧
      ((f.edge e).owner = n ∨ ∃ e' ∈ f.keptJoins b, f.childOf e' = (f.edge e).owner) := by
  induction b generalizing n with
  | nil => exact absurd he List.not_mem_nil
  | cons e' child below next ihBelow ihNext =>
    obtain ⟨he', hchild, -, hhang, hnext⟩ := hb
    cases hdel : (f.node child).deleted with
    | true =>
      rw [keptJoins_deleted hdel] at he ⊢
      exact ihNext hnext he
    | false =>
      rcases (mem_keptJoins_kept hdel).1 he with rfl | he | he
      · refine ⟨hf.hasEdge he', ?_, Or.inl (hf.owner_of_edge he')⟩
        rw [show (f.edge e).child = child from hchild, hdel]
      · obtain ⟨hedge, hkept, howner | ⟨e'', hmem, howner⟩⟩ := ihBelow hhang he
        · exact ⟨hedge, hkept, Or.inr
            ⟨e', (mem_keptJoins_kept hdel).2 (Or.inl rfl), hchild.trans howner.symm⟩⟩
        · exact ⟨hedge, hkept, Or.inr
            ⟨e'', (mem_keptJoins_kept hdel).2 (Or.inr (Or.inl hmem)), howner⟩⟩
      · obtain ⟨hedge, hkept, howner | ⟨e'', hmem, howner⟩⟩ := ihNext hnext he
        · exact ⟨hedge, hkept, Or.inl howner⟩
        · exact ⟨hedge, hkept, Or.inr
            ⟨e'', (mem_keptJoins_kept hdel).2 (Or.inr (Or.inr hmem)), howner⟩⟩

end Forest
end LinkedRows
