/-
# The order of kept records

A walk that saves comes to the children of the kept joins, each after all that is kept below it.
`keptOrder` is that order.  It is a part of the order in which `postOrder` visits all records, so no
record is in it twice and none comes before one that is below it.
-/

import LinkedRows.Proofs.Forest.Changes
import LinkedRows.Proofs.Forest.Kept

namespace LinkedRows

/-- Both orders visit the same records, each as often. -/
theorem Branches.postOrder_perm (b : Branches) : b.postOrder.Perm b.preOrder := by
  induction b with
  | nil => rfl
  | cons e child below next ihBelow ihNext =>
    exact List.perm_middle.trans ((ihBelow.append ihNext).cons child)

namespace Forest

/-- The children of the kept joins, those below a record before it. -/
def keptOrder (f : Forest) : Branches → List NodeId
  | .nil => []
  | .cons _ child below next =>
    if (f.node child).deleted then f.keptOrder next
    else f.keptOrder below ++ child :: f.keptOrder next

variable {f g : Forest} {n m : NodeId} {b below next : Branches} {e : EdgeId} {child : NodeId}

theorem keptOrder_deleted (h : (f.node child).deleted = true) :
    f.keptOrder (.cons e child below next) = f.keptOrder next := by rw [keptOrder, if_pos h]

theorem keptOrder_kept (h : (f.node child).deleted = false) :
    f.keptOrder (.cons e child below next) =
      f.keptOrder below ++ child :: f.keptOrder next := by
  rw [keptOrder, h, if_neg Bool.false_ne_true]

theorem Steady.keptOrder (hs : Steady f g) (b : Branches) : g.keptOrder b = f.keptOrder b := by
  induction b with
  | nil => rfl
  | cons e child below next ihBelow ihNext =>
    rw [Forest.keptOrder, Forest.keptOrder, hs.deleted, ihBelow, ihNext]

theorem mem_keptOrder (hb : f.Hangs n b) :
    m ∈ f.keptOrder b ↔ ∃ e ∈ f.keptJoins b, f.childOf e = m := by
  induction b generalizing n with
  | nil => simp [keptOrder, keptJoins]
  | cons e child below next ihBelow ihNext =>
    obtain ⟨-, hchild, -, hbelow, hnext⟩ := hb
    cases hdel : (f.node child).deleted with
    | true => rw [keptOrder_deleted hdel, keptJoins_deleted hdel, ihNext hnext]
    | false =>
      rw [keptOrder_kept hdel, keptJoins_kept hdel, List.mem_append, List.mem_cons,
        ihBelow hbelow, ihNext hnext]
      simp only [List.cons_append, List.mem_cons, List.mem_append, or_and_right, exists_or,
        exists_eq_left, hchild, eq_comm (a := m)]
      exact or_left_comm

theorem keptOrder_sublist (f : Forest) (b : Branches) : (f.keptOrder b).Sublist b.postOrder := by
  induction b with
  | nil => exact List.Sublist.slnil
  | cons e child below next ihBelow ihNext =>
    rw [Branches.postOrder]
    cases hdel : (f.node child).deleted with
    | true =>
      rw [keptOrder_deleted hdel]
      exact (ihNext.cons child).trans (List.sublist_append_right _ _)
    | false =>
      rw [keptOrder_kept hdel]
      exact ihBelow.append (ihNext.cons_cons child)

/-- What is below a record in the tree is in the tree. -/
theorem mem_preOrder_trans (hb : f.Hangs n b) {k : NodeId} (hk : k ∈ b.preOrder)
    (hm : m ∈ (f.below k).preOrder) : m ∈ b.preOrder := by
  induction b generalizing n with
  | nil => exact absurd hk List.not_mem_nil
  | cons e child below next ihBelow ihNext =>
    obtain ⟨-, -, rfl, hbelow, hnext⟩ := hb
    rw [Branches.mem_preOrder_cons] at hk ⊢
    rcases hk with rfl | hk | hk
    · exact Or.inr (Or.inl hm)
    · exact Or.inr (Or.inl (ihBelow hbelow hk))
    · exact Or.inr (Or.inr (ihNext hnext hk))

/-- Of two records of the tree, the one that is visited later is not below the earlier one. -/
theorem postOrder_pairwise (hf : WellFormed f) (hb : f.Hangs n b) (hjoins : b.joins.Nodup) :
    b.postOrder.Pairwise fun m later => later ∉ (f.below m).preOrder := by
  induction b generalizing n with
  | nil => exact List.Pairwise.nil
  | cons e child below next ihBelow ihNext =>
    have hout {m : NodeId} (hm : m ∈ below.preOrder) : m ∉ next.preOrder :=
      not_mem_next_of_below hf hb hjoins hm
    obtain ⟨-, -, hbelowEq, hbelow, hnext⟩ := hb
    rw [Branches.postOrder, List.pairwise_append, List.pairwise_cons]
    refine ⟨ihBelow hbelow (hbelowEq ▸ nodup_joins_below hf child), ⟨fun k hk hmem => ?_,
      ihNext hnext (List.nodup_cons.1 hjoins).2⟩, fun m hm k hk hmem => ?_⟩
    · rw [hbelowEq] at hmem
      exact hout hmem (Branches.mem_postOrder.1 hk)
    · have hm := Branches.mem_postOrder.1 hm
      rcases List.mem_cons.1 hk with rfl | hk
      · have hdown := (lt_of_mem_preOrder hf hbelow hm).1
        have hup := (lt_of_mem_preOrder hf (hangs_below hf m) hmem).1
        omega
      · exact hout (mem_preOrder_trans hbelow hm hmem) (Branches.mem_postOrder.1 hk)

theorem nodup_postOrder (hf : WellFormed f) (n : NodeId) : (f.postOrder n).Nodup := by
  have hnodup := nodup_preOrder hf (hangs_below hf n) (nodup_joins_below hf n)
  refine List.nodup_append'.2 ⟨(Branches.postOrder_perm _).nodup_iff.2 hnodup,
    List.nodup_singleton n, fun m hm hn => ?_⟩
  exact not_mem_below hf n (Branches.mem_postOrder.1 (List.mem_singleton.1 hn ▸ hm))

theorem mem_postOrder_iff : m ∈ f.postOrder n ↔ m ∈ n :: (f.below n).preOrder := by
  rw [postOrder, List.mem_append, List.mem_singleton, List.mem_cons, Branches.mem_postOrder,
    or_comm]

/-- Of a record and those below it, the one that is visited later is not below the earlier one. -/
theorem postOrder_pairwise_root (hf : WellFormed f) (n : NodeId) :
    (f.postOrder n).Pairwise fun m later => later ∉ (f.below m).preOrder := by
  have hb := hangs_below hf n
  refine List.pairwise_append.2 ⟨postOrder_pairwise hf hb (nodup_joins_below hf n),
    List.pairwise_singleton _ _, fun m hm k hk hup => ?_⟩
  rw [List.mem_singleton.1 hk] at hup
  have hdown := (lt_of_mem_preOrder hf hb (Branches.mem_postOrder.1 hm)).1
  have hup := (lt_of_mem_preOrder hf (hangs_below hf m) hup).1
  omega

/-- **The order of a save.**  The records that a walk from a record goes through, with that record
at the end, are each there once, and none comes before one that is below it. -/
theorem keptOrder_spec (hf : WellFormed f) (n : NodeId) :
    (f.keptOrder (f.below n) ++ [n]).Nodup ∧
      (∀ m, m ∈ f.keptOrder (f.below n) ++ [n] ↔ f.Passed n m) ∧
      (f.keptOrder (f.below n) ++ [n]).Pairwise fun m later => later ∉ (f.below m).preOrder := by
  have hsub : (f.keptOrder (f.below n) ++ [n]).Sublist (f.postOrder n) :=
    (keptOrder_sublist f (f.below n)).append (List.Sublist.refl [n])
  refine ⟨(nodup_postOrder hf n).sublist hsub, fun m => ?_,
    (postOrder_pairwise_root hf n).sublist hsub⟩
  rw [List.mem_append, List.mem_singleton, mem_keptOrder (hangs_below hf n), Passed, or_comm]

end Forest
end LinkedRows
