/-
# Ways down

Walking down what is below a record, one passes a way: records each of which is a child of the one
before it (`Branches.Leads`).  The chain of a record is such a way: wherever it is cut, what comes
after the cut leads down from there (`leads_of_chain`), and what comes before is neither there nor
below it (`not_below_of_chain`).
-/

import LinkedRows.Proofs.Forest.Changes

namespace LinkedRows

namespace Branches

/-- These records are a way down: the first one is behind a join at the top, and each of the others
is a child of the one before it. -/
def Leads : Branches → List NodeId → Prop
  | .nil, _ => False
  | .cons _ child below next, way =>
    (∃ rest, way = child :: rest ∧ (rest = [] ∨ below.Leads rest)) ∨ next.Leads way

theorem not_leads_nil (b : Branches) : ¬b.Leads [] := by
  induction b with
  | nil => exact id
  | cons _ _ _ _ _ ih =>
    rintro (⟨rest, h, -⟩ | h)
    · cases h
    · exact ih h

/-- A way to a record ends at the first child, or below it, or behind a later join. -/
theorem leads_cons_iff {e : EdgeId} {child m : NodeId} {below next : Branches}
    {way : List NodeId} : (Branches.cons e child below next).Leads (way ++ [m]) ↔
      (way = [] ∧ m = child) ∨ (∃ deeper, way = child :: deeper ∧ below.Leads (deeper ++ [m])) ∨
        next.Leads (way ++ [m]) := by
  rw [Leads, ← or_assoc]
  refine or_congr_left ⟨?_, ?_⟩
  · rintro ⟨rest, hsplit, hrest⟩
    cases way with
    | nil => exact Or.inl ⟨rfl, (List.cons.inj hsplit).1⟩
    | cons k deeper =>
      obtain ⟨rfl, rfl⟩ := List.cons.inj hsplit
      refine Or.inr ⟨deeper, rfl, hrest.resolve_left ?_⟩
      exact List.append_ne_nil_of_right_ne_nil _ nofun
  · rintro (⟨rfl, rfl⟩ | ⟨deeper, rfl, hdeeper⟩)
    · exact ⟨[], rfl, Or.inl rfl⟩
    · exact ⟨deeper ++ [m], rfl, Or.inr hdeeper⟩

theorem Leads.subset {b : Branches} {way : List NodeId} (h : b.Leads way) : way ⊆ b.preOrder := by
  induction b generalizing way with
  | nil => exact h.elim
  | cons e child below next ihBelow ihNext =>
    intro m hm
    rw [mem_preOrder_cons]
    rcases h with ⟨rest, rfl, rfl | hrest⟩ | h
    · exact Or.inl (List.mem_singleton.1 hm)
    · exact (List.mem_cons.1 hm).imp_right fun hm => Or.inl (ihBelow hrest hm)
    · exact Or.inr (Or.inr (ihNext h hm))

/-- The first part of a way is a way. -/
theorem Leads.of_append {b : Branches} {way rest : List NodeId} (h : b.Leads (way ++ rest))
    (hway : way ≠ []) : b.Leads way := by
  induction b generalizing way with
  | nil => exact h.elim
  | cons e child below next ihBelow ihNext =>
    rcases h with ⟨later, hsplit, hlater⟩ | h
    · cases way with
      | nil => exact absurd rfl hway
      | cons k way =>
        obtain ⟨rfl, rfl⟩ := List.cons.inj hsplit
        refine Or.inl ⟨way, rfl, ?_⟩
        by_cases hempty : way = []
        · exact Or.inl hempty
        · refine Or.inr (ihBelow (hlater.resolve_left fun h => hempty ?_) hempty)
          exact (List.append_eq_nil_iff.1 h).1
    · exact Or.inr (ihNext h hway)

end Branches

namespace Forest

variable {f : Forest} {n m a : NodeId} {b : Branches} {e : EdgeId}
  {way before rest : List NodeId}

theorem leads_childOf (hb : f.Hangs n b) (he : e ∈ b.joins) : b.Leads [f.childOf e] := by
  induction b with
  | nil => exact absurd he List.not_mem_nil
  | cons e' child below next _ ih =>
    obtain ⟨-, hchild, -, -, hnext⟩ := hb
    rcases List.mem_cons.1 he with rfl | he
    · exact Or.inl ⟨[], by rw [hchild], Or.inl rfl⟩
    · exact Or.inr (ih hnext he)

/-- A way goes on to the children of its last record. -/
theorem leads_concat (hf : WellFormed f) (hb : f.Hangs n b) (hway : b.Leads (way ++ [m]))
    (he : e ∈ (f.node m).edges) : b.Leads (way ++ [m, f.childOf e]) := by
  induction b generalizing n way with
  | nil => exact hway.elim
  | cons e' child below next ihBelow ihNext =>
    obtain ⟨-, -, rfl, hbelow, hnext⟩ := hb
    rcases Branches.leads_cons_iff.1 hway with ⟨rfl, rfl⟩ | ⟨deeper, rfl, hdeeper⟩ | hway
    · exact Or.inl ⟨_, rfl, Or.inr (leads_childOf hbelow (by rwa [joins_below hf]))⟩
    · exact Or.inl ⟨_, rfl, Or.inr (ihBelow hbelow hdeeper)⟩
    · exact Or.inr (ihNext hnext hway)

/-! ## The chain of a record -/

theorem exists_chain_eq (hf : WellFormed f) (n : NodeId) : ∃ before, f.chain n = before ++ [n] := by
  cases hp : (f.node n).parent with
  | none => exact ⟨[], chain_of_parent_none hp⟩
  | some e => exact ⟨_, chain_of_parent hf hp⟩

/-- What comes after a record in the chain of another one leads there. -/
theorem leads_of_chain (hf : WellFormed f) (h : f.chain n = before ++ a :: rest) :
    rest = [] ∧ a = n ∨ (f.below a).Leads rest := by
  induction n using hf.parent_induction generalizing rest with
  | root n hp =>
    rw [chain_of_parent_none hp, eq_comm, List.append_eq_singleton_iff] at h
    rcases h with ⟨-, h⟩ | ⟨-, h⟩
    · obtain ⟨rfl, rfl⟩ := List.cons.inj h
      exact Or.inl ⟨rfl, rfl⟩
    · cases h
  | child n e hp ih =>
    obtain ⟨he, hc⟩ := hf.edge_of_parent hp
    have hmem := hf.mem_edges he
    rw [chain_of_parent hf hp] at h
    rcases List.eq_nil_or_concat' rest with rfl | ⟨rest, last, rfl⟩
    · exact Or.inl ⟨rfl, (List.singleton_inj.1 (List.append_inj' h rfl).2).symm⟩
    · rw [← List.cons_append, ← List.append_assoc] at h
      obtain ⟨hchain, hlast⟩ := List.append_inj' h rfl
      obtain rfl := List.singleton_inj.1 hlast
      refine Or.inr ?_
      rw [← show f.childOf e = n from hc]
      rcases ih hchain with ⟨rfl, rfl⟩ | hleads
      · exact leads_childOf (hangs_below hf _) (by rwa [joins_below hf])
      · -- The way to the owner of the join ends at the owner.
        rcases List.eq_nil_or_concat' rest with rfl | ⟨rest, last, rfl⟩
        · exact absurd hleads (Branches.not_leads_nil _)
        · obtain ⟨above, howner⟩ := exists_chain_eq hf (f.edge e).owner
          rw [howner, ← List.cons_append, ← List.append_assoc] at hchain
          obtain rfl := List.singleton_inj.1 (List.append_inj' hchain rfl).2
          rw [List.append_assoc]
          exact leads_concat hf (hangs_below hf a) hleads hmem

/-- What comes before a record in the chain of another one is not below it. -/
theorem not_below_of_chain (hf : WellFormed f) (h : f.chain n = before ++ a :: rest)
    (hm : m ∈ before) : m ∉ a :: (f.below a).preOrder := by
  obtain ⟨above, between, rfl⟩ := List.append_of_mem hm
  rw [List.append_assoc, List.cons_append] at h
  have hlt : m.index < a.index := by
    rcases leads_of_chain hf h with ⟨h, -⟩ | hleads
    · simp at h
    · exact (lt_of_mem_preOrder hf (hangs_below hf m) (hleads.subset (by simp))).1
  rw [List.mem_cons, not_or]
  refine ⟨fun h => ?_, fun h => ?_⟩
  · rw [h] at hlt
    exact Nat.lt_irrefl _ hlt
  · exact Nat.lt_asymm hlt (lt_of_mem_preOrder hf (hangs_below hf a) h).1

theorem SameShape.chainWithin {g : Forest} (hs : SameShape f g) (steps : Nat) (n : NodeId) :
    g.chainWithin steps n = f.chainWithin steps n := by
  induction steps generalizing n with
  | zero => rfl
  | succ steps ih =>
    rw [Forest.chainWithin, Forest.chainWithin, hs.parent]
    cases (f.node n).parent with
    | none => rfl
    | some e =>
      dsimp only
      rw [hs.edge, ih]

theorem SameShape.chain {g : Forest} (hs : SameShape f g) (n : NodeId) : g.chain n = f.chain n := by
  rw [Forest.chain, Forest.chain, hs.length_nodes, hs.chainWithin]

end Forest
end LinkedRows
