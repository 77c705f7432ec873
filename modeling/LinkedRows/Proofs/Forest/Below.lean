/-
# What hangs below a record

In a well-formed forest every way down leads from older to younger records, so the depth that
`below` starts with never runs out: what is below a record is its joins in order, each with its
child and what is below the child (`below_eq_hang`).  `Hangs` says the same of every part of such a
tree, which is the form in which inductions over `Branches` use it.

The way up ends for the same reason: `chain` is the chain of the parent with the record behind it.
-/

import LinkedRows.Proofs.Forest.WellFormed

namespace LinkedRows

namespace Branches

/-- The joins at the top, first to last. -/
def joins : Branches → List EdgeId
  | .nil => []
  | .cons e _ _ next => e :: next.joins

/-- All joins, those below a join right after it. -/
def allJoins : Branches → List EdgeId
  | .nil => []
  | .cons e _ below next => e :: below.allJoins ++ next.allJoins

section

variable {below next : Branches} {e k : EdgeId} {child m : NodeId}

theorem mem_preOrder_cons : m ∈ (cons e child below next).preOrder ↔
    m = child ∨ m ∈ below.preOrder ∨ m ∈ next.preOrder := by
  rw [preOrder, List.cons_append, List.mem_cons, List.mem_append]

theorem mem_allJoins_cons : k ∈ (cons e child below next).allJoins ↔
    k = e ∨ k ∈ below.allJoins ∨ k ∈ next.allJoins := by
  rw [allJoins, List.cons_append, List.mem_cons, List.mem_append]

end

theorem mem_postOrder {b : Branches} {n : NodeId} : n ∈ b.postOrder ↔ n ∈ b.preOrder := by
  induction b with
  | nil => rfl
  | cons e child below next ihBelow ihNext =>
    simp only [postOrder, preOrder, List.mem_append, List.mem_cons, List.cons_append, ihBelow,
      ihNext]
    tauto

end Branches

namespace Forest

/-- Joins with what is below their children. -/
def hang (f : Forest) : List EdgeId → Branches
  | [] => .nil
  | e :: rest => .cons e (f.childOf e) (f.below (f.childOf e)) (f.hang rest)

/-- A part of what is below a record: some of its joins, each with all that is below its child. -/
def Hangs (f : Forest) : NodeId → Branches → Prop
  | _, .nil => True
  | n, .cons e child below next =>
    e ∈ (f.node n).edges ∧ f.childOf e = child ∧ f.below child = below ∧ f.Hangs child below ∧
      f.Hangs n next

variable {f g : Forest}

namespace Hangs

variable {n child : NodeId} {e : EdgeId} {below next : Branches}
  (hb : f.Hangs n (.cons e child below next))
include hb

theorem mem : e ∈ (f.node n).edges := hb.1

theorem isChild : f.childOf e = child := hb.2.1

theorem deeper : f.Hangs child below := hb.2.2.2.1

theorem later : f.Hangs n next := hb.2.2.2.2

end Hangs

theorem index_lt_childOf (hf : WellFormed f) {n : NodeId} {e : EdgeId}
    (he : e ∈ (f.node n).edges) : n.index < (f.childOf e).index := by
  have hlt := hf.owner_lt_child (hf.hasEdge he)
  rwa [hf.owner_of_edge he] at hlt

theorem hasNode_childOf (hf : WellFormed f) {n : NodeId} {e : EdgeId}
    (he : e ∈ (f.node n).edges) : (f.childOf e).index < f.nodes.length :=
  hf.hasChild (hf.hasEdge he)

theorem branches_congr (hf : WellFormed f) {d k : Nat} {n : NodeId} {edges : List EdgeId}
    (hedges : ∀ e ∈ edges, e ∈ (f.node n).edges) (hd : f.nodes.length ≤ n.index + d + 1)
    (hk : f.nodes.length ≤ n.index + k + 1) : f.branches d edges = f.branches k edges := by
  induction d generalizing k n edges with
  | zero =>
    cases edges with
    | nil => cases k <;> rfl
    | cons e rest =>
      have hlt := index_lt_childOf hf (hedges e (List.mem_cons_self ..))
      have hchild := hasNode_childOf hf (hedges e (List.mem_cons_self ..))
      omega
  | succ d ih =>
    induction edges with
    | nil => cases k <;> rfl
    | cons e rest ihRest =>
      have hlt := index_lt_childOf hf (hedges e (List.mem_cons_self ..))
      have hchild := hasNode_childOf hf (hedges e (List.mem_cons_self ..))
      have hrest := ihRest fun e' he' => hedges e' (List.mem_cons_of_mem _ he')
      cases k with
      | zero => omega
      | succ k =>
        have hbelow := ih (k := k) (n := f.childOf e) (fun _ h => h) (by omega) (by omega)
        simp only [branches, List.foldr_cons] at hrest ⊢
        rw [hrest, hbelow]

/-- What is below a record is its joins, each with what is below its child. -/
theorem below_eq_hang (hf : WellFormed f) (n : NodeId) :
    f.below n = f.hang (f.node n).edges := by
  have key : ∀ edges, (∀ e ∈ edges, e ∈ (f.node n).edges) →
      f.branches f.nodes.length edges = f.hang edges := by
    intro edges hedges
    induction edges with
    | nil => cases f.nodes.length <;> rfl
    | cons e rest ih =>
      have hrest := ih fun e' he' => hedges e' (List.mem_cons_of_mem _ he')
      have hlt := index_lt_childOf hf (hedges e (List.mem_cons_self ..))
      have hchild := hasNode_childOf hf (hedges e (List.mem_cons_self ..))
      rw [hang, ← hrest, below]
      cases hlen : f.nodes.length with
      | zero => omega
      | succ len =>
        have hbelow : f.branches len (f.node (f.childOf e)).edges =
            f.branches (len + 1) (f.node (f.childOf e)).edges :=
          branches_congr hf (fun _ h => h) (by omega) (by omega)
        simp only [branches, List.foldr_cons] at hbelow ⊢
        rw [hbelow]
  exact key _ fun _ h => h

theorem hangs_hang (hf : WellFormed f) {n : NodeId} {edges : List EdgeId}
    (hedges : ∀ e ∈ edges, e ∈ (f.node n).edges) : f.Hangs n (f.hang edges) := by
  induction hk : f.nodes.length - n.index using Nat.strongRecOn generalizing n edges with
  | ind k ih =>
    induction edges with
    | nil => trivial
    | cons e rest ihRest =>
      have he := hedges e (List.mem_cons_self ..)
      have hlt := index_lt_childOf hf he
      have hchild := hasNode_childOf hf he
      refine ⟨he, rfl, rfl, ?_, ihRest fun e' he' => hedges e' (List.mem_cons_of_mem _ he')⟩
      rw [below_eq_hang hf]
      exact ih _ (by omega) (fun _ h => h) rfl

theorem hangs_below (hf : WellFormed f) (n : NodeId) : f.Hangs n (f.below n) := by
  rw [below_eq_hang hf]
  exact hangs_hang hf fun _ h => h

@[simp] theorem joins_hang (edges : List EdgeId) : (f.hang edges).joins = edges := by
  induction edges with
  | nil => rfl
  | cons e rest ih => rw [hang, Branches.joins, ih]

theorem joins_below (hf : WellFormed f) (n : NodeId) : (f.below n).joins = (f.node n).edges := by
  rw [below_eq_hang hf, joins_hang]

/-- The joins at the top are joins of the record that the tree hangs from. -/
theorem edges_of_joins {n : NodeId} {b : Branches} (hb : f.Hangs n b) {e : EdgeId}
    (he : e ∈ b.joins) : e ∈ (f.node n).edges := by
  induction b with
  | nil => exact absurd he List.not_mem_nil
  | cons e' child below next _ ih =>
    rcases List.mem_cons.1 he with rfl | he
    · exact hb.mem
    · exact ih hb.later he

theorem hasEdge_of_mem_allJoins (hf : WellFormed f) {n : NodeId} {b : Branches}
    (hb : f.Hangs n b) {e : EdgeId} (he : e ∈ b.allJoins) : f.HasEdge e := by
  induction b generalizing n with
  | nil => exact absurd he List.not_mem_nil
  | cons e' child below next ihBelow ihNext =>
    obtain ⟨he', -, -, hbelow, hnext⟩ := hb
    rw [Branches.mem_allJoins_cons] at he
    rcases he with rfl | he | he
    · exact hf.hasEdge he'
    · exact ihBelow hbelow he
    · exact ihNext hnext he

/-! ## Which records are there -/

theorem childOf_mem_preOrder {n : NodeId} {b : Branches} (hb : f.Hangs n b) {e : EdgeId}
    (he : e ∈ b.joins) : f.childOf e ∈ b.preOrder := by
  induction b generalizing n with
  | nil => exact absurd he List.not_mem_nil
  | cons e' child below next _ ihNext =>
    obtain ⟨-, hchild, -, -, hnext⟩ := hb
    rcases List.mem_cons.1 he with rfl | he
    · rw [hchild]
      exact List.mem_cons_self ..
    · exact Branches.mem_preOrder_cons.2 (Or.inr (Or.inr (ihNext hnext he)))

theorem childOf_mem_below (hf : WellFormed f) {n : NodeId} {e : EdgeId}
    (he : e ∈ (f.node n).edges) : f.childOf e ∈ (f.below n).preOrder :=
  childOf_mem_preOrder (hangs_below hf n) (by rwa [joins_below hf])

/-- The children of a record in the tree are in the tree. -/
theorem childOf_mem_of_mem (hf : WellFormed f) {n : NodeId} {b : Branches} (hb : f.Hangs n b)
    {m : NodeId} (hm : m ∈ b.preOrder) {e : EdgeId} (he : e ∈ (f.node m).edges) :
    f.childOf e ∈ b.preOrder := by
  induction b generalizing n with
  | nil => exact absurd hm List.not_mem_nil
  | cons e' child below next ihBelow ihNext =>
    obtain ⟨-, -, hbelow, hchild, hnext⟩ := hb
    rw [Branches.mem_preOrder_cons] at hm ⊢
    rcases hm with rfl | hm | hm
    · exact Or.inr (Or.inl (hbelow ▸ childOf_mem_below hf he))
    · exact Or.inr (Or.inl (ihBelow hchild hm))
    · exact Or.inr (Or.inr (ihNext hnext hm))

/-- The records below a record are younger than it, and there. -/
theorem lt_of_mem_preOrder (hf : WellFormed f) {n : NodeId} {b : Branches} (hb : f.Hangs n b)
    {m : NodeId} (hm : m ∈ b.preOrder) : n.index < m.index ∧ f.HasNode m := by
  induction b generalizing n with
  | nil => exact absurd hm List.not_mem_nil
  | cons e child below next ihBelow ihNext =>
    obtain ⟨he, rfl, -, hchild, hnext⟩ := hb
    have hlt := index_lt_childOf hf he
    rw [Branches.mem_preOrder_cons] at hm
    rcases hm with rfl | hm | hm
    · exact ⟨hlt, hf.hasChild (hf.hasEdge he)⟩
    · obtain ⟨h, hhas⟩ := ihBelow hchild hm
      exact ⟨Nat.lt_trans hlt h, hhas⟩
    · exact ihNext hnext hm

/-- A tree does not hang from a record in it. -/
theorem not_mem_of_hangs (hf : WellFormed f) {n : NodeId} {b : Branches} (hb : f.Hangs n b) :
    n ∉ b.preOrder := fun h => Nat.lt_irrefl _ (lt_of_mem_preOrder hf hb h).1

theorem not_mem_below (hf : WellFormed f) (n : NodeId) : n ∉ (f.below n).preOrder :=
  not_mem_of_hangs hf (hangs_below hf n)

/-- A record in the tree is joined to the record that the tree hangs from, by a join at the top, or
to another one in the tree. -/
theorem parent_of_mem_preOrder (hf : WellFormed f) {n : NodeId} {b : Branches} (hb : f.Hangs n b)
    {m : NodeId} (hm : m ∈ b.preOrder) :
    ∃ e, (f.node m).parent = some e ∧ (e ∈ b.joins ∨ (f.edge e).owner ∈ b.preOrder) := by
  induction b generalizing n with
  | nil => exact absurd hm List.not_mem_nil
  | cons e child below next ihBelow ihNext =>
    obtain ⟨he, hchild, rfl, hbelow, hnext⟩ := hb
    simp only [Branches.preOrder, Branches.joins, List.cons_append, List.mem_cons,
      List.mem_append] at hm ⊢
    rcases hm with rfl | hm | hm
    · refine ⟨e, ?_, Or.inl (Or.inl rfl)⟩
      rw [← hchild]
      exact hf.parent_child (hf.hasEdge he)
    · obtain ⟨e', hp, h | h⟩ := ihBelow hbelow hm
      · rw [joins_below hf] at h
        exact ⟨e', hp, Or.inr (Or.inl (hf.owner_of_edge h))⟩
      · exact ⟨e', hp, Or.inr (Or.inr (Or.inl h))⟩
    · obtain ⟨e', hp, h | h⟩ := ihNext hnext hm
      · exact ⟨e', hp, Or.inl (Or.inr h)⟩
      · exact ⟨e', hp, Or.inr (Or.inr (Or.inr h))⟩

/-- A child is not behind the joins after its own. -/
theorem child_not_mem_next (hf : WellFormed f) {n : NodeId} {e : EdgeId} {child : NodeId}
    {below next : Branches} (hb : f.Hangs n (.cons e child below next))
    (hjoins : (Branches.cons e child below next).joins.Nodup) : child ∉ next.preOrder := by
  obtain ⟨he, hchild, -, -, hnext⟩ := hb
  intro hm
  obtain ⟨e', hp, h⟩ := parent_of_mem_preOrder hf hnext hm
  rw [← hchild, childOf, hf.parent_child (hf.hasEdge he)] at hp
  obtain rfl := Option.some.inj hp
  rcases h with h | h
  · exact (List.nodup_cons.1 hjoins).1 h
  · rw [hf.owner_of_edge he] at h
    exact not_mem_of_hangs hf hnext h

theorem nodup_joins_below (hf : WellFormed f) (n : NodeId) : (f.below n).joins.Nodup := by
  rw [joins_below hf]
  exact hf.nodup_edges n

/-! ## The way up -/

theorem chainWithin_congr (hf : WellFormed f) {s k : Nat} {n : NodeId} (hs : n.index ≤ s)
    (hk : n.index ≤ k) : f.chainWithin s n = f.chainWithin k n := by
  induction s generalizing k n with
  | zero =>
    cases hp : (f.node n).parent with
    | none => cases k <;> simp [chainWithin, hp]
    | some e =>
      have hlt := hf.owner_lt_of_parent hp
      omega
  | succ s ih =>
    cases hp : (f.node n).parent with
    | none => cases k <;> simp [chainWithin, hp]
    | some e =>
      have hlt := hf.owner_lt_of_parent hp
      cases k with
      | zero => omega
      | succ k =>
        simp only [chainWithin, hp]
        rw [ih (k := k) (by omega) (by omega)]

theorem chain_of_parent_none {n : NodeId} (hp : (f.node n).parent = none) : f.chain n = [n] := by
  unfold chain
  cases f.nodes.length <;> simp [chainWithin, hp]

theorem chain_of_parent (hf : WellFormed f) {n : NodeId} {e : EdgeId}
    (hp : (f.node n).parent = some e) : f.chain n = f.chain (f.edge e).owner ++ [n] := by
  have hlt := hf.owner_lt_of_parent hp
  have hn : n.index < f.nodes.length := by
    obtain ⟨he, rfl⟩ := hf.edge_of_parent hp
    exact hf.hasChild he
  unfold chain
  cases hlen : f.nodes.length with
  | zero => omega
  | succ len =>
    have howner : f.chainWithin (len + 1) (f.edge e).owner = f.chainWithin len (f.edge e).owner :=
      chainWithin_congr hf (by omega) (by omega)
    rw [howner]
    simp only [chainWithin, hp]

/-- A record on the way down to another one is that one or has it below it. -/
theorem mem_of_mem_chain (hf : WellFormed f) {n m : NodeId} (hm : m ∈ f.chain n) :
    n = m ∨ n ∈ (f.below m).preOrder := by
  induction n using hf.parent_induction with
  | root n hp =>
    rw [chain_of_parent_none hp] at hm
    exact Or.inl (List.mem_singleton.1 hm).symm
  | child n e hp ih =>
    rw [chain_of_parent hf hp] at hm
    obtain ⟨he, rfl⟩ := hf.edge_of_parent hp
    have hmem := hf.mem_edges he
    rcases List.mem_append.1 hm with hm | hm
    · refine Or.inr ?_
      rcases ih hm with ho | ho
      · exact childOf_mem_below hf (ho ▸ hmem)
      · exact childOf_mem_of_mem hf (hangs_below hf m) ho hmem
    · exact Or.inl (List.mem_singleton.1 hm).symm

/-! ## Forests of one shape -/

theorem SameShape.branches (hs : SameShape f g) :
    ∀ (d : Nat) (edges : List EdgeId), g.branches d edges = f.branches d edges
  | 0, _ => rfl
  | d + 1, edges => by
    simp only [Forest.branches]
    congr 1
    funext e next
    rw [hs.childOf, hs.edges, SameShape.branches hs d]

theorem SameShape.below (hs : SameShape f g) (n : NodeId) : g.below n = f.below n := by
  rw [Forest.below, Forest.below, hs.length_nodes, hs.edges, hs.branches]

theorem SameShape.hangs (hs : SameShape f g) {n : NodeId} {b : Branches} (hb : f.Hangs n b) :
    g.Hangs n b := by
  induction b generalizing n with
  | nil => trivial
  | cons e child below next ihBelow ihNext =>
    obtain ⟨he, hc, hbelow, hchild, hnext⟩ := hb
    exact ⟨(hs.edges n).symm ▸ he, (hs.childOf e).trans hc, (hs.below child).trans hbelow,
      ihBelow hchild, ihNext hnext⟩

end Forest
end LinkedRows
