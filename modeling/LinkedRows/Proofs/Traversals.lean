/-
# Walks through the forest

A walk is computed with a bound on its steps or its depth; what it does without one is said by
`StackWalk`, `PostWalk` and `Climb`, each of which only holds of a walk that ends.  All three walks
end in what is computed with the bound, in every forest that operations lead to.

From a record, `preOrder` and `postOrder` list that record and those that have it above them
(`AtOrAbove`), each once.  Everything about the order in which they do follows from one lemma for
each: the walk from a record that is visited is a part of the whole walk (`preOrder_sublist`,
`postOrder_sublist`).  So what is in order in the small walk is in order in the large one, be it a
record and those below it or the children of one record; and these stand there in the order of their
joins, which is the order in which the joins were made (`Operated.joinsInOrder`).

The climb gives the one way of parents and children from a root down to a record (`isWay_iff`).
-/

import LinkedRows.Proofs.Forest.KeptOrder
import LinkedRows.Proofs.Forest.Ways
import LinkedRows.Proofs.Handles
import Mathlib.Data.List.Chain
import Mathlib.Logic.Relation

namespace LinkedRows
namespace Forest

variable {f g : Forest} {n m p : NodeId} {b : Branches} {e e' : EdgeId} {edges : List EdgeId}

/-! ## Above and below -/

/-- A join of the first record leads to the second one. -/
def IsParent (f : Forest) (p m : NodeId) : Prop :=
  ∃ e, (f.node m).parent = some e ∧ (f.edge e).owner = p

/-- The first record is the second one, or the way up from the second one comes to it. -/
def AtOrAbove (f : Forest) : NodeId → NodeId → Prop := Relation.ReflTransGen f.IsParent

theorem isParent_iff (hf : WellFormed f) :
    f.IsParent p m ↔ ∃ e ∈ (f.node p).edges, f.childOf e = m := by
  constructor
  · rintro ⟨e, hp, rfl⟩
    obtain ⟨he, hchild⟩ := hf.edge_of_parent hp
    exact ⟨e, hf.mem_edges he, hchild⟩
  · rintro ⟨e, he, rfl⟩
    exact ⟨e, hf.parent_child (hf.hasEdge he), hf.owner_of_edge he⟩

theorem IsParent.index_lt (h : f.IsParent p m) (hf : WellFormed f) : p.index < m.index := by
  obtain ⟨e, hp, rfl⟩ := h
  exact hf.owner_lt_of_parent hp

/-- A record and what hangs below it are the records that have it above them. -/
theorem mem_cons_below_iff (hf : WellFormed f) :
    m ∈ n :: (f.below n).preOrder ↔ f.AtOrAbove n m := by
  constructor
  · intro hm
    induction hk : m.index using Nat.strongRecOn generalizing m with
    | ind k ih =>
      rcases List.mem_cons.1 hm with rfl | hm
      · exact .refl
      · obtain ⟨e, hp, howner⟩ := parent_of_mem_preOrder hf (hangs_below hf n) hm
        have hparent : f.IsParent (f.edge e).owner m := ⟨e, hp, rfl⟩
        have hmem : (f.edge e).owner ∈ n :: (f.below n).preOrder := by
          rcases howner with h | h
          · rw [joins_below hf] at h
            rw [hf.owner_of_edge h]
            exact List.mem_cons_self ..
          · exact List.mem_cons_of_mem _ h
        exact (ih _ (hk ▸ hparent.index_lt hf) hmem rfl).tail hparent
  · intro h
    induction h with
    | refl => exact List.mem_cons_self ..
    | tail _ hparent ih =>
      obtain ⟨e, he, rfl⟩ := (isParent_iff hf).1 hparent
      refine List.mem_cons_of_mem _ ?_
      rcases List.mem_cons.1 ih with rfl | ih
      · exact childOf_mem_below hf he
      · exact childOf_mem_of_mem hf (hangs_below hf n) ih he

theorem mem_preOrder_iff (hf : WellFormed f) (hn : f.HasNode n) (m : NodeId) :
    m ∈ f.preOrder n ↔ f.AtOrAbove n m := by rw [preOrder_eq hf hn, mem_cons_below_iff hf]

theorem mem_postOrder_iff_atOrAbove (hf : WellFormed f) (n m : NodeId) :
    m ∈ f.postOrder n ↔ f.AtOrAbove n m := by rw [mem_postOrder_iff, mem_cons_below_iff hf]

theorem AtOrAbove.hasNode (h : f.AtOrAbove n m) (hf : WellFormed f) (hn : f.HasNode n) :
    f.HasNode m := by
  rcases List.mem_cons.1 ((mem_cons_below_iff hf).2 h) with rfl | hm
  · exact hn
  · exact (lt_of_mem_preOrder hf (hangs_below hf n) hm).2

/-- Of two records with one above the other, the lower one hangs below. -/
theorem AtOrAbove.mem_below (h : f.AtOrAbove n m) (hf : WellFormed f) (hne : n ≠ m) :
    m ∈ (f.below n).preOrder :=
  (List.mem_cons.1 ((mem_cons_below_iff hf).2 h)).resolve_left hne.symm

/-! ## Walks without a bound -/

/-- The children of a record, in the order of their joins. -/
def children (f : Forest) (n : NodeId) : List NodeId := (f.node n).edges.map f.childOf

/-- Takes records from a stack and puts their children on it until it is empty. -/
inductive StackWalk (f : Forest) : (stack : List NodeId) → (visited : List NodeId) → Prop
  | stop : StackWalk f [] []
  | pop {n : NodeId} {stack visited : List NodeId} :
      StackWalk f (f.children n ++ stack) visited → StackWalk f (n :: stack) (n :: visited)

/-- Goes through joins, and at each of them first through those of the child, then to the child. -/
inductive PostWalk (f : Forest) : List EdgeId → (visited : List NodeId) → Prop
  | nil : PostWalk f [] []
  | cons {e : EdgeId} {rest : List EdgeId} {first later : List NodeId} :
      PostWalk f (f.node (f.childOf e)).edges first → PostWalk f rest later →
        PostWalk f (e :: rest) (first ++ f.childOf e :: later)

/-- Goes up from a record, and lists what it comes through from the top. -/
inductive Climb (f : Forest) : NodeId → (way : List NodeId) → Prop
  | root {n : NodeId} : (f.node n).parent = none → Climb f n [n]
  | up {n : NodeId} {e : EdgeId} {way : List NodeId} : (f.node n).parent = some e →
      Climb f (f.edge e).owner way → Climb f n (way ++ [n])

theorem stackWalk (hf : WellFormed f) (stack : List NodeId) :
    f.StackWalk stack (stack.flatMap fun n => n :: (f.below n).preOrder) := by
  induction hk : (stack.flatMap fun n => n :: (f.below n).preOrder).length using
    Nat.strongRecOn generalizing stack with
  | ind k ih =>
    cases stack with
    | nil => exact .stop
    | cons n stack =>
      -- Taking a record from the stack leaves one less to visit.
      have hrest : (f.children n ++ stack).flatMap (fun n => n :: (f.below n).preOrder) =
          (f.below n).preOrder ++ stack.flatMap fun n => n :: (f.below n).preOrder := by
        rw [List.flatMap_append, children, ← preOrder_hang, ← below_eq_hang hf]
      rw [List.flatMap_cons, List.cons_append] at hk ⊢
      refine .pop (hrest ▸ ih _ ?_ _ rfl)
      rw [hrest, ← hk]
      exact Nat.lt_succ_self _

theorem postWalk_of_hangs (hf : WellFormed f) (hb : f.Hangs n b) :
    f.PostWalk b.joins b.postOrder := by
  induction b generalizing n with
  | nil => exact .nil
  | cons e child below next ihBelow ihNext =>
    obtain ⟨-, rfl, rfl, hbelow, hnext⟩ := hb
    have hfirst := ihBelow hbelow
    rw [joins_below hf] at hfirst
    exact .cons hfirst (ihNext hnext)

theorem climb_chain (hf : WellFormed f) (n : NodeId) : f.Climb n (f.chain n) := by
  induction n using hf.parent_induction with
  | root n hp =>
    rw [chain_of_parent_none hp]
    exact .root hp
  | child n e hp ih =>
    rw [chain_of_parent hf hp]
    exact .up hp ih

/-! ## Walks that are parts of walks -/

/-- The first record comes before the second one. -/
def Precedes (order : List NodeId) (a m : NodeId) : Prop := [a, m].Sublist order

theorem preOrder_sublist_of_hangs (hb : f.Hangs n b) (hm : m ∈ b.preOrder) :
    (m :: (f.below m).preOrder).Sublist b.preOrder := by
  induction b generalizing n with
  | nil => exact absurd hm List.not_mem_nil
  | cons e child below next ihBelow ihNext =>
    obtain ⟨-, -, rfl, hbelow, hnext⟩ := hb
    rw [Branches.preOrder] at hm ⊢
    rcases List.mem_append.1 hm with hm | hm
    · refine List.Sublist.trans ?_ (List.sublist_append_left _ _)
      rcases List.mem_cons.1 hm with rfl | hm
      · exact List.Sublist.refl _
      · exact (ihBelow hbelow hm).cons _
    · exact (ihNext hnext hm).trans (List.sublist_append_right _ _)

theorem postOrder_sublist_of_hangs (hb : f.Hangs n b) (hm : m ∈ b.preOrder) :
    (f.postOrder m).Sublist b.postOrder := by
  induction b generalizing n with
  | nil => exact absurd hm List.not_mem_nil
  | cons e child below next ihBelow ihNext =>
    obtain ⟨-, -, rfl, hbelow, hnext⟩ := hb
    rw [Branches.mem_preOrder_cons] at hm
    rw [Branches.postOrder]
    rcases hm with rfl | hm | hm
    · exact (List.Sublist.refl _).append ((List.nil_sublist next.postOrder).cons_cons m)
    · exact (ihBelow hbelow hm).trans (List.sublist_append_left _ _)
    · exact ((ihNext hnext hm).cons _).trans (List.sublist_append_right _ _)

/-- The walk from a record that is visited is a part of the whole walk. -/
theorem preOrder_sublist (hf : WellFormed f) (hn : f.HasNode n) (hm : f.AtOrAbove n m) :
    (f.preOrder m).Sublist (f.preOrder n) := by
  rw [preOrder_eq hf hn, preOrder_eq hf (hm.hasNode hf hn)]
  rcases List.mem_cons.1 ((mem_cons_below_iff hf).2 hm) with rfl | hm
  · exact List.Sublist.refl _
  · exact (preOrder_sublist_of_hangs (hangs_below hf n) hm).cons _

theorem postOrder_sublist (hf : WellFormed f) (hm : f.AtOrAbove n m) :
    (f.postOrder m).Sublist (f.postOrder n) := by
  rcases List.mem_cons.1 ((mem_cons_below_iff hf).2 hm) with rfl | hm
  · exact List.Sublist.refl _
  · exact (postOrder_sublist_of_hangs (hangs_below hf n) hm).trans (List.sublist_append_left _ _)

theorem children_sublist_preOrder (hf : WellFormed f) (hn : f.HasNode n) :
    (f.children n).Sublist (f.preOrder n) := by
  have key (edges : List EdgeId) : (edges.map f.childOf).Sublist (f.hang edges).preOrder := by
    induction edges with
    | nil => exact List.nil_sublist _
    | cons e rest ih =>
      rw [List.map_cons, hang, Branches.preOrder, List.cons_append]
      exact (ih.trans (List.sublist_append_right _ _)).cons_cons _
  rw [preOrder_eq hf hn, below_eq_hang hf]
  exact (key _).cons _

theorem children_sublist_postOrder (hf : WellFormed f) (n : NodeId) :
    (f.children n).Sublist (f.postOrder n) := by
  have key (edges : List EdgeId) : (edges.map f.childOf).Sublist (f.hang edges).postOrder := by
    induction edges with
    | nil => exact List.nil_sublist _
    | cons e rest ih =>
      rw [List.map_cons, hang, Branches.postOrder]
      exact (ih.cons_cons _).trans (List.sublist_append_right _ _)
  rw [postOrder, below_eq_hang hf]
  exact (key _).trans (List.sublist_append_left _ _)

/-! ## The order of joins -/

/-- Each record lists its joins in the order in which they were made. -/
def JoinsInOrder (f : Forest) : Prop :=
  ∀ n, (f.node n).edges.Pairwise fun e e' => e.index < e'.index

theorem joinsInOrder_withJoin {link : CellId} {table key : String} (hf : WellFormed f)
    (ho : f.JoinsInOrder) (hl : f.HasCell link) : (f.withJoin link table key).JoinsInOrder := by
  intro n
  rw [node_withJoin (hf.hasOwner hl)]
  split
  · exact List.Pairwise.nil
  · split
    · refine List.pairwise_append.2 ⟨ho n, List.pairwise_singleton _ _, fun e he e' he' => ?_⟩
      rw [List.mem_singleton.1 he']
      exact hf.hasEdge he
    · exact ho n

theorem Operated.joinsInOrder (h : Operated f) : f.JoinsInOrder := by
  refine (h.induction (P := JoinsInOrder) (fun _ => List.Pairwise.nil) ?_ ?_ ?_).2
  · intro f table keyName key _ ho n
    rw [Forest.addRoot, node_addNode]
    split
    · exact List.Pairwise.nil
    · exact ho n
  · intro f g hf ho hg
    induction hg with
    | refl => exact ho
    | cell _ hn _ ih =>
      intro m
      rw [node_withCell hn]
      split
      · exact ih _
      · exact ih m
    | join hfg hl _ ih => exact joinsInOrder_withJoin (hf.grows hfg) ih hl
  · intro f g ho hs n
    rw [hs.edges]
    exact ho n

/-- Of two joins of a record, the one that was made first stands first. -/
theorem JoinsInOrder.sublist (ho : f.JoinsInOrder) (he : e ∈ (f.node m).edges)
    (he' : e' ∈ (f.node m).edges) (hlt : e.index < e'.index) :
    [e, e'].Sublist (f.node m).edges := by
  obtain ⟨before, after, hsplit⟩ := List.append_of_mem he
  have hsorted := ho m
  rw [hsplit] at hsorted he' ⊢
  obtain ⟨-, -, hcross⟩ := List.pairwise_append.1 hsorted
  rcases List.mem_append.1 he' with h | h
  · exact absurd (hcross e' h e (List.mem_cons_self ..)) (Nat.lt_asymm hlt)
  · rcases List.mem_cons.1 h with rfl | h
    · exact absurd hlt (Nat.lt_irrefl _)
    · exact ((List.singleton_sublist.2 h).cons_cons e).trans (List.sublist_append_right _ _)

/-! ## The way down -/

/-- A way of parents and children from a root down to a record. -/
structure IsWay (f : Forest) (n : NodeId) (way : List NodeId) : Prop where
  root : ∃ r, way.head? = some r ∧ f.IsRoot r
  last : way.getLast? = some n
  steps : way.IsChain f.IsParent

theorem isWay_chain (hf : WellFormed f) (hn : f.HasNode n) : f.IsWay n (f.chain n) := by
  induction n using hf.parent_induction with
  | root n hp =>
    rw [chain_of_parent_none hp]
    exact ⟨⟨n, rfl, hn, hp⟩, rfl, List.isChain_singleton n⟩
  | child n e hp ih =>
    obtain ⟨⟨r, hr, hroot⟩, hlast, hsteps⟩ := ih (hf.hasEdgeOwner (hf.edge_of_parent hp).1)
    rw [chain_of_parent hf hp]
    refine ⟨⟨r, by rw [List.head?_append, hr]; rfl, hroot⟩, List.getLast?_concat, ?_⟩
    refine List.isChain_append.2 ⟨hsteps, List.isChain_singleton n, ?_⟩
    rw [hlast]
    rintro _ ⟨⟩ _ ⟨⟩
    exact ⟨e, hp, rfl⟩

/-- There is one way down to a record, its chain. -/
theorem isWay_iff (hf : WellFormed f) (hn : f.HasNode n) (way : List NodeId) :
    f.IsWay n way ↔ way = f.chain n := by
  refine ⟨fun h => ?_, fun h => h ▸ isWay_chain hf hn⟩
  induction hk : n.index using Nat.strongRecOn generalizing n way with
  | ind k ih =>
    obtain ⟨⟨r, hr, hroot⟩, hlast, hsteps⟩ := h
    obtain ⟨above, rfl⟩ := List.getLast?_eq_some_iff.1 hlast
    rcases List.eq_nil_or_concat' above with rfl | ⟨above, p, rfl⟩
    · obtain rfl : n = r := Option.some.inj hr
      exact (chain_of_parent_none hroot.2).symm
    · obtain ⟨habove, -, hstep⟩ := List.isChain_append.1 hsteps
      obtain ⟨e, hp, rfl⟩ := hstep p List.getLast?_concat n rfl
      have hlt := IsParent.index_lt ⟨e, hp, rfl⟩ hf
      have hhead : (above ++ [(f.edge e).owner]).head? = some r := by
        rw [← hr]
        cases above <;> rfl
      rw [chain_of_parent hf hp, ← ih _ (hk ▸ hlt) (hf.hasEdgeOwner (hf.edge_of_parent hp).1) _
        ⟨⟨r, hhead, hroot⟩, List.getLast?_concat, habove⟩ rfl]

theorem mem_chain_iff (hf : WellFormed f) (n m : NodeId) : n ∈ f.chain m ↔ f.AtOrAbove n m := by
  constructor
  · intro h
    rw [← mem_cons_below_iff hf, List.mem_cons]
    exact (mem_of_mem_chain hf h)
  · intro h
    induction h with
    | refl =>
      obtain ⟨above, h⟩ := exists_chain_eq hf n
      rw [h]
      exact List.mem_append_right _ (List.mem_singleton_self n)
    | tail _ hparent ih =>
      obtain ⟨e, hp, rfl⟩ := hparent
      rw [chain_of_parent hf hp]
      exact List.mem_append_left _ ih

/-! ## What the walks visit -/

/-- The record and those that have it above them, each once, and the children of each record in the
order in which their joins were made. -/
structure Lists (f : Forest) (n : NodeId) (order : List NodeId) : Prop where
  mem_iff (m : NodeId) : m ∈ order ↔ f.AtOrAbove n m
  nodup : order.Nodup
  siblings {m : NodeId} {e e' : EdgeId} : m ∈ order → e ∈ (f.node m).edges → e' ∈ (f.node m).edges →
    e.index < e'.index → Precedes order (f.childOf e) (f.childOf e')

/-- What the walks from a record visit, and in which order. -/
structure Walked (f : Forest) (n : NodeId) : Prop where
  preOrder_ends : f.StackWalk [n] (f.preOrder n)
  postOrder_ends : ∃ visited, f.PostWalk (f.node n).edges visited ∧ f.postOrder n = visited ++ [n]
  chain_ends : f.Climb n (f.chain n)
  preOrder_lists : f.Lists n (f.preOrder n)
  postOrder_lists : f.Lists n (f.postOrder n)
  /-- Records come before those below them. -/
  preOrder_down {a m : NodeId} : f.AtOrAbove n a → f.AtOrAbove a m → a ≠ m →
    Precedes (f.preOrder n) a m
  /-- Records come after those below them. -/
  postOrder_up {a m : NodeId} : f.AtOrAbove n a → f.AtOrAbove a m → a ≠ m →
    Precedes (f.postOrder n) m a
  preOrder_recursive : f.preOrder n = n :: (f.children n).flatMap f.preOrder
  chain_iff (way : List NodeId) : f.IsWay n way ↔ way = f.chain n
  passes_iff (m : NodeId) : n ∈ f.chain m ↔ f.AtOrAbove n m

section

variable (hf : WellFormed f)
include hf

theorem nodup_preOrder_walk (hn : f.HasNode n) : (f.preOrder n).Nodup := by
  rw [preOrder_eq hf hn]
  exact (nodup_preOrder hf (hangs_below hf n) (nodup_joins_below hf n)).cons (not_mem_below hf n)

/-- The walk with a stack visits what a recursive one does. -/
theorem preOrder_eq_recursive (hn : f.HasNode n) :
    f.preOrder n = n :: (f.children n).flatMap f.preOrder := by
  rw [preOrder_eq hf hn, below_eq_hang hf, preOrder_hang]
  refine congrArg (n :: ·) (List.flatMap_congr fun m hm => ?_)
  obtain ⟨e, he, rfl⟩ := List.mem_map.1 hm
  exact (preOrder_eq hf (hasNode_childOf hf he)).symm

theorem precedes_preOrder (hn : f.HasNode n) (hp : f.AtOrAbove n p) (hm : f.AtOrAbove p m)
    (hne : p ≠ m) : Precedes (f.preOrder n) p m := by
  have hpart := preOrder_sublist hf hn hp
  rw [preOrder_eq hf (hp.hasNode hf hn)] at hpart
  exact ((List.singleton_sublist.2 (hm.mem_below hf hne)).cons_cons p).trans hpart

theorem precedes_postOrder (hp : f.AtOrAbove n p) (hm : f.AtOrAbove p m) (hne : p ≠ m) :
    Precedes (f.postOrder n) m p := by
  have hbelow := Branches.mem_postOrder.2 (hm.mem_below hf hne)
  exact ((List.singleton_sublist.2 hbelow).append (List.Sublist.refl [p])).trans
    (postOrder_sublist hf hp)

/-- Children stand in the order of their joins wherever each walk is a part of the whole one. -/
theorem precedes_siblings (ho : f.JoinsInOrder) (hn : f.HasNode n) {walk : NodeId → List NodeId}
    (hpart : ∀ {m}, f.AtOrAbove n m → (walk m).Sublist (walk n))
    (hchildren : ∀ {m}, f.HasNode m → (f.children m).Sublist (walk m)) (hm : f.AtOrAbove n m)
    (he : e ∈ (f.node m).edges) (he' : e' ∈ (f.node m).edges) (hlt : e.index < e'.index) :
    Precedes (walk n) (f.childOf e) (f.childOf e') :=
  ((ho.sublist he he' hlt).map f.childOf).trans
    ((hchildren (hm.hasNode hf hn)).trans (hpart hm))

theorem lists_preOrder (ho : f.JoinsInOrder) (hn : f.HasNode n) : f.Lists n (f.preOrder n) where
  mem_iff := mem_preOrder_iff hf hn
  nodup := nodup_preOrder_walk hf hn
  siblings hm := precedes_siblings hf ho hn (preOrder_sublist hf hn)
    (children_sublist_preOrder hf) ((mem_preOrder_iff hf hn _).1 hm)

theorem lists_postOrder (ho : f.JoinsInOrder) (hn : f.HasNode n) : f.Lists n (f.postOrder n) where
  mem_iff := mem_postOrder_iff_atOrAbove hf n
  nodup := nodup_postOrder hf n
  siblings hm := precedes_siblings hf ho hn (postOrder_sublist hf)
    (fun _ => children_sublist_postOrder hf _) ((mem_postOrder_iff_atOrAbove hf n _).1 hm)

end

/-- **The walks from a record end, and visit the record and all below it in order**, in every forest
that operations lead to. -/
theorem walks_cover (hf : Operated f) (hn : f.HasNode n) : f.Walked n where
  preOrder_ends := by
    have h := stackWalk hf.wellFormed [n]
    rwa [List.flatMap_singleton, ← preOrder_eq hf.wellFormed hn] at h
  postOrder_ends := by
    have h := postWalk_of_hangs hf.wellFormed (hangs_below hf.wellFormed n)
    rw [joins_below hf.wellFormed] at h
    exact ⟨_, h, rfl⟩
  chain_ends := climb_chain hf.wellFormed n
  preOrder_lists := lists_preOrder hf.wellFormed hf.joinsInOrder hn
  postOrder_lists := lists_postOrder hf.wellFormed hf.joinsInOrder hn
  preOrder_down := precedes_preOrder hf.wellFormed hn
  postOrder_up := precedes_postOrder hf.wellFormed
  preOrder_recursive := preOrder_eq_recursive hf.wellFormed hn
  chain_iff := isWay_iff hf.wellFormed hn
  passes_iff := mem_chain_iff hf.wellFormed n

/-- A record with two joined ones, the first of which has another one joined to it that is younger
than both. -/
def branched : Forest :=
  let first : Path := .join "table1" "id" (.column "table1_id")
    (.join "table3" "id" (.column "table3_id") (.column "title"))
  let second : Path := .table "table2" "id" (.column "table2_id")
  let f := (Forest.empty.addRoot "table0" "id" (.int 1)).2
  let f := ((registerTable ⟨0⟩ (.table "table1" "id" (.column "table1_id"))).perform f).2
  let f := ((registerTable ⟨0⟩ second).perform f).2
  ((registerColumn ⟨0⟩ first).perform f).2

theorem operated_branched : Operated branched :=
  (((Operated.empty.addRoot "table0" "id" (.int 1)).registerTable _ (by decide)).registerTable _
    (by decide)).registerColumn _ (by decide)

theorem walks_cover_branched : branched.HasNode ⟨0⟩ ∧ branched.preOrder ⟨0⟩ = [⟨0⟩, ⟨1⟩, ⟨3⟩, ⟨2⟩] ∧
    branched.postOrder ⟨0⟩ = [⟨3⟩, ⟨1⟩, ⟨2⟩, ⟨0⟩] ∧ branched.chain ⟨3⟩ = [⟨0⟩, ⟨1⟩, ⟨3⟩] ∧
    branched.Walked ⟨0⟩ ∧ branched.Walked ⟨3⟩ :=
  ⟨by decide, by decide, by decide, by decide, walks_cover operated_branched (by decide),
    walks_cover operated_branched (by decide)⟩

end Forest
end LinkedRows
