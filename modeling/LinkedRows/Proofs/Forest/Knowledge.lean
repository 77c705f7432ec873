/-
# What a forest knows

What the records of a forest stand for is told by the key of the root, by what was assigned and by
the rows: the key of a child is what the link to it shall hold (`keyAt`).  A record may not have
learned that key yet, and one that is bound has to have it.

That all bound records have the keys they stand for follows from what holds join by join: columns
hold nothing but what the row under the key of their record holds, the child of a join is new or has
the key that the link holds, and it is not new if its link was handed on to it (`TrueTo`).  A forest
that is true to a database mirrors it (`TrueTo.mirrors`), and growing keeps it so.

Columns of the root may be in doubt, and hold anything, as long as the root has a row to be read and
is joined to no record through them (`Avoids`).

Assigning a link keeps it so too, unless a record is moved to another row that others are joined to
through its key (`MovesFreely`, `TrueTo.assign`).
-/

import LinkedRows.Proofs.Forest.Changes
import LinkedRows.Proofs.Forest.Tracking
import LinkedRows.Proofs.Relinking

namespace LinkedRows
namespace Forest

variable {db : Database} {f g : Forest} {keys keys' : NodeId → Value} {root n : NodeId}
  {key : Value} {doubt : String → Prop} {e : EdgeId} {d : CellId} {v : Value}

/-! ## The root -/

/-- The record that the others hang from alone is a root, and has a key. -/
structure KeyedRoot (root : NodeId) (key : Value) (f : Forest) : Prop extends Rooted f root where
  keyed : f.keyValue root = key

namespace KeyedRoot

theorem of_keepsKey (h : KeyedRoot root key f) (hs : SameShape f g)
    (hkey : g.cell (f.node root).key = f.cell (f.node root).key) : KeyedRoot root key g :=
  ⟨h.toRooted.of_sameShape hs, (hs.keepsKey hkey).keyValue.trans h.keyed⟩

theorem grows (h : KeyedRoot root key f) (hf : WellFormed f) (hg : Grows f g) :
    KeyedRoot root key g :=
  ⟨h.toRooted.grows hf hg, ((hg.extends hf).keyValue hf h.hasRoot).trans h.keyed⟩

/-- Assigning a column that is no key rebinds records below the root alone. -/
theorem assign (h : KeyedRoot root key f) (hf : WellFormed f) (hd : f.HasCell d)
    (hk : (f.cell d).isKey = false) (v : Value) : KeyedRoot root key (f.assign d v) := by
  have hs := (steady_assignCell f d v).shape
  refine h.of_keepsKey (sameShape_assign f d v) ?_
  rw [(rebinds_assign hf d v).cell (hf.of_sameShape hs), cell_key_assignCell hf hk h.hasRoot]
  rw [hs.owner, hf.owner_key h.hasRoot]
  exact h.toRooted.index_le hf (hf.hasOwner hd)

end KeyedRoot

/-! ## What records stand for -/

theorem truth_congr (h : keys' (f.cell d).owner = keys (f.cell d).owner) :
    f.truth db keys' d = f.truth db keys d := by
  rw [truth, truth, place, place, h]

theorem effective_congr (h : keys' (f.cell d).owner = keys (f.cell d).owner) :
    f.effective db keys' d = f.effective db keys d := by
  rw [effective, effective, truth_congr h]

/-- Nothing is known of the columns of a record without a key. -/
theorem truth_of_null (h : keys (f.cell d).owner = .null) : f.truth db keys d = .null :=
  db.value_of_null h _

/-- The key that a record stands for, by at most some number of joins above it. -/
def keyWithin (db : Database) (f : Forest) : (steps : Nat) → NodeId → Value
  | 0, n => f.keyValue n
  | steps + 1, n =>
    match (f.node n).parent with
    | none => f.keyValue n
    | some e => f.effective db (f.keyWithin db steps) (f.edge e).link

/-- The key that a record stands for: a root for its own, and a child for what the link to it shall
hold. -/
def keyAt (db : Database) (f : Forest) (n : NodeId) : Value := f.keyWithin db f.nodes.length n

theorem keyWithin_of_root (hp : (f.node n).parent = none) (steps : Nat) :
    f.keyWithin db steps n = f.keyValue n := by
  cases steps with
  | zero => rfl
  | succ steps => rw [keyWithin, hp]

/-- No way down to a record is longer than its index. -/
theorem keyWithin_eq (hf : WellFormed f) {steps steps' : Nat} (h : n.index ≤ steps)
    (h' : n.index ≤ steps') : f.keyWithin db steps n = f.keyWithin db steps' n := by
  induction steps generalizing steps' n with
  | zero =>
    cases hp : (f.node n).parent with
    | none => rw [keyWithin_of_root hp, keyWithin_of_root hp]
    | some e =>
      have hlt := hf.owner_lt_of_parent hp
      omega
  | succ steps ih =>
    cases hp : (f.node n).parent with
    | none => rw [keyWithin_of_root hp, keyWithin_of_root hp]
    | some e =>
      have hlt := hf.owner_lt_of_parent hp
      obtain ⟨he, -⟩ := hf.edge_of_parent hp
      cases steps' with
      | zero => omega
      | succ steps' =>
        simp only [keyWithin, hp]
        refine effective_congr ?_
        rw [hf.owner_link he]
        exact ih (by omega) (by omega)

theorem keyAt_root (hp : (f.node n).parent = none) : f.keyAt db n = f.keyValue n :=
  keyWithin_of_root hp _

/-- A child stands for what its link shall hold. -/
theorem keyAt_child (hf : WellFormed f) (he : f.HasEdge e) :
    f.keyAt db (f.edge e).child = f.effective db (f.keyAt db) (f.edge e).link := by
  have hp := hf.parent_child he
  have hchild := hf.hasChild he
  have hlt := hf.owner_lt_child he
  rw [keyAt, keyWithin_eq hf (Nat.le_of_lt hchild)
    (Nat.le_succ_of_le (Nat.le_of_lt hchild))]
  simp only [keyWithin, hp]
  rfl

/-- In a forest that mirrors a database, records stand for the keys that they have or shall have. -/
theorem Mirrors.keyAt_eq (hm : Mirrors db f keys) (hr : Rooted f root)
    (hroot : keys root = f.keyValue root) (hn : f.HasNode n) : f.keyAt db n = keys n := by
  have hf := hm.toWellFormed
  induction n using hf.parent_induction with
  | root n hp => rw [keyAt_root hp, hr.unique hn hp, hroot]
  | child n e hp ih =>
    obtain ⟨he, rfl⟩ := hf.edge_of_parent hp
    rw [keyAt_child hf he, hm.child he]
    refine effective_congr ?_
    rw [hf.owner_link he]
    exact ih (hf.hasEdgeOwner he)

/-! ## What is known is true -/

/-- What is known of one join is true: a child that is bound has the key that the link holds, and
the link of a current record was handed on. -/
structure JoinTrue (f : Forest) (e : EdgeId) : Prop where
  linked : f.isNew (f.edge e).child = false →
    f.linkValue e = f.keyValue (f.edge e).child ∧ f.keyValue (f.edge e).child ≠ .null
  seeded : (f.node (f.edge e).owner).current = true → f.linkValue e ≠ .null →
    f.isNew (f.edge e).child = false

/-- The column is one of the root that nothing is known of. -/
def InDoubt (f : Forest) (root : NodeId) (doubt : String → Prop) (d : CellId) : Prop :=
  (f.cell d).owner = root ∧ doubt (f.cell d).name

theorem inDoubt_of_sameShape (hs : SameShape f g) (d : CellId) :
    g.InDoubt root doubt d ↔ f.InDoubt root doubt d := by
  rw [InDoubt, InDoubt, hs.owner, hs.name]

/-- No join goes through a column of the root that nothing is known of. -/
def Avoids (f : Forest) (root : NodeId) (doubt : String → Prop) : Prop :=
  ∀ e, f.HasEdge e → (f.edge e).owner = root → ¬doubt (f.edge e).label.link

instance (f : Forest) (root : NodeId) (doubt : String → Prop) [DecidablePred doubt] :
    Decidable (f.Avoids root doubt) :=
  inferInstanceAs (Decidable (∀ e, f.HasEdge e → (f.edge e).owner = root →
    ¬doubt (f.edge e).label.link))

theorem Avoids.of_sameShape (h : f.Avoids root doubt) (hs : SameShape f g) :
    g.Avoids root doubt := by
  intro e he
  rw [hs.edge]
  exact h e ((hs.hasEdge e).1 he)

/-- What is known of storage is true for the rows under the keys that records have, and what is
known of the joins.  Some columns of the root may be in doubt: no join goes through them, and the
root has a row that they can be read from. -/
structure TrueTo (db : Database) (root : NodeId) (doubt : String → Prop) (f : Forest) : Prop
    extends Tracks db f where
  honest {d : CellId} : f.HasCell d → ¬f.InDoubt root doubt d → f.Honest db f.keyValue d
  join {e : EdgeId} : f.HasEdge e → JoinTrue f e
  avoids : f.Avoids root doubt
  there {name : String} : doubt name → f.RowFound db f.keyValue root

/-- What is known of a join that is kept stays true. -/
theorem JoinTrue.kept (h : JoinTrue f e) (hedge : g.edge e = f.edge e) (hkept : Kept f g e)
    (hcurrent : (g.node (f.edge e).owner).current = true →
      (f.node (f.edge e).owner).current = true) : JoinTrue g e := by
  obtain ⟨hlink, hchild⟩ := hkept
  rw [childKey, childKey, hedge] at hchild
  have hnew : g.isNew (f.edge e).child = f.isNew (f.edge e).child := by rw [isNew, isNew, hchild]
  have hkey : g.keyValue (f.edge e).child = f.keyValue (f.edge e).child := by
    rw [keyValue, keyValue, hchild]
  constructor <;> rw [hedge, hnew, hlink]
  · rw [hkey]
    exact h.linked
  · exact fun hcur => h.seeded (hcurrent hcur)

/-- The child of a join that is matched has the key that the link holds, or is new if that is
null. -/
theorem Matched.joinTrue (hm : f.Matched e) : JoinTrue f e := by
  rw [Matched, childKey] at hm
  have hnew : f.isNew (f.edge e).child = (f.linkValue e).isNull := by
    rw [isNew, Cell.isDirty, hm]
    cases (f.linkValue e).isNull <;> rfl
  constructor
  · intro hbound
    rw [hnew] at hbound
    have hvalue : f.keyValue (f.edge e).child = f.linkValue e := by
      rw [keyValue, Cell.value, hm, hbound]
      rfl
    rw [hvalue]
    refine ⟨rfl, fun hnull => ?_⟩
    rw [hnull] at hbound
    cases hbound
  · intro _ hvalue
    rw [hnew]
    cases hv : f.linkValue e <;> first | rfl | exact absurd hv hvalue

namespace TrueTo

theorem linked (h : TrueTo db root doubt f) (he : f.HasEdge e)
    (hbound : f.isNew (f.edge e).child = false) :
    f.linkValue e = f.keyValue (f.edge e).child ∧ f.keyValue (f.edge e).child ≠ .null :=
  (h.join he).linked hbound

/-- The links of joins are not in doubt. -/
theorem free (h : TrueTo db root doubt f) (he : f.HasEdge e) :
    ¬f.InDoubt root doubt (f.edge e).link := by
  rintro ⟨howner, hdoubt⟩
  rw [h.owner_link he] at howner
  refine h.avoids e he howner ?_
  rwa [h.label_eq he]

theorem seeded (h : TrueTo db root doubt f) (he : f.HasEdge e)
    (hcurrent : (f.node (f.edge e).owner).current = true) (hvalue : f.linkValue e ≠ .null) :
    f.isNew (f.edge e).child = false := (h.join he).seeded hcurrent hvalue

/-- It suffices to look at the columns of current records, and at no column that is assigned. -/
theorem of_honest (hf : Intact f) (hbound : ∀ n, (f.node n).current = true → f.isNew n = false)
    (hcurrent : ∀ d, f.HasCell d → (f.node (f.cell d).owner).current = true →
      (f.cell d).isKey = false → (f.cell d).isDirty = false →
        (f.cell d).stored = f.truth db f.keyValue d)
    (hhonest : ∀ d, f.HasCell d → ¬f.InDoubt root doubt d → f.Honest db f.keyValue d)
    (hjoin : ∀ e, f.HasEdge e → JoinTrue f e)
    (havoids : f.Avoids root doubt)
    (hthere : ∀ name, doubt name → f.RowFound db f.keyValue root) : TrueTo db root doubt f where
  toIntact := hf
  bound hcur := hbound _ hcur
  read {n} hn := by
    have htruth {d : CellId} (hd : d ∈ (f.node n).cells) :
        f.truth db (fun _ => f.keyValue n) d = f.truth db f.keyValue d :=
      truth_congr (by rw [hf.owner_of_mem hd])
    constructor
    · intro d hcur hmem hk hclean
      rw [htruth hmem]
      rw [← hf.owner_of_mem hmem] at hcur
      exact hcurrent d (hf.hasCell hmem) hcur hk hclean
    · intro d hrow hmem hk hclean
      have hsure : ¬f.InDoubt root doubt d := by
        rintro ⟨howner, hdoubt⟩
        rw [hf.owner_of_mem hmem] at howner
        subst howner
        exact hrow (hthere _ hdoubt)
      rcases hhonest d (hf.hasCell hmem) hsure hk with h | h
      · exact h
      · rw [h, ← htruth hmem]
        exact truth_of_not_rowFound hf.toWellFormed hmem hk hrow
  honest hd := hhonest _ hd
  join he := hjoin _ he
  avoids := havoids
  there := hthere _

theorem stored_of_current (h : TrueTo db root doubt f) (hd : f.HasCell d)
    (hcurrent : (f.node (f.cell d).owner).current = true) (hk : (f.cell d).isKey = false)
    (hclean : (f.cell d).isDirty = false) : (f.cell d).stored = f.truth db f.keyValue d := by
  rw [(h.read (h.hasOwner hd)).current hcurrent (h.mem_owner hd) hk hclean]
  exact truth_congr rfl

/-- The columns of a new record hold nothing from storage. -/
theorem stored_of_isNew (h : TrueTo db root doubt f) (hd : f.HasCell d)
    (hk : (f.cell d).isKey = false) (hnew : f.isNew (f.cell d).owner = true) :
    (f.cell d).stored = .null := by
  have hnull := keyValue_of_isNew h.toWellFormed h.unstored (h.hasOwner hd) hnew
  have hsure : ¬f.InDoubt root doubt d := by
    rintro ⟨howner, hdoubt⟩
    rw [howner] at hnull
    exact (h.there hdoubt).1 hnull
  rcases h.honest hd hsure hk with hstored | hstored
  · exact hstored
  · rw [hstored, truth_of_null hnull]

/-! ## Growing -/

/-- Growth adds joins whose children take the keys that the links hold. -/
theorem grows (h : TrueTo db root doubt f) (hroot : f.HasNode root) (hg : Grows f g)
    (havoids : g.Avoids root doubt) : TrueTo db root doubt g := by
  have htracks := h.toTracks.grows hg
  have hwf := h.toWellFormed
  have hx := hg.extends hwf
  have hhonest : ∀ d, g.HasCell d → ¬g.InDoubt root doubt d → g.Honest db g.keyValue d := by
    intro d _ hsure
    by_cases hd : f.HasCell d
    · rw [InDoubt, hx.cell hd] at hsure
      exact honest_of_extends hwf hx (fun _ hn => hx.keyValue hwf hn) hd (h.honest hd hsure)
    · exact honest_of_stored_null (hg.stored_null hd)
  have hjoin (e : EdgeId) (he : g.HasEdge e) : JoinTrue g e := by
    clear htracks hhonest havoids hx
    induction hg with
    | refl => exact h.join he
    | @cell g n name hfg hn hname ih =>
      have hwf := h.toWellFormed.grows hfg
      have hx := extends_withCell name hn
      have he : g.HasEdge e := he
      exact (ih he).kept (hx.edge he) (hx.kept hwf he) (hx.current (hwf.hasEdgeOwner he))
    | @join g link table key hfg hl hlabel ih =>
      have hwf := h.toWellFormed.grows hfg
      have ho := hwf.hasOwner hl
      have hx : Extends g (g.withJoin link table key) := extends_withJoin ho
      rcases (hasEdge_withJoin e).1 he with he | rfl
      · exact (ih he).kept (hx.edge he) (hx.kept hwf he) (hx.current (hwf.hasEdgeOwner he))
      · refine Matched.joinTrue ?_
        have hvalue : (g.withJoin link table key).linkValue ⟨g.edges.length⟩ =
            (g.cell link).value := by
          rw [linkValue, edge_newJoin, newEdge, hx.cell hl]
        rw [Matched, hvalue, childKey, edge_newJoin, newEdge, cell_key_newChild ho]
        rfl
  exact
    { toTracks := htracks
      honest := hhonest _
      join := hjoin _
      avoids := havoids
      there := fun hdoubt => (rowFound_of_extends hwf hx
        (fun _ hn => hx.keyValue hwf hn) hroot).2 (h.there hdoubt) }

/-! ## Mirroring the database -/

/-- A column is true for the key that its record stands for, if the record has that key or none. -/
theorem honest_of_keys (h : TrueTo db root doubt f) (hd : f.HasCell d)
    (hsure : ¬f.InDoubt root doubt d) (hkey : f.isNew (f.cell d).owner = false →
      f.keyValue (f.cell d).owner = keys (f.cell d).owner) : f.Honest db keys d := by
  intro hk
  cases hnew : f.isNew (f.cell d).owner with
  | true => exact Or.inl (h.stored_of_isNew hd hk hnew)
  | false =>
    rw [← truth_congr (hkey hnew)]
    exact h.honest hd hsure hk

variable (h : TrueTo db root doubt f) (hr : KeyedRoot root key f) (hkey : key ≠ .null)
include h hr hkey

/-- Bound records have the keys that they stand for. -/
theorem keyValue_eq (hn : f.HasNode n) (hbound : f.isNew n = false) :
    f.keyValue n = f.keyAt db n ∧ f.keyAt db n ≠ .null := by
  have hf := h.toWellFormed
  induction n using hf.parent_induction with
  | root n hp =>
    rw [keyAt_root hp, hr.unique hn hp, hr.keyed]
    exact ⟨rfl, hkey⟩
  | child n e hp ih =>
    obtain ⟨he, rfl⟩ := hf.edge_of_parent hp
    obtain ⟨hvalue, hnull⟩ := h.linked he hbound
    have hl := hf.hasLink he
    have ho := hf.hasEdgeOwner he
    have howner := hf.owner_link he
    suffices hlink : f.linkValue e = f.keyAt db (f.edge e).child by
      rw [← hlink, hvalue]
      exact ⟨rfl, hnull⟩
    rw [keyAt_child hf he]
    rw [← hvalue] at hnull
    cases hk : (f.cell (f.edge e).link).isKey with
    | true =>
      -- A link that is a key and has a value is the key of a bound record.
      have hkeyLink := (hf.isKey_iff hl).1 hk
      rw [howner] at hkeyLink
      rw [linkValue, ← hkeyLink] at hnull
      rw [linkValue, ← hkeyLink, effective_key hf ho]
      exact (ih ho (isNew_of_keyValue hf h.unstored ho hnull)).1
    | false =>
      have hhonest : f.Honest db (f.keyAt db) (f.edge e).link :=
        h.honest_of_keys hl (h.free he) fun hb => by
          rw [howner] at hb ⊢
          exact (ih ho hb).1
      rw [effective_of_column hk]
      rw [linkValue, Cell.value] at hnull ⊢
      cases ha : (f.cell (f.edge e).link).assigned with
      | some x => rfl
      | none =>
        rw [ha] at hnull
        exact (hhonest hk).resolve_left hnull

theorem mirrors : Mirrors db f (f.keyAt db) := by
  have hhonest {d : CellId} (hd : f.HasCell d) (hsure : ¬f.InDoubt root doubt d) :
      f.Honest db (f.keyAt db) d :=
    h.honest_of_keys hd hsure fun hb => (h.keyValue_eq hr hkey (h.hasOwner hd) hb).1
  exact
    { toIntact := h.toIntact
      bound := fun hn hb => h.keyValue_eq hr hkey hn hb
      child := keyAt_child h.toWellFormed
      link := fun he => hhonest (h.hasLink he) (h.free he)
      absent := fun {n d} hmem hrow => by
        refine hhonest (h.hasCell hmem) ?_
        rintro ⟨howner, hdoubt⟩
        rw [h.owner_of_mem hmem] at howner
        subst howner
        have hkeyAt : f.keyAt db n = f.keyValue n := keyAt_root hr.isRoot
        refine hrow ?_
        rw [RowFound, hkeyAt]
        exact h.there hdoubt
      current := fun {n d} hcurrent hmem hk hclean => by
        have hn := hasNode_of_mem_cells hmem
        have howner := h.owner_of_mem hmem
        rw [h.stored_of_current (h.hasCell hmem) (by rwa [howner]) hk hclean]
        refine truth_congr ?_
        rw [howner]
        exact (h.keyValue_eq hr hkey hn (h.bound hcurrent)).1
      linked := fun he hb => by
        obtain ⟨hvalue, hnull⟩ := h.linked he hb
        rwa [← hvalue] at hnull }

/-- A link holds nothing, or what the child behind it stands for. -/
theorem linkValue_cases (he : f.HasEdge e) :
    f.linkValue e = .null ∨ f.linkValue e = f.keyAt db (f.edge e).child := by
  by_cases hnull : f.linkValue e = .null
  · exact Or.inl hnull
  · exact Or.inr ((h.mirrors hr hkey).key_of_value he hnull)

end TrueTo

/-! ## Assigning -/

/-- Assigning a value to a column moves records to another row only where no others are joined
through their keys.  A value that agrees with what the column shall hold is that very value. -/
def MovesFreely (db : Database) (f : Forest) (d : CellId) (v : Value) : Prop :=
  ∀ e, f.HasEdge e → (f.edge e).link = d →
    ((f.keyAt db (f.edge e).child).agrees v = true → f.keyAt db (f.edge e).child = v) ∧
    (f.keyAt db (f.edge e).child ≠ v → v ≠ .null → ∀ e', f.HasEdge e' →
      (f.edge e').owner = (f.edge e).child →
        (f.edge e').label.link ≠ f.keyName (f.edge e).child)

instance : Decidable (MovesFreely db f d v) :=
  inferInstanceAs (Decidable (∀ e, f.HasEdge e → (f.edge e).link = d →
    (_ = true → _ = v) ∧ (_ ≠ v → v ≠ .null → ∀ e', f.HasEdge e' →
      (f.edge e').owner = (f.edge e).child → (f.edge e').label.link ≠ _)))

theorem honest_rebindNode (hf : WellFormed f) (hn : f.HasNode n) (key : Value) (hd : f.HasCell d)
    (h : f.Honest db f.keyValue d) :
    (f.rebindNode n key).Honest db (f.rebindNode n key).keyValue d := by
  have hs := sameShape_rebindNode f n key
  intro hk
  rw [hs.isKey] at hk
  by_cases howner : (f.cell d).owner = n
  · have hne : d ≠ (f.node n).key := by
      rintro rfl
      rw [isKey_key hf hn] at hk
      cases hk
    rw [cell_rebindNode hf hn, if_neg hne, if_pos (howner ▸ hf.mem_owner hd)]
    exact Or.inl rfl
  · have hkey : (f.rebindNode n key).keyValue (f.cell d).owner = f.keyValue (f.cell d).owner := by
      have hkeyOwner := hf.owner_key (hf.hasOwner hd)
      rw [keyValue, hs.key, cell_rebindNode_of_owner_ne hf hn (by rwa [hkeyOwner]), keyValue]
    rw [cell_rebindNode_of_owner_ne hf hn howner, truth_of_sameShape hs, truth_congr hkey]
    exact h hk

theorem honest_rebinds {oldest : NodeId} (hf : WellFormed f) (hr : Rebinds oldest f g)
    (hd : f.HasCell d) (h : f.Honest db f.keyValue d) : g.Honest db g.keyValue d := by
  induction hr with
  | refl => exact h
  | node key hg hn _ ih =>
    exact honest_rebindNode (hg.wellFormed hf) hn key ((hg.shape.hasCell d).2 hd) ih

namespace TrueTo

/-- An assignment to a column that is no key makes no column untrue. -/
theorem honest_assign (h : TrueTo db root doubt f) (hk : (f.cell d).isKey = false) (v : Value)
    {x : CellId} (hx : (f.assign d v).HasCell x) (hsure : ¬(f.assign d v).InDoubt root doubt x) :
    (f.assign d v).Honest db (f.assign d v).keyValue x := by
  have hs := (steady_assignCell f d v).shape
  have hx := ((sameShape_assign f d v).hasCell x).1 hx
  rw [inDoubt_of_sameShape (sameShape_assign f d v)] at hsure
  refine honest_rebinds (h.toWellFormed.of_sameShape hs) (rebinds_assign h.toWellFormed d v)
    ((hs.hasCell x).2 hx) fun hkx => ?_
  rw [hs.isKey] at hkx
  have hkey : (f.modifyCell d (·.assign v)).keyValue (f.cell x).owner =
      f.keyValue (f.cell x).owner := by
    rw [keyValue, node_modifyCell, cell_key_assignCell h.toWellFormed hk (h.hasOwner hx), keyValue]
  have hstored : ((f.modifyCell d (·.assign v)).cell x).stored = (f.cell x).stored :=
    cell_modifyCell_proj f Cell.stored d x fun _ => rfl
  rw [truth_of_sameShape hs, truth_congr hkey, hstored]
  exact h.honest hx hsure hkx

/-- An assignment of the value that a column has, or of one that agrees with it. -/
theorem joinTrue_of_agreeing (h : TrueTo db root doubt f) (hr : KeyedRoot root key f)
    (hkey : key ≠ .null) (hd : f.HasCell d) (hk : (f.cell d).isKey = false)
    (hv : f.MovesFreely db d v) (hagrees : (f.cell d).value.agrees v = true) (he : f.HasEdge e) :
    JoinTrue (f.assign d v) e := by
  have hs := sameShape_assign f d v
  have hassign := assign_of_unchanged hagrees
  have hchild : (f.assign d v).childKey e = f.childKey e := by
    rw [hassign, childKey, childKey, edge_modifyCell, node_modifyCell]
    exact cell_key_assignCell h.toWellFormed hk (h.hasChild he) v
  refine (h.join he).kept (hs.edge e) ⟨?_, hchild⟩ fun hcurrent => by rwa [hassign] at hcurrent
  by_cases hl : (f.edge e).link = d
  · have hvalue : (f.assign d v).linkValue e = v := by
      rw [hassign, linkValue, edge_modifyCell, hl, cell_modifyCell_self f hd]
      rfl
    have hold : f.linkValue e = (f.cell d).value := congrArg (fun d => (f.cell d).value) hl
    rw [hvalue]
    rcases h.linkValue_cases hr hkey he with hnull | hkey
    · -- Null agrees with null alone.
      rw [hnull]
      rw [← hold, hnull] at hagrees
      cases v <;> first | rfl | cases hagrees
    · rw [hkey]
      rw [← hold, hkey] at hagrees
      exact ((hv e he hl).1 hagrees).symm
  · rw [hassign, linkValue, edge_modifyCell, cell_modifyCell_of_ne f hl]
    rfl

/-- A join through the key of a record that is moved to the row that it stood for already. -/
theorem joinTrue_of_throughKey (h : TrueTo db root doubt f) (hr : KeyedRoot root key f)
    (hkey : key ≠ .null) (hv : f.MovesFreely db d v) (hnull : v.isNull = false)
    (he : f.HasEdge e) (hthrough : f.ThroughKey (f.linkedBy d) e)
    (hvalue : (f.assign d v).linkValue e = v)
    (hchild : (f.assign d v).childKey e = f.childKey e) : JoinTrue (f.assign d v) e := by
  have hwf := h.toWellFormed
  have hs := sameShape_assign f d v
  have hnull : v ≠ .null := by
    rintro rfl
    cases hnull
  obtain ⟨hmem, hkeyLink⟩ := hthrough
  obtain ⟨e', he', howner⟩ := List.mem_map.1 hmem
  obtain ⟨he', hl⟩ := List.mem_filter.1 he'
  have he' := hwf.hasEdge he'
  have hl : (f.edge e').link = d := by simpa using hl
  have howner : (f.edge e').child = (f.edge e).owner := howner
  -- The record that is moved stands for the assigned key already.
  have hstands : f.keyAt db (f.edge e').child = v := by
    by_contra hne
    refine (hv e' he' hl).2 hne hnull e he howner.symm ?_
    rw [hwf.label_eq he, howner]
    exact congrArg (fun x => (f.cell x).name) hkeyLink
  have hlink : f.linkValue e = f.keyValue (f.edge e).owner := by rw [linkValue, hkeyLink, keyValue]
  have ho := hwf.hasEdgeOwner he
  have hcurrent := (rebinds_assign hwf d v).current (n := (f.edge e).owner)
  cases hnew : f.isNew (f.edge e).owner with
  | false =>
    refine (h.join he).kept (hs.edge e) ⟨?_, hchild⟩ hcurrent
    rw [hvalue, hlink, (h.keyValue_eq hr hkey ho hnew).1, ← howner, hstands]
  | true =>
    -- A record joined to one without a row has no row either.
    have hfresh : f.isNew (f.edge e).child = true := by
      by_contra hbound
      obtain ⟨hold, hne⟩ := h.linked he (Bool.not_eq_true _ ▸ hbound)
      rw [← hold, hlink] at hne
      exact hne (keyValue_of_isNew hwf h.unstored ho hnew)
    have hstays : (f.assign d v).isNew (f.edge e).child = true := by
      rw [childKey, childKey, hs.edge] at hchild
      rw [← hfresh, isNew, isNew, hchild]
    constructor <;> rw [hs.edge]
    · intro hbound
      cases hbound.symm.trans hstays
    · intro hcur
      cases hnew.symm.trans (h.bound (hcurrent hcur))

/-- **An assignment that moves records freely leaves what is known true.** -/
theorem assign (h : TrueTo db root doubt f) (hr : KeyedRoot root key f) (hkey : key ≠ .null)
    (hd : f.HasCell d) (hk : (f.cell d).isKey = false) (hv : f.MovesFreely db d v) :
    TrueTo db root doubt (f.assign d v) := by
  have hs := sameShape_assign f d v
  have hroot := hr.assign h.toWellFormed hd hk v
  have htracks := (h.toTracks.assign_iff hd v).2 fun hkey => absurd (hk.symm.trans hkey) (by decide)
  have hjoin (e : EdgeId) (he : (f.assign d v).HasEdge e) : JoinTrue (f.assign d v) e := by
    have he := (hs.hasEdge e).1 he
    cases hchanged : (f.cell d).value.agrees v with
    | true => exact h.joinTrue_of_agreeing hr hkey hd hk hv hchanged he
    | false =>
      obtain ⟨hkeyed, hothers⟩ := assign_joins h.consistent hd hk hchanged he
      by_cases hthrough : v.isNull = false ∧ f.ThroughKey (f.linkedBy d) e
      · obtain ⟨hvalue, hchild⟩ := hkeyed hthrough.1 hthrough.2
        exact h.joinTrue_of_throughKey hr hkey hv hthrough.1 he hthrough.2 hvalue hchild
      · rcases hothers fun hnull hkey => hthrough ⟨hnull, hkey⟩ with hkept | hmatched
        · exact (h.join he).kept (hs.edge e) hkept (rebinds_assign h.toWellFormed d v).current
        · exact hmatched.joinTrue
  exact
    { toTracks := htracks
      honest := h.honest_assign hk v
      join := hjoin _
      avoids := h.avoids.of_sameShape hs
      there := fun hdoubt => by
        rw [rowFound_of_sameShape hs, RowFound, hroot.keyed, ← hr.keyed]
        exact h.there hdoubt }

end TrueTo
end Forest
end LinkedRows
