/-
# What reading keeps true

A forest that is true to a database follows it, if no row hangs from a record without one and all
keys can be written (`Grounded`).  That is told by the rows and by what was assigned alone, so it
holds of one of two twins if it holds of the other one.  Which columns are in doubt may differ
between them.

Reading a forest that follows a database keeps it true to it: what a read loads is true, and so are
the keys that it hands on (`TrueTo.fetched`).  The same holds of what is read before a save
(`TrueTo.resolved`).
-/

import LinkedRows.Proofs.Forest.Knowledge
import LinkedRows.Proofs.Forest.Lone
import LinkedRows.Proofs.Resolving
import LinkedRows.Proofs.TwinReading

namespace LinkedRows

open Forest

variable {σ : Type} {c : Connector σ} {db : Database} {still : σ → Prop} {f g : Forest}
  {w v : World σ Forest} {keys : NodeId → Value} {root : NodeId} {key : Value}
  {doubt doubt' : String → Prop}

namespace Forest

/-! ## Following -/

/-- No row hangs from a record without one, and all keys can be written. -/
structure Grounded (dialect : Dialect) (db : Database) (f : Forest) : Prop where
  hangs {e} : f.HasEdge e → f.keyAt db (f.edge e).owner = .null →
    f.keyAt db (f.edge e).child = .null
  writes {n} : f.HasNode n → dialect.Writes (f.keyAt db n)

instance (dialect : Dialect) : Decidable (Grounded dialect db f) :=
  decidable_of_iff
    ((∀ e, f.HasEdge e → f.keyAt db (f.edge e).owner = .null →
      f.keyAt db (f.edge e).child = .null) ∧ ∀ n, f.HasNode n → dialect.Writes (f.keyAt db n))
    ⟨fun h => ⟨h.1 _, h.2 _⟩, fun h => ⟨fun _ => h.hangs, fun _ => h.writes⟩⟩

namespace TrueTo

/-- Records that are bound have keys. -/
theorem keyValue_ne_null (h : TrueTo db root doubt f) (hr : KeyedRoot root key f)
    (hkey : key ≠ .null) {n : NodeId} (hn : f.HasNode n) (hbound : f.isNew n = false) :
    f.keyValue n ≠ .null := by
  obtain ⟨hvalue, hnull⟩ := h.keyValue_eq hr hkey hn hbound
  rwa [hvalue]

theorem follows (h : TrueTo db root doubt f) (hr : KeyedRoot root key f) (hkey : key ≠ .null)
    (hg : Grounded c.dialect db f) : Follows c db f (f.keyAt db) where
  toMirrors := h.mirrors hr hkey
  grounded := hg.hangs
  writes := hg.writes
  root hn hp := isNew_of_keyValue h.toWellFormed h.unstored hn (by rwa [hr.unique hn hp, hr.keyed])

/-- The link of a current record was handed on. -/
theorem linksSeeded (h : TrueTo db root doubt f) (hm : Mirrors db f keys) : LinksSeeded f keys :=
  fun _ he howner hcurrent hkey =>
    h.seeded he hcurrent ((hm.key_of_current he howner hcurrent).trans_ne hkey)

/-- What is known and can be read follows the database. -/
theorem truthful (h : TrueTo db root doubt f) (hr : KeyedRoot root key f) (hkey : key ≠ .null)
    (hg : Grounded c.dialect db f) : Truthful c db root key f :=
  have hf := h.follows hr hkey hg
  ⟨f.keyAt db, (keyAt_root hr.isRoot).trans hr.keyed, hf, h.linksSeeded hf.toMirrors⟩

end TrueTo

/-- The records of twins stand for the same keys. -/
theorem Twins.keyAt_eq (h : Twins f g) (hf : TrueTo db root doubt f) (hg : TrueTo db root doubt' g)
    (hr : KeyedRoot root key f) (hr' : KeyedRoot root key g) (hkey : key ≠ .null) {n : NodeId}
    (hn : f.HasNode n) : g.keyAt db n = f.keyAt db n := by
  refine h.keys_eq (hf.mirrors hr hkey) (hg.mirrors hr' hkey) hr.toRooted ?_ hn
  rw [keyAt_root hr.isRoot, keyAt_root hr'.isRoot, hr.keyed, hr'.keyed]

theorem Grounded.twins {dialect : Dialect} (h : Grounded dialect db f) (htwins : Twins f g)
    (hkeys : ∀ n, f.HasNode n → g.keyAt db n = f.keyAt db n) (hf : WellFormed f) :
    Grounded dialect db g where
  hangs {e} he := by
    have he := (htwins.hasEdge e).1 he
    rw [htwins.owner, htwins.child, hkeys _ (hf.hasEdgeOwner he), hkeys _ (hf.hasChild he)]
    exact h.hangs he
  writes {n} hn := by
    have hn := (htwins.hasNode n).1 hn
    rw [hkeys n hn]
    exact h.writes hn

theorem MovesFreely.twins {d d' : CellId} {x : Value} (h : MovesFreely db f d x)
    (htwins : Twins f g) (hkeys : ∀ n, f.HasNode n → g.keyAt db n = f.keyAt db n)
    (hf : WellFormed f) (hg : WellFormed g) (hd : SameColumn f g d d') : MovesFreely db g d' x := by
  intro e he hlink
  have he := (htwins.hasEdge e).1 he
  have hchild := hf.hasChild he
  obtain ⟨hsame, hmoved⟩ := h e he (((htwins.link hf hg he).eq_iff hd hf hg).2 hlink)
  rw [htwins.child, hkeys _ hchild, htwins.keyName hchild]
  refine ⟨hsame, fun hne hnull e' he' howner => ?_⟩
  rw [htwins.owner] at howner
  rw [htwins.label]
  exact hmoved hne hnull e' ((htwins.hasEdge e').1 he') howner

/-- What is mirrored and can be read is grounded. -/
theorem Follows.isGrounded (hf : Follows c db f keys) (hr : Rooted f root) :
    Grounded c.dialect db f := by
  have hkeys {n : NodeId} (hn : f.HasNode n) : f.keyAt db n = keys n :=
    hf.toMirrors.keyAt_eq hr (hf.bound hr.hasRoot (hf.root hr.hasRoot hr.isRoot)).1.symm hn
  constructor
  · intro e he
    rw [hkeys (hf.hasEdgeOwner he), hkeys (hf.hasChild he)]
    exact hf.grounded he
  · intro n hn
    rw [hkeys hn]
    exact hf.writes hn

/-! ## Records alone -/

theorem KeyedRoot.of_lone (h : Lone root key f) : KeyedRoot root key f :=
  ⟨⟨h.hasRoot, h.isRoot, fun hn _ => h.only hn⟩, h.keyed⟩

/-- A record alone in its forest knows what is true if its columns hold nothing but what storage
holds, except for those in doubt. -/
theorem TrueTo.of_lone (h : Lone root key f)
    (hhonest : ∀ d, f.HasCell d → (f.cell d).isKey = false → ¬doubt (f.cell d).name →
      (f.cell d).stored = .null ∨ (f.cell d).stored =
        db.value ⟨(f.node root).table, f.keyName root, key⟩ (f.cell d).name)
    (hthere : ∀ name, doubt name → f.RowFound db f.keyValue root) : TrueTo db root doubt f := by
  have hstale (n : NodeId) : (f.node n).current = false := by
    by_contra hcurrent
    have hcurrent := Bool.not_eq_false _ ▸ hcurrent
    rw [h.only (hasNode_of_current hcurrent), h.stale] at hcurrent
    cases hcurrent
  refine TrueTo.of_honest h.toIntact (fun n hcurrent => ?_) (fun d _ hcurrent => ?_)
    (fun d hd hsure hk => ?_) (fun e he => absurd he (h.noEdge e))
    (fun e he => absurd he (h.noEdge e)) hthere
  · cases (hstale n).symm.trans hcurrent
  · cases (hstale _).symm.trans hcurrent
  · rw [truth, place, h.owner hd, h.keyed]
    exact hhonest d hd hk fun hdoubt => hsure ⟨h.owner hd, hdoubt⟩

/-! ## Reading -/

theorem KeyedRoot.learns (h : KeyedRoot root key f) (hf : WellFormed f)
    (hbound : f.isNew root = false) (hg : Learns f g) : KeyedRoot root key g :=
  ⟨h.toRooted.of_sameShape hg.steady.shape, (hg.keyValue hf h.hasRoot hbound).trans h.keyed⟩

/-- What is fetched is true. -/
theorem TrueTo.fetched (h : TrueTo db root doubt w.state) (hroot : w.state.HasNode root)
    (hv : Fetched c db still keys w v) (hseeded : LinksSeeded v.state keys) :
    TrueTo db root doubt v.state := by
  have hwf := h.toWellFormed
  have hm := hv.follows.toMirrors
  have hsteady := hv.learns.steady
  have hs := hsteady.shape
  have hbound (n : NodeId) (hn : (v.state.node n).current = true) : v.state.isNew n = false := by
    rcases hv.raised n hn with hcurrent | hbound
    · exact hsteady.isNew hwf (hasNode_of_current hcurrent) (h.bound hcurrent)
    · exact hbound
  have hkey {n : NodeId} (hn : v.state.HasNode n) (hb : v.state.isNew n = false) :
      v.state.keyValue n = keys n := (hm.bound hn hb).1
  refine TrueTo.of_honest hv.follows.toIntact hbound (fun d hd hcurrent hk hclean => ?_)
    (fun d hd hsure => ?_) (fun e he => ⟨fun hb => ?_, fun hcurrent hvalue => ?_⟩)
    (h.avoids.of_sameShape hs) fun name hdoubt => ?_
  · rw [hm.current hcurrent (hm.mem_owner hd) hk hclean]
    exact truth_congr (hkey (hm.hasOwner hd) (hbound _ hcurrent)).symm
  · have hd' := (hs.hasCell d).1 hd
    have ho := hwf.hasOwner hd'
    intro hk
    rw [hs.isKey] at hk
    rw [truth_of_sameShape hs]
    rcases hv.loaded hd' hk with hstored | ⟨hb, hstored⟩ <;> rw [hstored]
    · exact h.honest_of_keys hd' ((inDoubt_of_sameShape hs d).not.1 hsure)
        (fun hb => (hv.learns.keyValue hwf ho hb).symm) hk
    · exact Or.inr (truth_congr (hkey ((hs.hasNode _).2 ho) hb).symm)
  · have hlink := hm.linked he hb
    obtain ⟨hvalue, hnull⟩ := hm.bound (hm.hasChild he) hb
    rw [hvalue]
    exact ⟨hm.key_of_value he hlink, hnull⟩
  · have hlink := hm.key_of_value he hvalue
    exact hseeded e he (hbound _ hcurrent) hcurrent fun hnull => hvalue (hlink.trans hnull)
  · have hfound := h.there hdoubt
    rw [rowFound_of_sameShape hs, RowFound, hv.learns.keyValue hwf hroot
      (isNew_of_keyValue hwf h.unstored hroot hfound.1)]
    exact hfound

/-- What is read before a save is true. -/
theorem TrueTo.resolved (h : TrueTo db root doubt w.state) (hroot : w.state.HasNode root)
    (hf : Follows c db w.state keys) (hv : Fetched c db still keys w v) (hsame : SameNodes w v) :
    TrueTo db root doubt v.state := by
  have hsteady := hv.learns.steady
  refine h.fetched hroot hv fun e he howner hcurrent hkey => ?_
  have he := (hsteady.shape.hasEdge e).1 he
  rw [hsteady.shape.edge] at hcurrent hkey ⊢
  rw [hsame] at hcurrent
  have hbound := h.bound hcurrent
  exact hsteady.isNew h.toWellFormed (h.hasChild he)
    (h.linksSeeded hf.toMirrors e he hbound hcurrent hkey)

end Forest
end LinkedRows
