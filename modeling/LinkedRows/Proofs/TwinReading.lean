/-
# Twins that follow one database

If two twins follow the same database and their root has the same key, then all their records stand
for the same rows: the key of a child is what its link shall hold, which is the same in both
(`Twins.keys_eq`).  So columns that correspond shall hold the same, and reading them results in the
same, though one of the twins may fetch more than the other (`get_twins`).
-/

import LinkedRows.Proofs.Following
import LinkedRows.Proofs.Forest.Changes
import LinkedRows.Proofs.Forest.TwinPaths

namespace LinkedRows

open Forest

variable {σ : Type} {c : Connector σ} {db : Database} {still : σ → Prop} {f g : Forest}
  {keys keys' : NodeId → Value} {root : NodeId}

namespace Forest

/-! ## The same keys -/

theorem Follows.congr_keys (hf : Follows c db f keys)
    (hkeys : ∀ n, f.HasNode n → keys' n = keys n) : Follows c db f keys' := by
  have hwf := hf.toWellFormed
  have hx := Extends.refl f
  have hhonest {d : CellId} (hd : f.HasCell d) (h : f.Honest db keys d) : f.Honest db keys' d :=
    honest_of_extends hwf hx hkeys hd h
  exact
    { toIntact := hf.toIntact
      bound := fun {n} hn hbound => by
        rw [hkeys n hn]
        exact hf.bound hn hbound
      child := fun {e} he => by
        rw [hkeys _ (hf.hasChild he), effective_of_extends hwf hx hkeys (hf.hasLink he)]
        exact hf.child he
      link := fun he => hhonest (hf.hasLink he) (hf.link he)
      absent := fun {n d} hmem hrow => by
        rw [rowFound_of_extends hwf hx hkeys (hasNode_of_mem_cells hmem)] at hrow
        exact hhonest (hf.hasCell hmem) (hf.absent hmem hrow)
      current := fun {n d} hcurrent hmem hk hclean => by
        rw [truth_of_extends hwf hx hkeys (hf.hasCell hmem)]
        exact hf.current hcurrent hmem hk hclean
      linked := hf.linked
      grounded := fun {e} he howner => by
        rw [hkeys _ (hf.hasEdgeOwner he)] at howner
        rw [hkeys _ (hf.hasChild he)]
        exact hf.grounded he howner
      writes := fun {n} hn => by
        rw [hkeys n hn]
        exact hf.writes hn
      root := hf.root }

theorem LinksSeeded.congr_keys (h : LinksSeeded f keys) (hf : WellFormed f)
    (hkeys : ∀ n, f.HasNode n → keys' n = keys n) : LinksSeeded f keys' :=
  fun e he howner hcurrent hkey => h e he howner hcurrent (hkeys _ (hf.hasChild he) ▸ hkey)

/-- Columns that correspond shall hold the same, if their records stand for the same row. -/
theorem Twins.effective_eq (h : Twins f g) (hf : WellFormed f) (hg : WellFormed g) {d d' : CellId}
    (hd : SameColumn f g d d') (hkeys : keys' (f.cell d).owner = keys (f.cell d).owner) :
    g.effective db keys' d' = f.effective db keys d := by
  have ho := hf.hasOwner hd.left
  have htruth : g.truth db keys' d' = f.truth db keys d := by
    rw [truth, truth, place, place, hd.owner, hd.name, h.table, h.keyName ho, hkeys]
  have hkey := h.isKey hf hg hd
  cases hk : (f.cell d).isKey with
  | true => rw [effective, effective, if_pos hk, if_pos (hkey.trans hk), htruth]
  | false =>
    rw [effective_of_column hk, effective_of_column (hkey.trans hk), htruth,
      h.assigned hf hg hd hk]

/-- The records of twins stand for the same rows if their root does. -/
theorem Twins.keys_eq (h : Twins f g) (hf : Mirrors db f keys) (hg : Mirrors db g keys')
    (hr : Rooted f root) (hroot : keys' root = keys root) {n : NodeId} (hn : f.HasNode n) :
    keys' n = keys n := by
  have hwf := hf.toWellFormed
  have hwg := hg.toWellFormed
  induction n using hwf.parent_induction with
  | root n hp => rw [hr.unique hn hp, hroot]
  | child n e hp ih =>
    obtain ⟨he, rfl⟩ := hwf.edge_of_parent hp
    have howner := ih (hwf.hasEdgeOwner he)
    rw [hf.child he, ← h.child e, hg.child ((h.hasEdge e).2 he)]
    refine h.effective_eq hwf hwg (h.link hwf hwg he) ?_
    rwa [hwf.owner_link he]

/-- What is known of the rows that the records of a forest stand for is true, and the root stands
for the row with a key. -/
def Truthful (c : Connector σ) (db : Database) (root : NodeId) (key : Value) (f : Forest) : Prop :=
  ∃ keys : NodeId → Value, keys root = key ∧ Follows c db f keys ∧ LinksSeeded f keys

theorem Twins.truthful (h : Twins f g) (hr : Rooted f root) {key : Value}
    (hf : Truthful c db root key f) (hg : Truthful c db root key g) :
    ∃ keys, Follows c db f keys ∧ LinksSeeded f keys ∧ Follows c db g keys ∧
      LinksSeeded g keys := by
  obtain ⟨keys, hroot, hfollows, hseeded⟩ := hf
  obtain ⟨keys', hroot', hfollows', hseeded'⟩ := hg
  have hkeys (n : NodeId) (hn : g.HasNode n) : keys n = keys' n :=
    (h.keys_eq hfollows.toMirrors hfollows'.toMirrors hr (hroot'.trans hroot.symm)
      ((h.hasNode n).1 hn)).symm
  exact ⟨keys, hfollows, hseeded, hfollows'.congr_keys hkeys,
    hseeded'.congr_keys hfollows'.toWellFormed hkeys⟩

end Forest

/-- Reading columns that correspond results in the same value. -/
theorem get_twins (hserves : Serves c db still) {r : Record} {path : String}
    {w w' v v' : World σ Forest} {d d' : CellId} (hstill : still v.store) (hstill' : still v'.store)
    (hresolve : (r.resolve path).perform w = (.ok d, v))
    (hresolve' : (r.resolve path).perform w' = (.ok d', v')) (htwins : Twins v.state v'.state)
    (hsame : SameColumn v.state v'.state d d') (hf : Follows c db v.state keys)
    (hseeded : LinksSeeded v.state keys) (hf' : Follows c db v'.state keys)
    (hseeded' : LinksSeeded v'.state keys) :
    ∃ x u u', (r.get c path).perform w = (.ok x, u) ∧ (r.get c path).perform w' = (.ok x, u') ∧
      Fetched c db still keys v u ∧ LinksSeeded u.state keys ∧ Fetched c db still keys v' u' ∧
        LinksSeeded u'.state keys := by
  obtain ⟨u, hget, hfetched, hlinks⟩ :=
    get_of_resolved hserves hstill hresolve hf hseeded hsame.left
  obtain ⟨u', hget', hfetched', hlinks'⟩ :=
    get_of_resolved hserves hstill' hresolve' hf' hseeded' hsame.right
  rw [htwins.effective_eq hf.toWellFormed hf'.toWellFormed hsame rfl] at hget'
  exact ⟨_, u, u', hget, hget', hfetched, hlinks, hfetched', hlinks'⟩

end LinkedRows
