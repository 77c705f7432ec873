/-
# Resolving links before a save

Before a save writes anything, it reads the links that matter: in a forest that follows the
database, every record that has changes and stands for a row has learned its key then
(`resolve_bound`).  So no record is inserted whose row is there already.

What carries the induction over the joins is that the links of the record they start at are known
as far as they lead to rows with changes (`LinksRead`).
-/

import LinkedRows.Proofs.Following
import LinkedRows.Proofs.Forest.Changes

namespace LinkedRows

open Forest

variable {σ : Type} {c : Connector σ} {db : Database} {still : σ → Prop} {f : Forest}
  {w v : World σ Forest} {keys : NodeId → Value} {n : NodeId}

/-- The links of a record that lead to rows with changes are known. -/
def Forest.LinksRead (f : Forest) (keys : NodeId → Value) (n : NodeId) : Prop :=
  ∀ e ∈ (f.node n).edges, f.hasChanges (f.edge e).child = true →
    keys (f.edge e).child ≠ .null → (f.cell (f.edge e).link).value ≠ .null

/-- Fetching does not forget the value of an honest column. -/
theorem Fetched.value_ne_null (h : Fetched c db still keys w v) (hf : Follows c db w.state keys)
    {d : CellId} (hd : w.state.HasCell d) (hhonest : w.state.Honest db keys d)
    (hv : (w.state.cell d).value ≠ .null) : (v.state.cell d).value ≠ .null := by
  have hwf := hf.toWellFormed
  have hs := h.learns.steady
  cases hk : (w.state.cell d).isKey with
  | true =>
    have ho := hwf.hasOwner hd
    have hkey := (hwf.isKey_iff hd).1 hk
    have hbound := isNew_of_keyValue hwf hf.unstored ho (by rwa [keyValue, hkey])
    obtain ⟨hvalue, hnull⟩ :=
      h.follows.bound ((hs.shape.hasNode _).2 ho) (hs.isNew hwf ho hbound)
    rw [keyValue, hs.shape.key, hkey] at hvalue
    rwa [hvalue]
  | false =>
    rw [Cell.value] at hv ⊢
    rw [h.learns.assigned hwf hk]
    cases ha : (w.state.cell d).assigned with
    | some x => rwa [ha] at hv
    | none =>
      rw [ha] at hv
      have htruth := (hhonest hk).resolve_left hv
      rcases h.loaded hd hk with hstored | ⟨-, hstored⟩
      · rwa [hstored]
      · rw [hstored, ← htruth]
        exact hv

theorem Forest.LinksRead.fetched (hread : LinksRead w.state keys n)
    (hf : Follows c db w.state keys) (h : Fetched c db still keys w v) :
    LinksRead v.state keys n := by
  have hwf := hf.toWellFormed
  have hs := h.learns.steady.shape
  intro e he hchanges hkey
  rw [hs.edges] at he
  have hedge := hwf.hasEdge he
  rw [hs.edge] at hchanges hkey ⊢
  rw [h.learns.hasChanges hwf (hwf.hasChild hedge)] at hchanges
  exact h.value_ne_null hf (hwf.hasLink hedge) (hf.link hedge) (hread e he hchanges hkey)

/-- A link of a record with a row that is not known, though it leads to a row with changes, is among
those that are read. -/
theorem mem_unreadLinks_of_null (hf : Follows c db f keys) {e : EdgeId}
    (he : e ∈ (f.node n).edges) (hbound : f.isNew n = false)
    (hchanges : f.hasChanges (f.edge e).child = true) (hkey : keys (f.edge e).child ≠ .null)
    (hvalue : (f.cell (f.edge e).link).value = .null) :
    (f.edge e).link ∈ f.unreadLinks n ∧ (f.cell (f.edge e).link).isKey = false ∧
      (f.cell (f.edge e).link).assigned = none := by
  have hwf := hf.toWellFormed
  have hedge := hwf.hasEdge he
  have hlink := hwf.hasLink hedge
  have howner := hwf.owner_of_edge he
  have hnew : f.isNew (f.edge e).child = true := by
    by_contra h
    exact hf.linked hedge (Bool.not_eq_true _ ▸ h) hvalue
  have hk : (f.cell (f.edge e).link).isKey = false := by
    by_contra hk
    rw [Bool.not_eq_false, hwf.isKey_iff hlink, hwf.owner_link hedge, howner] at hk
    obtain ⟨hkeyValue, hnull⟩ := hf.bound (hasNode_of_mem_edges he) hbound
    rw [keyValue, hk, hvalue] at hkeyValue
    exact hnull hkeyValue.symm
  have hclean : (f.cell (f.edge e).link).assigned = none := by
    rw [Option.eq_none_iff_forall_ne_some]
    intro x hx
    rw [Cell.value, hx] at hvalue
    rw [hf.child hedge, effective_of_column hk, hx] at hkey
    exact hkey hvalue
  have hstale : f.isStale n = true := by
    by_contra h
    have hcurrent : (f.node n).current = true := by
      rw [isStale, isBound, hbound, hf.undeleted] at h
      simpa using h
    rw [← howner] at hbound hcurrent
    exact hkey ((hf.toMirrors.key_of_current hedge hbound hcurrent).symm.trans hvalue)
  refine ⟨mem_unreadLinks_iff.2
    ⟨hstale, e, he, rfl, hnew, hf.undeleted _, ?_, hchanges⟩, hk, hclean⟩
  rw [Cell.isDirty, hclean]
  rfl

/-- Reading the links of a record that has learned its key, if it has changes and stands for a
row. -/
theorem readLinks_fetched (hserves : Serves c db still) (hstill : still w.store)
    (hf : Follows c db w.state keys) (hn : w.state.HasNode n)
    (hbound : w.state.hasChanges n = true → keys n ≠ .null → w.state.isNew n = false) :
    ∃ v, (readLinks c n).perform w = (.ok (), v) ∧ Fetched c db still keys w v ∧
      LinksRead v.state keys n := by
  have hwf := hf.toWellFormed
  cases hnew : w.state.isNew n with
  | true =>
    refine ⟨w, readLinks_of_isNew hnew, Fetched.refl hstill hf, fun e he hchanges hkey => ?_⟩
    have hedge := hwf.hasEdge he
    have howner := hwf.owner_of_edge he
    have hchangesOwner := hasChanges_owner hf.toIntact hedge hchanges
    rw [howner] at hchangesOwner
    have hkeyOwner : keys n ≠ .null := fun h => hkey (hf.grounded hedge (by rwa [howner]))
    exact absurd (hnew.symm.trans (hbound hchangesOwner hkeyOwner)) (by decide)
  | false =>
    obtain ⟨v, hread, hfetched, hstored⟩ := readCells_fetched hserves hstill hf hn hnew
      fun d hd => unreadLinks_spec hwf hd
    have hs := hfetched.learns.steady.shape
    refine ⟨v, ?_, hfetched, fun e he hchanges hkey => ?_⟩
    · rw [readLinks, Action.perform_state_bind, hread]
    rw [hs.edges] at he
    have hedge := hwf.hasEdge he
    rw [hs.edge] at hchanges hkey ⊢
    rw [hfetched.learns.hasChanges hwf (hwf.hasChild hedge)] at hchanges
    by_cases hvalue : (w.state.cell (w.state.edge e).link).value = .null
    · obtain ⟨hmem, hk, hclean⟩ := mem_unreadLinks_of_null hf he hnew hchanges hkey hvalue
      rw [hf.child hedge, effective_of_column hk, hclean] at hkey
      rw [Cell.value, hfetched.learns.assigned hwf hk, hclean, Option.getD_none, hstored _ hmem]
      exact hkey
    · exact hfetched.value_ne_null hf (hwf.hasLink hedge) (hf.link hedge) hvalue

/-- Resolving what is behind the joins of a record whose links are known. -/
theorem resolveBelow_fetched (hserves : Serves c db still) (b : Branches) (hstill : still w.store)
    (hf : Follows c db w.state keys) (hb : w.state.Hangs n b)
    (hread : LinksRead w.state keys n) :
    ∃ v, (resolveBelow c b).perform w = (.ok (), v) ∧ Fetched c db still keys w v ∧
      ∀ m ∈ b.preOrder, w.state.hasChanges m = true → keys m ≠ .null →
        v.state.isNew m = false := by
  induction b generalizing n w with
  | nil => exact ⟨w, rfl, Fetched.refl hstill hf, fun m hm => absurd hm List.not_mem_nil⟩
  | cons e child below next ihBelow ihNext =>
    obtain ⟨he, rfl, -, hbelow, hnext⟩ := hb
    have hwf := hf.toWellFormed
    have hedge := hwf.hasEdge he
    have hhas : w.state.HasNode (w.state.childOf e) := hwf.hasChild hedge
    have hseed := seedChild_fetched hstill hf hedge
    have hs₁ := hseed.learns.steady
    have hwf₁ := hseed.follows.toWellFormed
    have hbound : w.state.hasChanges (w.state.childOf e) = true →
        keys (w.state.childOf e) ≠ .null →
          (w.state.seedChild e).isNew (w.state.childOf e) = false := fun hchanges hkey =>
      isNew_seedChild hwf hedge (hread e he hchanges hkey)
    obtain ⟨u, hreadRun, hlinks, hreadChild⟩ := readLinks_fetched
      (w := w.withState (w.state.seedChild e)) hserves hseed.still hseed.follows
      ((hs₁.shape.hasNode _).2 hhas) fun hchanges =>
        hbound ((hseed.learns.hasChanges hwf hhas).symm.trans hchanges)
    have h₂ := hseed.trans hlinks
    have hs₂ := h₂.learns.steady
    obtain ⟨t, hbelowRun, hdeeper, hbelowBound⟩ := ihBelow h₂.still h₂.follows
      (hs₂.shape.hangs hbelow) hreadChild
    have h₃ := h₂.trans hdeeper
    have hs₃ := h₃.learns.steady
    obtain ⟨v, hnextRun, hlater, hnextBound⟩ := ihNext h₃.still h₃.follows
      (hs₃.shape.hangs hnext) (hread.fetched hf h₃)
    refine ⟨v, ?_, h₃.trans hlater, fun m hm hchanges hkey => ?_⟩
    · rw [perform_resolveBelow_kept (hf.undeleted _), Action.perform_bind_ok hreadRun,
        Action.perform_bind_ok hbelowRun, hnextRun]
    · have hwf₃ := h₃.follows.toWellFormed
      rw [Branches.mem_preOrder_cons] at hm
      rcases hm with rfl | hm | hm
      · have hkept := (hlinks.trans hdeeper).learns.steady.isNew hwf₁ ((hs₁.shape.hasNode _).2 hhas)
          (hbound hchanges hkey)
        exact hlater.learns.steady.isNew hwf₃ ((hs₃.shape.hasNode _).2 hhas) hkept
      · have hmHas := (lt_of_mem_preOrder hwf hbelow hm).2
        have hchanges := (h₂.learns.hasChanges hwf hmHas).trans hchanges
        exact hlater.learns.steady.isNew hwf₃ ((hs₃.shape.hasNode _).2 hmHas)
          (hbelowBound m hm hchanges hkey)
      · have hmHas := (lt_of_mem_preOrder hwf hnext hm).2
        exact hnextBound m hm ((h₃.learns.hasChanges hwf hmHas).trans hchanges) hkey

/-- Before a record with a row is saved, every record at or below it that has changes and stands for
a row learns its key. -/
theorem resolve_bound (hserves : Serves c db still) (hstill : still w.store)
    (hf : Follows c db w.state keys) (hn : w.state.HasNode n) (hbound : w.state.isNew n = false) :
    ∃ u v, (readLinks c n).perform w = (.ok (), u) ∧
      (resolveBelow c (w.state.below n)).perform u = (.ok (), v) ∧ Fetched c db still keys w v ∧
        SameNodes w v ∧ ∀ m, m = n ∨ m ∈ (w.state.below n).preOrder → w.state.hasChanges m = true →
          keys m ≠ .null → v.state.isNew m = false := by
  have hwf := hf.toWellFormed
  obtain ⟨u, hreadRun, hlinks, hread⟩ := readLinks_fetched hserves hstill hf hn fun _ _ => hbound
  have hs := hlinks.learns.steady
  obtain ⟨v, hresolveRun, hdeeper, hbelow⟩ := resolveBelow_fetched hserves (w.state.below n)
    hlinks.still hlinks.follows (hs.shape.hangs (hangs_below hwf n)) hread
  have hsame := ((sameNodes_readLinks c n w).of_perform hreadRun).trans
    ((sameNodes_resolveBelow c _ u).of_perform hresolveRun)
  refine ⟨u, v, hreadRun, hresolveRun, hlinks.trans hdeeper, hsame, fun m hm hchanges hkey => ?_⟩
  rcases hm with rfl | hm
  · exact (hlinks.trans hdeeper).learns.steady.isNew hwf hn hbound
  · have hmHas := (lt_of_mem_preOrder hwf (hangs_below hwf n) hm).2
    exact hbelow m hm ((hlinks.learns.hasChanges hwf hmHas).trans hchanges) hkey

end LinkedRows
