/-
# Looking up and registering agree

Looking a path up walks the columns and joins that are there; registering it walks the same way and
adds what is missing.  A path with an open link is never found, nor one that ends in the wrong kind
of thing (`linksFit_of_lookupColumn?`), and no other path is refused by a registration, which finds
what is there (`Growth.Finds`).  So a path is found exactly if registering it changes nothing, and
once registered it is found (`lookup_agrees`).
-/

import LinkedRows.Proofs.Operations
import LinkedRows.Proofs.RejectedPaths

namespace LinkedRows

theorem Growth.perform_bind_eq_ok {α β : Type} {m : Growth α} {k : α → Growth β} {f h : Forest}
    {b : β} : (m >>= k).perform f = (.ok b, h) ↔
      ∃ a g, m.perform f = (.ok a, g) ∧ (k a).perform g = (.ok b, h) := by
  rcases hm : m.perform f with ⟨e | a, g⟩
  · simp [perform_bind_error hm]
  · simp [perform_bind_ok hm]

namespace Forest

variable {f g : Forest} {n : NodeId} {p : Path}

/-! ## Which paths are found -/

/-- A path that is found as one to a column fits and ends in one. -/
theorem linksFit_of_lookupColumn? {c : CellId} (h : f.lookupColumn? n p = some c) :
    p.LinksFit ∧ p.endsInColumn = true := by
  induction p generalizing n c with
  | column name => exact ⟨trivial, rfl⟩
  | table name key link _ => cases h
  | join name key link inner ihLink ihInner =>
    obtain ⟨_, hlink, h⟩ := Option.bind_eq_some_iff.1 h
    obtain ⟨_, _, h⟩ := Option.bind_eq_some_iff.1 h
    obtain ⟨hfits, hend⟩ := ihLink hlink
    obtain ⟨hinner, hlast⟩ := ihInner h
    exact ⟨⟨hfits, hend, hinner⟩, hlast⟩

/-- A path that is found as one to a table fits and ends at one. -/
theorem linksFit_of_lookupTable? {child : NodeId} (h : f.lookupTable? n p = some child) :
    p.LinksFit ∧ p.endsInColumn = false := by
  induction p generalizing n child with
  | column name => cases h
  | table name key link _ =>
    obtain ⟨_, hlink, _⟩ := Option.bind_eq_some_iff.1 h
    exact ⟨linksFit_of_lookupColumn? hlink, rfl⟩
  | join name key link inner _ ih =>
    obtain ⟨_, hlink, h⟩ := Option.bind_eq_some_iff.1 h
    obtain ⟨_, _, h⟩ := Option.bind_eq_some_iff.1 h
    obtain ⟨hfits, hend⟩ := linksFit_of_lookupColumn? hlink
    obtain ⟨hinner, hlast⟩ := ih h
    exact ⟨⟨hfits, hend, hinner⟩, hlast⟩

/-! ## Found paths stay found -/

/-- What the paths of one forest lead to is what they lead to in the other, from every record. -/
structure KeepsPaths (f g : Forest) : Prop where
  column : ∀ {n p c}, f.lookupColumn? n p = some c → g.lookupColumn? n p = some c
  table : ∀ {n p child}, f.lookupTable? n p = some child → g.lookupTable? n p = some child

theorem lookupTable?_of_extends (hf : WellFormed f) (hg : WellFormed g) (hx : Extends f g)
    {child : NodeId} (h : f.lookupTable? n p = some child) : g.lookupTable? n p = some child := by
  have hjoin {link : Path} {linkCell : CellId} {name key : String} {n child : NodeId}
      (hlink : f.lookupColumn? n link = some linkCell)
      (h : f.joined? linkCell name key = some child) : g.joined? linkCell name key = some child :=
    joined?_of_extends hf hg hx (hasCell_of_lookupColumn? hf hlink) h
  induction p generalizing n child with
  | column name => cases h
  | table name key link _ =>
    simp only [lookupTable?, Option.bind_eq_bind, Option.bind_eq_some_iff] at h ⊢
    obtain ⟨linkCell, hlink, h⟩ := h
    exact ⟨linkCell, lookupColumn?_of_extends hf hg hx hlink, hjoin hlink h⟩
  | join name key link inner _ ih =>
    simp only [lookupTable?, Option.bind_eq_bind, Option.bind_eq_some_iff] at h ⊢
    obtain ⟨linkCell, hlink, next, hnext, h⟩ := h
    exact ⟨linkCell, lookupColumn?_of_extends hf hg hx hlink, next, hjoin hlink hnext, ih h⟩

theorem Grows.keepsPaths (hf : WellFormed f) (hg : Grows f g) : KeepsPaths f g where
  column h := lookupColumn?_of_extends hf (hf.grows hg) (hg.extends hf) h
  table h := lookupTable?_of_extends hf (hf.grows hg) (hg.extends hf) h

/-! ## Registered paths are found -/

/-- A table found behind another is found from there. -/
theorem lookupTable?_join {name key : String} {link inner : Path} :
    f.lookupTable? n (.join name key link inner) =
      (f.lookupTable? n (.table name key link)).bind fun child => f.lookupTable? child inner :=
  (Option.bind_assoc ..).symm

/-- The record that registering one more join gives is there and found. -/
theorem lookupTable?_of_growJoin (hf : WellFormed f) (hn : f.HasNode n) {name key : String}
    {link : Path} {child : NodeId}
    (h : ((Path.table name key link).growTable n).perform f = (.ok child, g)) :
    WellFormed g ∧ g.HasNode child ∧ g.lookupTable? n (.table name key link) = some child := by
  obtain ⟨linkCell, u, hlink, h⟩ := Growth.perform_bind_eq_ok.1 h
  obtain ⟨hgrows, hfound⟩ := growColumn_spec (p := link) hf hn
  rw [hlink] at hgrows hfound
  have hu := hf.grows hgrows
  have hl := hasCell_of_lookupColumn? hu (hfound linkCell rfl)
  have hjoin := grows_ensureJoin hl name key
  have hjoined := ensureJoin_spec hu hl name key
  obtain ⟨hchild, rfl⟩ := Prod.mk.inj h
  obtain rfl := Except.ok.inj hchild
  exact ⟨hu.grows hjoin, hasNode_of_joined? (hu.grows hjoin) hjoined, Option.bind_eq_some_iff.2
    ⟨linkCell, (hjoin.keepsPaths hu).column (hfound linkCell rfl), hjoined⟩⟩

/-- The record that registering a path gives is the one that looking the path up finds. -/
theorem lookupTable?_of_growTable (hf : WellFormed f) (hn : f.HasNode n) {child : NodeId}
    (h : (p.growTable n).perform f = (.ok child, g)) : g.lookupTable? n p = some child := by
  induction p generalizing n f child with
  | column name => cases h
  | table name key link _ => exact (lookupTable?_of_growJoin hf hn h).2.2
  | join name key link inner _ ih =>
    have hbind : (Path.join name key link inner).growTable n =
        (Path.table name key link).growTable n >>= inner.growTable := by
      simp only [Path.growTable, bind_assoc]
    rw [hbind] at h
    obtain ⟨next, u, hfirst, hrest⟩ := Growth.perform_bind_eq_ok.1 h
    obtain ⟨hu, hnext, hfound⟩ := lookupTable?_of_growJoin hf hn hfirst
    have hgrows := grows_growTable (p := inner) hu hnext
    rw [hrest] at hgrows
    rw [lookupTable?_join, (hgrows.keepsPaths hu).table hfound, Option.bind_some]
    exact ih hu hnext hrest

/-! ## Agreement -/

/-- Looking something up and registering it agree in a forest. -/
structure Agree {α : Type} (found : Forest → Option α) (register : Growth α) (f : Forest) :
    Prop where
  /-- What is found is what registers without any change. -/
  found_iff : ∀ a, found f = some a ↔ register.perform f = (.ok a, f)
  /-- What registers is found afterwards. -/
  found_after : ∀ {a g}, register.perform f = (.ok a, g) → found g = some a
  /-- To register it again changes nothing. -/
  again : ∀ {a g}, register.perform f = (.ok a, g) → register.perform g = (.ok a, g)
  /-- All that was found before is still found. -/
  kept : KeepsPaths f (register.perform f).2

/-- What is never found agrees with a registration that is refused. -/
theorem agree_of_refused {α : Type} {found : Forest → Option α} {register : Growth α}
    (hfound : found f = none) (hrefused : ∀ a g, register.perform f ≠ (.ok a, g))
    (hkept : KeepsPaths f (register.perform f).2) : Agree found register f where
  found_iff a := iff_of_false (by simp [hfound]) (hrefused a f)
  found_after h := absurd h (hrefused _ _)
  again h := absurd h (hrefused _ _)
  kept := hkept

/-- A registration that finds what is there agrees with looking it up. -/
theorem agree_of_finds {α : Type} {found : Forest → Option α} {register : Growth α}
    (hfinds : Growth.Finds register found)
    (hafter : ∀ {a g}, register.perform f = (.ok a, g) → found g = some a)
    (hkept : KeepsPaths f (register.perform f).2) : Agree found register f := by
  have hfound_iff (g : Forest) (a : α) : found g = some a ↔ register.perform g = (.ok a, g) := by
    obtain ⟨b, u, hrun, ⟨hb, rfl⟩ | ⟨hb, hlt⟩⟩ := hfinds g
    · simp [hb, hrun]
    · refine iff_of_false (by simp [hb]) fun h => ?_
      obtain ⟨-, rfl⟩ := Prod.mk.inj (hrun.symm.trans h)
      exact Nat.lt_irrefl _ hlt
  exact ⟨hfound_iff f, hafter, fun h => (hfound_iff _ _).1 (hafter h), hkept⟩

/-- **Looking up and registering agree**, for every path, from every record of every forest that
operations lead to. -/
theorem lookup_agrees (hf : Operated f) (hn : f.HasNode n) (p : Path) :
    Agree (fun f => f.lookupColumn? n p) (registerColumn n p) f ∧
      Agree (fun f => f.lookupTable? n p) (registerTable n p) f := by
  have hwf := hf.wellFormed
  obtain ⟨hgrows, hfound⟩ := registerColumn_spec hwf p hn
  have hcolumnKept := hgrows.keepsPaths hwf
  have htableKept := (grows_registerTable hwf p hn).keepsPaths hwf
  have hafter {c : CellId} {g : Forest} (h : (registerColumn n p).perform f = (.ok c, g)) :
      g.lookupColumn? n p = some c := by
    rw [h] at hfound
    exact hfound c rfl
  constructor
  · by_cases hfits : p.LinksFit ∧ p.endsInColumn = true
    · have hregister : registerColumn n p = p.growColumn n := by rw [registerColumn, if_pos hfits.2]
      refine agree_of_finds ?_ hafter hcolumnKept
      rw [hregister]
      exact Path.finds_growColumn hfits.1 hfits.2 n
    · refine agree_of_refused (Option.eq_none_iff_forall_ne_some.2 fun c hc => ?_)
        (fun c g h => ?_) hcolumnKept
      · exact hfits (linksFit_of_lookupColumn? hc)
      · exact hfits (linksFit_of_lookupColumn? (hafter h))
  · by_cases hfits : p.LinksFit ∧ p.endsInColumn = false
    · have hregister := registerTable_of_end (n := n) hfits.2
      rw [hregister] at htableKept ⊢
      exact agree_of_finds (Path.finds_growTable hfits.1 hfits.2 n)
        (fun h => lookupTable?_of_growTable hwf hn h) htableKept
    · refine agree_of_refused (Option.eq_none_iff_forall_ne_some.2 fun child hc => ?_)
        (fun child g h => ?_) htableKept
      · exact hfits (linksFit_of_lookupTable? hc)
      · unfold registerTable at h
        split at h
        · cases h
        · exact hfits (linksFit_of_lookupTable? (lookupTable?_of_growTable hwf hn h))

/-- A record with a column of each record of a chain of two joins. -/
def chained : Forest :=
  ((registerColumn ⟨0⟩ (.join "table1" "id" (.column "table1_id")
    (.join "table2" "id" (.column "table2_id") (.column "title")))).perform
      (Forest.empty.addRoot "table0" "id" (.int 1)).2).2

theorem operated_chained : Operated chained :=
  (Operated.empty.addRoot "table0" "id" (.int 1)).registerColumn _ (by decide)

/-- The way through both joins is the link of one more: it is found at once, and the join is added
when it is registered. -/
theorem lookup_agrees_nested :
    let link : Path := .join "table1" "id" (.column "table1_id") (.column "table2_id")
    let p : Path := .join "table2" "id" link (.column "state")
    ∃ d g, chained.lookupColumn? ⟨0⟩ p = none ∧
      (registerColumn ⟨0⟩ p).perform chained = (.ok d, g) ∧ g ≠ chained ∧
      g.lookupColumn? ⟨0⟩ p = some d ∧
      g.lookupTable? ⟨0⟩ (.table "table2" "id" link) =
        chained.lookupTable? ⟨0⟩ (.table "table2" "id" link) := by
  intro link p
  obtain ⟨hcolumn, -⟩ := lookup_agrees operated_chained (n := ⟨0⟩) (by decide) p
  have hrun : ∃ d g, (registerColumn ⟨0⟩ p).perform chained = (.ok d, g) ∧ g ≠ chained :=
    ⟨⟨6⟩, _, rfl, by decide⟩
  obtain ⟨d, g, hrun, hne⟩ := hrun
  have hkept := hcolumn.kept
  rw [hrun] at hkept
  have hbefore : chained.lookupTable? ⟨0⟩ (.table "table2" "id" link) = some ⟨2⟩ := by decide
  exact ⟨d, g, by decide, hrun, hne, hcolumn.found_after hrun, by rw [hbefore, hkept.table hbefore]⟩

end Forest
end LinkedRows
