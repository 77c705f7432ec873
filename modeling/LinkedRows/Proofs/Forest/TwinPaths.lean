/-
# Registering paths in twins

Registering a path in both of two twins keeps them twins, and ends in both with the same fault or
with columns that correspond (`Twins.growColumn`).  A path that is registered is registered again
without a change (`growColumn_of_lookupColumn?`), so finding a column or else registering it is the
same as registering it.
-/

import LinkedRows.Proofs.Forest.Twins

namespace LinkedRows

/-- Both results are the same fault, or both are values, in some relation. -/
inductive SameOutcome {α β : Type} (R : α → β → Prop) : Except Fault α → Except Fault β → Prop
  | error (e : Fault) : SameOutcome R (.error e) (.error e)
  | ok {a : α} {b : β} : R a b → SameOutcome R (.ok a) (.ok b)

namespace Forest

variable {f g : Forest} {c d : CellId}

namespace Twins

theorem findEdge? (h : Twins f g) (n : NodeId) (label : Label) :
    g.findEdge? n label = f.findEdge? n label := by
  simp only [Forest.findEdge?, h.edges, h.label]

/-- A column may be registered in one of the twins. -/
theorem ensureCell_right (h : Twins f g) (hg : WellFormed g) {n : NodeId} (hn : g.HasNode n)
    (name : String) : Twins f (g.ensureCell n name).2 := by
  cases hc : g.findCell? n name with
  | some c => rwa [ensureCell_of_some hc]
  | none =>
    rw [ensureCell_of_none hc]
    exact h.withCell hg hn hc

theorem ensureCell (h : Twins f g) (hf : WellFormed f) (hg : WellFormed g) {n : NodeId}
    (hn : f.HasNode n) (name : String) :
    Twins (f.ensureCell n name).2 (g.ensureCell n name).2 ∧
      SameColumn (f.ensureCell n name).2 (g.ensureCell n name).2 (f.ensureCell n name).1
        (g.ensureCell n name).1 := by
  have hn' := (h.hasNode n).2 hn
  refine ⟨((h.ensureCell_right hg hn' name).symm.ensureCell_right hf hn name).symm, ?_⟩
  exact SameColumn.of_findCell? (hf.grows (grows_ensureCell hn name))
    (hg.grows (grows_ensureCell hn' name)) (ensureCell_spec hf hn name)
    (ensureCell_spec hg hn' name)

theorem ensureJoin (h : Twins f g) (hf : WellFormed f) (hg : WellFormed g)
    (hcd : SameColumn f g c d) (table key : String) :
    Twins (f.ensureJoin c table key).2 (g.ensureJoin d table key).2 ∧
      (g.ensureJoin d table key).1 = (f.ensureJoin c table key).1 := by
  have hfind : g.findEdge? (g.cell d).owner ⟨table, key, (g.cell d).name⟩ =
      f.findEdge? (f.cell c).owner ⟨table, key, (f.cell c).name⟩ := by
    rw [hcd.owner, hcd.name, h.findEdge?]
  cases he : f.findEdge? (f.cell c).owner ⟨table, key, (f.cell c).name⟩ with
  | some e =>
    rw [ensureJoin_of_some he, ensureJoin_of_some (hfind.trans he)]
    exact ⟨h, h.child e⟩
  | none =>
    rw [ensureJoin_of_none he, ensureJoin_of_none (hfind.trans he)]
    exact ⟨h.withJoin hf hg hcd he (hfind.trans he), congrArg NodeId.mk h.length_nodes⟩

/-- Registering the same column in twins ends alike. -/
theorem growColumn (h : Twins f g) (hf : WellFormed f) (hg : WellFormed g) {p : Path}
    {n : NodeId} (hn : f.HasNode n) :
    Twins ((p.growColumn n).perform f).2 ((p.growColumn n).perform g).2 ∧
      SameOutcome (SameColumn ((p.growColumn n).perform f).2 ((p.growColumn n).perform g).2)
        ((p.growColumn n).perform f).1 ((p.growColumn n).perform g).1 := by
  induction p generalizing f g n with
  | column name =>
    obtain ⟨htwins, hsame⟩ := h.ensureCell hf hg hn name
    exact ⟨htwins, SameOutcome.ok hsame⟩
  | table name key link ih =>
    obtain ⟨htwins, hsame⟩ := ih h hf hg hn
    have hgrows := (growColumn_spec (p := link) hf hn).1
    have hgrows' := (growColumn_spec (p := link) hg ((h.hasNode n).2 hn)).1
    rcases hr : (link.growColumn n).perform f with ⟨x, f'⟩
    rcases hr' : (link.growColumn n).perform g with ⟨y, g'⟩
    rw [hr, hr'] at htwins hsame
    rw [hr] at hgrows
    rw [hr'] at hgrows'
    cases hsame with
    | error e =>
      rw [Path.growColumn, Growth.perform_bind_error hr, Growth.perform_bind_error hr']
      exact ⟨htwins, SameOutcome.error e⟩
    | ok hcd =>
      rw [Path.growColumn, Growth.perform_bind_ok hr, Growth.perform_bind_ok hr']
      exact ⟨(htwins.ensureJoin (hf.grows hgrows) (hg.grows hgrows') hcd name key).1,
        SameOutcome.error _⟩
  | join name key link inner ihLink ihInner =>
    obtain ⟨htwins, hsame⟩ := ihLink h hf hg hn
    have hgrows := (growColumn_spec (p := link) hf hn).1
    have hgrows' := (growColumn_spec (p := link) hg ((h.hasNode n).2 hn)).1
    rcases hr : (link.growColumn n).perform f with ⟨x, f'⟩
    rcases hr' : (link.growColumn n).perform g with ⟨y, g'⟩
    rw [hr, hr'] at htwins hsame
    rw [hr] at hgrows
    rw [hr'] at hgrows'
    cases hsame with
    | error e =>
      rw [Path.growColumn, Growth.perform_bind_error hr, Growth.perform_bind_error hr']
      exact ⟨htwins, SameOutcome.error e⟩
    | @ok c d hcd =>
      have hf' := hf.grows hgrows
      have hg' := hg.grows hgrows'
      obtain ⟨htwins, hchild⟩ := htwins.ensureJoin hf' hg' hcd name key
      have hfj := hf'.grows (grows_ensureJoin hcd.left name key)
      have hgj := hg'.grows (grows_ensureJoin hcd.right name key)
      have hhas := hasNode_of_joined? hfj (ensureJoin_spec hf' hcd.left name key)
      rw [Path.growColumn, Growth.perform_bind_ok hr, Growth.perform_bind_ok hr',
        Growth.perform_bind_ok (Growth.perform_ofForest _ f'),
        Growth.perform_bind_ok (Growth.perform_ofForest _ g'), hchild]
      exact ihInner htwins hfj hgj hhas

end Twins

/-- Registering a path that is registered changes nothing. -/
theorem growColumn_of_lookupColumn? {p : Path} {n : NodeId} (h : f.lookupColumn? n p = some c) :
    (p.growColumn n).perform f = (.ok c, f) := by
  induction p generalizing n c with
  | column name =>
    have hc : f.findCell? n name = some c := h
    rw [Path.growColumn, Growth.perform_ofForest, ensureCell_of_some hc]
  | table => exact absurd h (by simp [lookupColumn?])
  | join name key link inner ihLink ihInner =>
    simp only [lookupColumn?, Option.bind_eq_bind, Option.bind_eq_some_iff] at h
    obtain ⟨linkCell, hlink, child, hchild, h⟩ := h
    obtain ⟨e, he, rfl⟩ := Option.map_eq_some_iff.1 hchild
    rw [Path.growColumn, Growth.perform_bind_ok (ihLink hlink),
      Growth.perform_bind_ok (Growth.perform_ofForest _ f), ensureJoin_of_some he]
    exact ihInner h

end Forest
end LinkedRows
