/-
# Errands

Whatever calls a connector does so for one record at a time: it reads columns of the record's row,
or it runs a write to the row.  `Errand` is one such piece of work, and `Errand.Fits` is when it may
be done: columns are read of a bound record, and writes are those that are planned for the record as
it is.  No errand that fits is for a deleted record (`Errand.Fits.deleted`).

`Errands` is a stretch of a run told by its errands: in between, the forest changes without a call.
Each errand is noted with the forest that it was done in and with the calls that it made, and the
log is what these calls add up to (`Errands.log_eq`).  Flushing is such a stretch, with no other
changes in between than those that flushing makes itself (`errands_flushes`).
-/

import LinkedRows.Proofs.Flushing
import LinkedRows.Proofs.Handles

namespace LinkedRows

open Forest

variable {σ : Type} {c : Connector σ} {w v u : World σ Forest} {f g : Forest}

/-! ## One errand -/

/-- Work for one record that a connector is called for. -/
inductive Errand where
  | read (n : NodeId) (cells : List CellId)
  | write (write : Write)

namespace Errand

/-- The record that the errand is for. -/
def node : Errand → NodeId
  | read n _ => n
  | write w => w.node

/-- Clean columns are read of a bound record, and writes are planned from the forest. -/
def Fits (f : Forest) : Errand → Prop
  | read n cells => f.HasNode n ∧ f.isBound n = true ∧
    ∀ d ∈ cells, d ∈ (f.node n).cells ∧ (f.cell d).isDirty = false
  | write w => w.Fits f

/-- Does the errand. -/
def run (c : Connector σ) : Errand → Action σ Forest Unit
  | read n cells => readCells c n cells
  | write w => w.run c

/-- No errand is for a deleted record. -/
theorem Fits.deleted {errand : Errand} (h : errand.Fits f) :
    (f.node errand.node).deleted = false := by
  cases errand with
  | read n cells => exact (isBound_iff.1 h.2.1).2
  | write w =>
    cases w with
    | insert => exact h.2.2.1
    | update => exact (isBound_iff.1 h.2.1).2
    | delete => exact (isBound_iff.1 h.2.1).2

theorem Fits.hasNode {errand : Errand} (h : errand.Fits f) : f.HasNode errand.node := by
  cases errand with
  | read => exact h.1
  | write w => cases w <;> exact h.1

/-- The log goes on with the calls of an errand. -/
theorem exists_calls (errand : Errand) (c : Connector σ) (w : World σ Forest) :
    ∃ calls, ((errand.run c).perform w).2.log = w.log ++ calls := by
  cases errand with
  | read n cells =>
    obtain ⟨⟨asked, hlog, -⟩, -⟩ := readCells_spec c n cells w
    exact ⟨asked, hlog⟩
  | write write =>
    obtain ⟨-, hlog | ⟨p, later, -, hlog, -⟩⟩ := run_spec c write w
    · exact ⟨[], hlog.trans (List.append_nil _).symm⟩
    · exact ⟨_, hlog⟩

end Errand

/-! ## What stays with a record -/

theorem Forest.Persists.trans {h : Forest} (hp : Persists f g) (hq : Persists g h) :
    Persists f h where
  hasNode hn := hq.hasNode (hp.hasNode hn)
  hasCell hd := hq.hasCell (hp.hasCell hd)
  hasEdge he := hq.hasEdge (hp.hasEdge he)
  table hn := (hq.table (hp.hasNode hn)).trans (hp.table hn)
  key hn := (hq.key (hp.hasNode hn)).trans (hp.key hn)
  parent hn := (hq.parent (hp.hasNode hn)).trans (hp.parent hn)
  cells hn := (hp.cells hn).trans (hq.cells (hp.hasNode hn))
  edges hn := (hp.edges hn).trans (hq.edges (hp.hasNode hn))
  name hd := (hq.name (hp.hasCell hd)).trans (hp.name hd)
  owner hd := (hq.owner (hp.hasCell hd)).trans (hp.owner hd)
  isKey hd := (hq.isKey (hp.hasCell hd)).trans (hp.isKey hd)
  edge he := (hq.edge (hp.hasEdge he)).trans (hp.edge he)

theorem Forest.Persists.isRoot (hp : Persists f g) {n : NodeId} (hn : f.IsRoot n) : g.IsRoot n :=
  ⟨hp.hasNode hn.1, (hp.parent hn.1).trans hn.2⟩

/-- All handles stay good, deleted records stay deleted, and no record becomes new again. -/
structure Forest.Retains (f g : Forest) : Prop extends Persists f g where
  wellFormed : WellFormed g
  deleted {n} : f.HasNode n → (f.node n).deleted = true → (g.node n).deleted = true
  isNew {n} : f.HasNode n → f.isNew n = false → g.isNew n = false

namespace Forest.Retains

variable {h : Forest}

theorem refl (hf : WellFormed f) : Retains f f :=
  ⟨(SameShape.refl f).persists, hf, fun _ => id, fun _ => id⟩

theorem trans (hr : Retains f g) (hs : Retains g h) : Retains f h where
  toPersists := hr.toPersists.trans hs.toPersists
  wellFormed := hs.wellFormed
  deleted hn hdel := hs.deleted (hr.hasNode hn) (hr.deleted hn hdel)
  isNew hn hnew := hs.isNew (hr.hasNode hn) (hr.isNew hn hnew)

theorem of_steady (hs : Steady f g) (hf : WellFormed f) : Retains f g where
  toPersists := hs.shape.persists
  wellFormed := hs.wellFormed hf
  deleted _ hdel := (hs.deleted _).trans hdel
  isNew := hs.isNew hf

theorem of_extends (hx : Extends f g) (hf : WellFormed f) (hg : WellFormed g) : Retains f g where
  toPersists := hx.persists
  wellFormed := hg
  deleted hn hdel := (hx.deleted hn).trans hdel
  isNew hn hnew := (hx.isNew hf hn).trans hnew

theorem markDeleted (hf : WellFormed f) (n : NodeId) : Retains f (f.markDeleted n) where
  toPersists := (sameShape_markDeleted f n).persists
  wellFormed := hf.of_sameShape (sameShape_markDeleted f n)
  deleted {m} _ hdel := by
    rw [Forest.markDeleted, node_modifyNode]
    split
    · rfl
    · exact hdel
  isNew {m} _ hnew := by
    rw [Forest.isNew, (sameShape_markDeleted f n).key]
    exact hnew

end Forest.Retains

/-- Reading and writing make no record new again and bring none back. -/
theorem Errand.Fits.retains {errand : Errand} (hf : WellFormed w.state)
    (h : errand.Fits w.state) : (errand.run c).Ensures w fun _ v => Retains w.state v.state := by
  cases errand with
  | read n cells =>
    obtain ⟨-, hbound, hcells⟩ := h
    have hconsults : (readCells c n cells).Ensures w fun _ v => Consults [n] w v :=
      consults_readCells c hf fun d hd => ⟨(hcells d hd).1, isKey_eq_false_of_clean hf
        (hcells d hd).1 (isNew_of_isBound hbound) (hcells d hd).2, (hcells d hd).2⟩
    exact hconsults.mono fun _ _ h => .of_steady h.learns.steady hf
  | write write =>
    refine run_ensures write (.refl hf) fun v hran => ?_
    have hsettle (n : NodeId) := (reaches_settle hf n).toSteady
    cases hran with
    | @insert n _ _ _ _ _ key =>
      obtain ⟨-, -, -, rfl⟩ := h
      exact .of_steady (((hsettle n).trans (steady_setKey _ n key)).trans
        (steady_setCurrent _ n false)) hf
    | @update n =>
      obtain ⟨-, -, -, rfl⟩ := h
      exact .of_steady ((hsettle n).trans (steady_setCurrent _ n false)) hf
    | delete => exact .markDeleted hf _

/-! ## Changes between errands -/

/-- The changes of a forest that come without a call and assign nothing: it grows, a new child gets
the key of its link, a link follows its child, and a record is marked as current or not. -/
inductive Forest.Adjusts (f : Forest) : Forest → Prop
  | grows {g : Forest} : Grows f g → Adjusts f g
  | addRoot (table keyName : String) (key : Value) : Adjusts f (f.addRoot table keyName key).2
  | seed {e : EdgeId} : f.HasEdge e → Adjusts f (f.seedChild e)
  | follow {e : EdgeId} (wasNew : Bool) : f.HasEdge e → Adjusts f (f.followChild e wasNew)
  | setCurrent (n : NodeId) (current : Bool) : Adjusts f (f.setCurrent n current)

theorem Forest.Adjusts.retains (h : Adjusts f g) (hf : WellFormed f) : Retains f g := by
  cases h with
  | grows hg => exact .of_extends (hg.extends hf) hf (hf.grows hg)
  | addRoot table keyName key =>
    exact .of_extends (extends_addNode table keyName key none) hf (hf.addRoot table keyName key)
  | seed => exact .of_steady (steady_seedChild f _) hf
  | follow wasNew => exact .of_steady (steady_followChild f _ wasNew) hf
  | setCurrent n current => exact .of_steady (steady_setCurrent f n current) hf

/-- An errand that was done: the forest that it was done in, and the calls that it made. -/
structure Entry where
  errand : Errand
  forest : Forest
  calls : List Exchange

/-- The second world comes from the first by the errands of these entries, in order, and by changes
of the forest in between. -/
inductive Errands (c : Connector σ) (Change : Forest → Forest → Prop) (w : World σ Forest) :
    List Entry → World σ Forest → Prop
  | refl : Errands c Change w [] w
  | change {entries : List Entry} {v : World σ Forest} {g : Forest} :
      Errands c Change w entries v → Change v.state g → Errands c Change w entries (v.withState g)
  | run {entries : List Entry} {v : World σ Forest} {errand : Errand} {calls : List Exchange} :
      Errands c Change w entries v → errand.Fits v.state →
      ((errand.run c).perform v).2.log = v.log ++ calls →
      Errands c Change w (entries ++ [⟨errand, v.state, calls⟩]) ((errand.run c).perform v).2

namespace Errands

variable {Change Change' : Forest → Forest → Prop} {entries later : List Entry}

theorem trans (h : Errands c Change w entries v) (h' : Errands c Change v later u) :
    Errands c Change w (entries ++ later) u := by
  induction h' with
  | refl => rwa [List.append_nil]
  | change _ hchange ih => exact ih.change hchange
  | run _ hfits hcalls ih =>
    rw [← List.append_assoc]
    exact ih.run hfits hcalls

theorem mono (h : Errands c Change w entries v) (hchange : ∀ f g, Change f g → Change' f g) :
    Errands c Change' w entries v := by
  induction h with
  | refl => exact .refl
  | change _ hstep ih => exact ih.change (hchange _ _ hstep)
  | run _ hfits hcalls ih => exact ih.run hfits hcalls

/-- The calls of the errands are all that is added to the log. -/
theorem log_eq (h : Errands c Change w entries v) :
    v.log = w.log ++ entries.flatMap Entry.calls := by
  induction h with
  | refl => exact (List.append_nil _).symm
  | change _ _ ih => exact ih
  | run _ _ hcalls ih =>
    rw [hcalls, ih, List.flatMap_append, List.flatMap_singleton, List.append_assoc]

/-- Each errand was for a record that was there and not deleted at the time. -/
theorem undeleted (h : Errands c Change w entries v) : ∀ x ∈ entries,
    x.forest.HasNode x.errand.node ∧ (x.forest.node x.errand.node).deleted = false := by
  induction h with
  | refl => exact fun _ hx => absurd hx List.not_mem_nil
  | change _ _ ih => exact ih
  | run _ hfits _ ih =>
    intro x hx
    rcases List.mem_append.1 hx with hx | hx
    · exact ih x hx
    · rw [List.mem_singleton.1 hx]
      exact ⟨hfits.hasNode, hfits.deleted⟩

/-- Errands bring no record back as long as the changes in between bring none. -/
theorem retains (h : Errands c Adjusts w entries v) (hf : WellFormed w.state) :
    Retains w.state v.state := by
  induction h with
  | refl => exact .refl hf
  | change _ hchange ih => exact ih.trans (hchange.retains ih.wellFormed)
  | run _ hfits _ ih => exact ih.trans (hfits.retains ih.wellFormed)

/-- No errand is for a record that was deleted at the start. -/
theorem undeleted_start (h : Errands c Adjusts w entries v) (hf : WellFormed w.state) :
    ∀ x ∈ entries, (w.state.node x.errand.node).deleted = false := by
  induction h with
  | refl => exact fun _ hx => absurd hx List.not_mem_nil
  | change _ _ ih => exact ih
  | @run entries v errand calls h hfits _ ih =>
    intro x hx
    rcases List.mem_append.1 hx with hx | hx
    · exact ih x hx
    · obtain rfl := List.mem_singleton.1 hx
      by_contra hdel
      by_cases hn : w.state.HasNode errand.node
      · have hstays := (h.retains hf).deleted hn (Bool.not_eq_false _ ▸ hdel)
        exact Bool.false_ne_true (hfits.deleted.symm.trans hstays)
      · rw [node_of_not_hasNode _ hn] at hdel
        exact hdel rfl

end Errands

/-! ## Stretches of a run -/

/-- Growth makes no call. -/
theorem Record.Grown.errands (h : Grown w v) : Errands c Adjusts w [] v := by
  have hv : v = w.withState v.state := by
    cases v
    cases h.store
    cases h.log
    rfl
  rw [hv]
  exact Errands.refl.change (.grows h.grows)

/-- Flushing goes errand by errand. -/
theorem errands_flushes (h : Flushes c w v) : ∃ entries, Errands c Adjusts w entries v := by
  induction h with
  | refl => exact ⟨[], .refl⟩
  | @read v n cells _ hn hbound hcells ih =>
    obtain ⟨entries, ih⟩ := ih
    have hfits : (Errand.read n cells).Fits v.state := ⟨hn, hbound, hcells⟩
    obtain ⟨calls, hcalls⟩ := (Errand.read n cells).exists_calls c v
    exact ⟨_, ih.run hfits hcalls⟩
  | seed _ he ih =>
    obtain ⟨entries, ih⟩ := ih
    exact ⟨entries, ih.change (.seed he)⟩
  | follow wasNew _ he ih =>
    obtain ⟨entries, ih⟩ := ih
    exact ⟨entries, ih.change (.follow wasNew he)⟩
  | setCurrent n current _ ih =>
    obtain ⟨entries, ih⟩ := ih
    exact ⟨entries, ih.change (.setCurrent n current)⟩
  | @run v write _ hwrite ih =>
    obtain ⟨entries, ih⟩ := ih
    have hfits : (Errand.write write).Fits v.state := hwrite
    obtain ⟨calls, hcalls⟩ := (Errand.write write).exists_calls c v
    exact ⟨_, ih.run hfits hcalls⟩

end LinkedRows
