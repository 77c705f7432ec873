/-
# Sessions

In a session a forest is asked for one thing after the other, each of which may fail half-way:
operations that make no call, and requests to its records, which go through a connector
(`Demand`, `Session`).  Any record of the forest may be asked, not only the one that it began with.

A session is told by its errands, with changes of the forest in between (`Session.errands`).  Unless
a demand gives a column a value, the changes are such that deleted records stay deleted and no
record becomes new again (`Demand.errands_after`).
-/

import LinkedRows.Proofs.Errands
import LinkedRows.Proofs.Relinking

namespace LinkedRows

open Forest

variable {σ : Type} {c : Connector σ} {w v u : World σ Forest}

/-! ## Demands -/

namespace Forest.Operation

/-- The operation works on the forest alone and makes no call. -/
def isLocal : Operation → Bool
  | .save _ _ _ | .fetch _ _ _ | .delete _ _ _ | .deleteAll _ _ _ => false
  | _ => true

/-- The operation gives a column a value or drops the one that it was given. -/
def assigns : Operation → Bool
  | .assign _ _ | .set _ _ | .discard _ => true
  | _ => false

end Forest.Operation

/-- What can be asked of a forest in a session. -/
inductive Demand : Type 1
  | locally (op : Operation)
  | request (r : Record) (q : Request)

namespace Demand

/-- The demand is made with handles of the forest. -/
def Fits (f : Forest) : Demand → Prop
  | locally op => op.isLocal = true ∧ op.Fits f
  | request r _ => f.HasNode r.root

instance (f : Forest) (demand : Demand) : Decidable (demand.Fits f) := by
  cases demand <;> unfold Fits <;> infer_instance

/-- The world after a demand, granted or refused. -/
def after (c : Connector σ) (w : World σ Forest) : Demand → World σ Forest
  | locally op => w.withState (op.result w.state)
  | request r q => r.serve c w q

/-- The demand gives a column a value or drops the one that it was given. -/
def assigns : Demand → Bool
  | locally op => op.assigns
  | request _ (.set _ _) => true
  | request _ _ => false

/-- The demand comes to assign a column of the forest, so that links are followed. -/
inductive Assigns (w : World σ Forest) : Demand → Forest → CellId → Value → Prop
  | locally (d : CellId) (x : Value) : Assigns w (.locally (.assign d x)) w.state d x
  | request {r : Record} {path : String} {x : Value} {d : CellId} {u : World σ Forest} :
      (r.resolve path).perform w = (.ok d, u) → Assigns w (.request r (.set path x)) u.state d x

end Demand

/-- The changes of a forest that come without a call. -/
inductive Forest.Changes (f : Forest) : Forest → Prop
  | adjusts {g : Forest} : Adjusts f g → Changes f g
  | assign (d : CellId) (x : Value) : Changes f (f.assign d x)
  /-- A column gets other values, and what hangs on it is left alone. -/
  | modify (d : CellId) {change : Cell → Cell} :
      (∀ cell, (change cell).shape = cell.shape) → Changes f (f.modifyCell d change)

namespace Demand

variable {demand : Demand}

/-- **A demand that assigns nothing goes errand by errand**, and in between the forest is only
adjusted. -/
theorem errands_after (hf : WellFormed w.state) (hfits : demand.Fits w.state)
    (hquiet : demand.assigns = false) :
    ∃ entries, Errands c Adjusts w entries (demand.after c w) := by
  have hgrows {g : Forest} (h : Grows w.state g) :
      ∃ entries, Errands c Adjusts w entries (w.withState g) :=
    ⟨[], Errands.refl.change (.grows h)⟩
  cases demand with
  | locally op =>
    obtain ⟨hlocal, hfits⟩ := hfits
    cases op with
    | addRoot table keyName key => exact ⟨[], Errands.refl.change (.addRoot table keyName key)⟩
    | ensureCell n name => exact hgrows (grows_ensureCell hfits name)
    | ensureJoin link table key => exact hgrows (grows_ensureJoin hfits table key)
    | registerColumn n p => exact hgrows (registerColumn_spec hf p hfits).1
    | registerTable n p => exact hgrows (grows_registerTable hf p hfits)
    | assign | set | discard => cases hquiet
    | save | fetch | delete | deleteAll => cases hlocal
  | request r q =>
    obtain ⟨u, hgrown, hflushes | ⟨path, x, d, rfl, -⟩⟩ := r.serve_cases (c := c) hf hfits q
    · obtain ⟨entries, hentries⟩ := errands_flushes hflushes
      exact ⟨entries, hgrown.errands.trans hentries⟩
    · cases hquiet

/-- Any demand goes errand by errand, or it assigns a column after the forest has grown, or gives a
column other values and leaves alone what hangs on it. -/
theorem after_cases (c : Connector σ) (hf : WellFormed w.state) (hfits : demand.Fits w.state) :
    (∃ entries, Errands c Adjusts w entries (demand.after c w)) ∨
      (∃ u d x, Record.Grown w u ∧ u.state.HasCell d ∧ demand.Assigns w u.state d x ∧
        demand.after c w = u.withState (u.state.assign d x)) ∨
      ∃ d change, (∀ cell : Cell, (change cell).shape = cell.shape) ∧
        demand.after c w = w.withState (w.state.modifyCell d change) := by
  cases hassigns : demand.assigns with
  | false => exact Or.inl (errands_after hf hfits hassigns)
  | true =>
    cases demand with
    | locally op =>
      cases op with
      | assign d x => exact Or.inr (Or.inl ⟨w, d, x, .refl w, hfits.2, .locally d x, rfl⟩)
      | set d x => exact Or.inr (Or.inr ⟨d, (·.assign x), fun _ => rfl, rfl⟩)
      | discard d => exact Or.inr (Or.inr ⟨d, Cell.discard, fun _ => rfl, rfl⟩)
      | _ => cases hassigns
    | request r q =>
      obtain ⟨u, hgrown, hflushes | ⟨path, x, d, rfl, hresolve, hserve⟩⟩ :=
        r.serve_cases (c := c) hf hfits q
      · obtain ⟨entries, hentries⟩ := errands_flushes hflushes
        exact Or.inl ⟨entries, hgrown.errands.trans hentries⟩
      · have hd := (Record.hasCell_of_resolve hf hfits hresolve).2
        exact Or.inr (Or.inl ⟨u, d, x, hgrown, hd, .request hresolve, hserve⟩)

/-- Demands keep all handles good and the forest well formed. -/
theorem persists_after (c : Connector σ) (hf : WellFormed w.state) (hfits : demand.Fits w.state) :
    Persists w.state (demand.after c w).state ∧ WellFormed (demand.after c w).state := by
  obtain ⟨entries, h⟩ | ⟨u, d, x, hgrown, -, -, h⟩ | ⟨d, change, hchange, h⟩ :=
    demand.after_cases c hf hfits
  · have hretains := h.retains hf
    exact ⟨hretains.toPersists, hretains.wellFormed⟩
  · rw [h]
    have hs := sameShape_assign u.state d x
    exact ⟨(hgrown.grows.extends hf).persists.trans hs.persists,
      (hf.grows hgrown.grows).of_sameShape hs⟩
  · rw [h]
    have hs := sameShape_modifyCell w.state d hchange
    exact ⟨hs.persists, hf.of_sameShape hs⟩

end Demand

/-! ## Sessions -/

/-- The world that demands, one after the other, lead to. -/
inductive Session (c : Connector σ) (w : World σ Forest) : List Demand → World σ Forest → Prop
  | start : Session c w [] w
  | step {demands : List Demand} {v : World σ Forest} (demand : Demand) : Session c w demands v →
      demand.Fits v.state → Session c w (demands ++ [demand]) (demand.after c v)

namespace Session

variable {demands : List Demand}

theorem persists (h : Session c w demands v) (hf : WellFormed w.state) :
    Persists w.state v.state ∧ WellFormed v.state := by
  induction h with
  | start => exact ⟨(SameShape.refl _).persists, hf⟩
  | step _ _ hfits ih =>
    obtain ⟨hpersists, hwf⟩ := Demand.persists_after c ih.2 hfits
    exact ⟨ih.1.trans hpersists, hwf⟩

/-- A session goes errand by errand. -/
theorem errands (h : Session c w demands v) (hf : WellFormed w.state) :
    ∃ entries, Errands c Changes w entries v := by
  induction h with
  | start => exact ⟨[], .refl⟩
  | step demand h hfits ih =>
    obtain ⟨entries, hentries⟩ := ih
    obtain ⟨later, hlater⟩ | ⟨u, d, x, hgrown, -, -, hafter⟩ | ⟨d, change, hchange, hafter⟩ :=
      demand.after_cases c (h.persists hf).2 hfits
    · exact ⟨_, hentries.trans (hlater.mono fun _ _ => .adjusts)⟩
    · rw [hafter]
      have hgrowing := hgrown.errands (c := c).mono fun _ _ => Changes.adjusts
      exact ⟨_, (hentries.trans hgrowing).change (.assign d x)⟩
    · rw [hafter]
      exact ⟨entries, hentries.change (.modify d hchange)⟩

/-- In a session without assignments the forest is only adjusted in between. -/
theorem errands_of_quiet (h : Session c w demands v) (hf : WellFormed w.state)
    (hquiet : ∀ demand ∈ demands, demand.assigns = false) :
    ∃ entries, Errands c Adjusts w entries v := by
  induction h with
  | start => exact ⟨[], .refl⟩
  | step demand h hfits ih =>
    obtain ⟨entries, hentries⟩ := ih fun q hq => hquiet q (List.mem_append_left _ hq)
    obtain ⟨later, hlater⟩ := Demand.errands_after (c := c) (h.persists hf).2 hfits
      (hquiet demand (by simp))
    exact ⟨_, hentries.trans hlater⟩

end Session

end LinkedRows
