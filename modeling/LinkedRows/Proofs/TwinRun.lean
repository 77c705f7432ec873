/-
# Runs of twins

The same requests to get, assign and save are served by a record in two worlds whose forests are
twins and true to the database.  They have the same results, execute statements that are alike, and
leave what is known true in both worlds, whatever was read in only one of them, as long as they fit
the rows (`Record.Fits`) and join no record through a column in doubt.

Both conditions are asked of one of the worlds alone, and fitting is seen from the rows and from
what was assigned: no row hangs from a record without one; records are moved freely when a link is
assigned; and when a save begins, what it writes can be stored.  `serve_matching` says what one
request does to the two worlds, and `after_matching` what a run does.
-/

import LinkedRows.Proofs.Sessions
import LinkedRows.Proofs.StorableRecords

namespace LinkedRows

open Forest

namespace Forest

variable {f g : Forest} {root : NodeId} {doubt : String → Prop}

theorem Persists.avoids (hp : Persists f g) (h : g.Avoids root doubt) : f.Avoids root doubt := by
  intro e he
  rw [← hp.edge he]
  exact h e (hp.hasEdge he)

theorem Twins.avoids (htwins : Twins f g) (h : f.Avoids root doubt) : g.Avoids root doubt := by
  intro e he
  rw [htwins.owner, htwins.label]
  exact h e ((htwins.hasEdge e).1 he)

end Forest

/-- Two worlds with twins that are true to the database. -/
structure Matching {σ : Type} (c : Connector σ) (db : σ → Database) (root : NodeId) (key : Value)
    (doubt : String → Prop) (w w' : World σ Forest) : Prop extends Beside c root w w' where
  known : TrueTo (db w.store) root doubt w.state
  known' : TrueTo (db w.store) root doubt w'.state
  keyed : KeyedRoot root key w.state
  keyed' : KeyedRoot root key w'.state

namespace Record

variable {σ ρ : Type} {r : Record} {c : Connector σ} {db : σ → Database}
  {keyName : String → String} {tables : σ → Tables ρ} {w w' v v' : World σ Forest} {key : Value}
  {doubt : String → Prop}

/-! ## What runs have in common -/

/-- A request to get, assign or save fits the rows. -/
def Fits (r : Record) (c : Connector σ) (db : σ → Database) (keyName : String → String)
    (tables : σ → Tables ρ) (w : World σ Forest) : Request → Prop
  | .get path => Grounded c.dialect (db w.store) ((r.resolve path).perform w).2.state
  | .set path x =>
      match (r.resolve path).perform w with
      | (.ok d, v) => (v.state.cell d).isKey = false ∧ MovesFreely (db w.store) v.state d x
      | (.error _, _) => True
  | .save => Grounded c.dialect (db w.store) w.state ∧
      Storable c.dialect keyName (db w.store) (tables w.store) w.state
  | .register _ | .registerTable _ | .fetch | .delete | .deleteAll => False

/-- All requests of a run fit the rows when their turn comes. -/
def AllFit (r : Record) (c : Connector σ) (db : σ → Database) (keyName : String → String)
    (tables : σ → Tables ρ) : List Request → World σ Forest → Prop
  | [], _ => True
  | q :: rest, w => r.Fits c db keyName tables w q ∧
      AllFit r c db keyName tables rest (r.serve c w q)

instance [DecidableEq ρ] (w : World σ Forest) :
    (q : Request) → Decidable (r.Fits c db keyName tables w q)
  | .get path => inferInstanceAs (Decidable (Grounded c.dialect _ _))
  | .set path x =>
    match h : (r.resolve path).perform w with
    | (.ok d, v) => decidable_of_iff
        ((v.state.cell d).isKey = false ∧ MovesFreely (db w.store) v.state d x) (by rw [Fits, h])
    | (.error _, _) => .isTrue (by rw [Fits, h]; trivial)
  | .save => inferInstanceAs (Decidable (Grounded c.dialect _ _ ∧ Storable c.dialect _ _ _ _))
  | .register _ | .registerTable _ | .fetch | .delete | .deleteAll => .isFalse id

instance decidableAllFit [DecidableEq ρ] : (requests : List Request) → (w : World σ Forest) →
    Decidable (r.AllFit c db keyName tables requests w)
  | [], _ => .isTrue trivial
  | q :: rest, w =>
    have := decidableAllFit rest (r.serve c w q)
    inferInstanceAs (Decidable (r.Fits c db keyName tables w q ∧
      r.AllFit c db keyName tables rest (r.serve c w q)))

/-- A request has the same result in both worlds, where one failed save is as good as another. -/
def SameAnswer (r : Record) (c : Connector σ) (w w' : World σ Forest) : Request → Prop
  | .get path => ((r.get c path).perform w').1 = ((r.get c path).perform w).1
  | .set path v => ((r.set path v).perform w').1 = ((r.set path v).perform w).1
  | .save => ((r.save c).perform w').1.toOption = ((r.save c).perform w).1.toOption
  | _ => True

/-- All requests of a run have the same result. -/
def SameAnswers (r : Record) (c : Connector σ) :
    List Request → World σ Forest → World σ Forest → Prop
  | [], _, _ => True
  | q :: rest, w, w' =>
      SameAnswer r c w w' q ∧ SameAnswers r c rest (r.serve c w q) (r.serve c w' q)

/-! ## Joins stay -/

/-- No request takes anything away. -/
theorem persists_after (c : Connector σ) (hf : WellFormed w.state) (hr : w.state.HasNode r.root)
    (requests : List Request) : Persists w.state (r.after c requests w).state := by
  induction requests generalizing w with
  | nil => exact (SameShape.refl w.state).persists
  | cons q rest ih =>
    obtain ⟨hserved, hwf⟩ := (Demand.request r q).persists_after c hf hr
    exact hserved.trans (ih hwf (hserved.hasNode hr))

/-- What is there at the end of a run shows which joins its first request goes through. -/
theorem avoids_of_after {q : Request} {rest : List Request} (hf : WellFormed w.state)
    (hr : w.state.HasNode r.root)
    (h : (r.after c (q :: rest) w).state.Avoids r.root doubt) :
    (r.serve c w q).state.Avoids r.root doubt := by
  obtain ⟨hpersists, hwf⟩ := (Demand.request r q).persists_after c hf hr
  exact (persists_after c hwf (hpersists.hasNode hr) rest).avoids h

/-- The joins that a read goes through are there once its column is found. -/
theorem avoids_of_get (hf : WellFormed w.state) (hr : w.state.HasNode r.root) {path : String}
    (h : (r.serve c w (.get path)).state.Avoids r.root doubt) :
    ((r.resolve path).perform w).2.state.Avoids r.root doubt := by
  obtain ⟨found, u, hresolve, -, hlearns, -⟩ := get_spec (c := c) hf hr path
  rw [hresolve]
  exact hlearns.steady.shape.persists.avoids h

theorem avoids_of_set {path : String} {x : Value}
    (h : (r.serve c w (.set path x)).state.Avoids r.root doubt) :
    ((r.resolve path).perform w).2.state.Avoids r.root doubt := by
  rcases hresolve : (r.resolve path).perform w with ⟨e | d, u⟩
  · rwa [serve_set_error hresolve] at h
  · rw [serve_set_ok hresolve] at h
    exact (sameShape_assign u.state d x).persists.avoids h

/-! ## Finding columns -/

theorem resolve_of_unread {path : String} {e : Fault} (hp : r.columnPath path = .error e)
    (w : World σ Forest) : (r.resolve path).perform w = (.error e, w) := by
  rw [resolve, hp]
  rfl

/-- Finding or else registering a column is the same as registering it. -/
theorem resolve_of_read (hreg : r.options.registerOnAccess = true) {path : String} {p : Path}
    (hp : r.columnPath path = .ok p) (w : World σ Forest) :
    (r.resolve path).perform w = (((p.growColumn r.root).perform w.state).1,
      w.withState ((p.growColumn r.root).perform w.state).2) := by
  rw [resolve, Action.perform_bind_ok (x := p) (by rw [hp]; rfl), Action.perform_state_bind]
  cases hd : w.state.lookupColumn? r.root p with
  | some d =>
    rw [growColumn_of_lookupColumn? hd]
    rfl
  | none =>
    have hend := (Path.linksFit_read hp).2.2 rfl
    dsimp only
    rw [hreg, registerColumn, hend]
    rfl

/-- In both worlds the column of a path that can be read is found. -/
theorem resolve_matching (hreg : r.options.registerOnAccess = true)
    (h : Matching c db r.root key doubt w w') {path : String} {p : Path}
    (hp : r.columnPath path = .ok p)
    (havoids : ((r.resolve path).perform w).2.state.Avoids r.root doubt) :
    ∃ d d' v v', (r.resolve path).perform w = (.ok d, v) ∧
      (r.resolve path).perform w' = (.ok d', v') ∧ v.store = w.store ∧
        SameColumn v.state v'.state d d' ∧ Matching c db r.root key doubt v v' := by
  have hwf := h.left.toWellFormed
  have hwf' := h.right.toWellFormed
  obtain ⟨d, v, hresolve⟩ := exists_resolve hp (Or.inl hreg) (w := w)
  obtain ⟨d', v', hresolve'⟩ := exists_resolve hp (Or.inl hreg) (w := w')
  have hgrown := (resolve_spec hwf h.keyed.hasRoot path).1
  have hgrown' := (resolve_spec hwf' h.keyed'.hasRoot path).1
  obtain ⟨htwins, hsame⟩ := h.twins.growColumn hwf hwf' (p := p) h.rooted.hasRoot
  rw [hresolve] at hgrown havoids
  rw [hresolve'] at hgrown'
  refine ⟨d, d', v, v', hresolve, hresolve', hgrown.store, ?_, ?_⟩
  all_goals
    rw [resolve_of_read hreg hp] at hresolve hresolve'
    obtain ⟨hd, rfl⟩ := Prod.mk.inj hresolve
    obtain ⟨hd', rfl⟩ := Prod.mk.inj hresolve'
  · rw [hd, hd'] at hsame
    cases hsame with
    | ok hsame => exact hsame
  · have hknown := h.known.grows h.keyed.hasRoot hgrown.grows havoids
    have hknown' := h.known'.grows h.keyed'.hasRoot hgrown'.grows (htwins.avoids havoids)
    exact ⟨⟨⟨h.store, h.written⟩, htwins, hknown.toIntact, hknown'.toIntact,
      h.rooted.grows hwf hgrown.grows⟩, hknown, hknown', h.keyed.grows hwf hgrown.grows,
        h.keyed'.grows hwf' hgrown'.grows⟩

/-! ## One request -/

/-- A read results in the same value, if the records that are registered for it are grounded. -/
theorem get_matching (hc : Stores c db) (hkey : key ≠ .null)
    (hreg : r.options.registerOnAccess = true) (h : Matching c db r.root key doubt w w')
    {path : String} (hfit : Grounded c.dialect (db w.store) ((r.resolve path).perform w).2.state)
    (havoids : (r.serve c w (.get path)).state.Avoids r.root doubt) :
    SameAnswer r c w w' (.get path) ∧
      Matching c db r.root key doubt (r.serve c w (.get path)) (r.serve c w' (.get path)) := by
  rw [SameAnswer, serve, serve]
  cases hp : r.columnPath path with
  | error e =>
    rw [get, Action.perform_bind_error (resolve_of_unread hp w),
      Action.perform_bind_error (resolve_of_unread hp w')]
    exact ⟨rfl, h⟩
  | ok p =>
    obtain ⟨d, d', v, v', hresolve, hresolve', hstore, hsame, hv⟩ := resolve_matching hreg h hp
      (avoids_of_get h.left.toWellFormed h.keyed.hasRoot havoids)
    rw [hresolve, ← hstore] at hfit
    have hfit' := hfit.twins hv.twins
      (fun _ hn => hv.twins.keyAt_eq hv.known hv.known' hv.keyed hv.keyed' hkey hn)
        hv.left.toWellFormed
    obtain ⟨keys, hf, hseeded, hf', hseeded'⟩ := hv.twins.truthful hv.rooted
      (hv.known.truthful hv.keyed hkey hfit) (hv.known'.truthful hv.keyed' hkey hfit')
    obtain ⟨x, u, u', hget, hget', hu, hlinks, hu', hlinks'⟩ := get_twins (hc.serves v.store) rfl
      hv.store hresolve hresolve' hv.twins hsame hf hseeded hf' hseeded'
    have hasks := (browses_get (c := c) h.left.toWellFormed h.keyed.hasRoot path).onlyAsks
    have hasks' := (browses_get (c := c) h.right.toWellFormed h.keyed'.hasRoot path).onlyAsks
    rw [hget] at hasks
    rw [hget'] at hasks'
    rw [hget, hget']
    have hbound := hf.root hv.keyed.hasRoot hv.keyed.isRoot
    have hbound' := hf'.root hv.keyed'.hasRoot hv.keyed'.isRoot
    have hwf := hf.toWellFormed
    have hwf' := hf'.toWellFormed
    refine ⟨rfl, ⟨⟨⟨hu'.still.trans hu.still.symm, ?_⟩,
      hv.twins.learns hwf hwf' hu.learns hu'.learns, hu.follows.toIntact, hu'.follows.toIntact,
      hv.rooted.of_sameShape hu.learns.steady.shape⟩, ?_, ?_, hv.keyed.learns hwf hbound hu.learns,
      hv.keyed'.learns hwf' hbound' hu'.learns⟩⟩
    · rw [hasks.executed_eq, hasks'.executed_eq]
      exact h.written
    · exact hu.still ▸ hv.known.fetched hv.keyed.hasRoot hu hlinks
    · exact hu.still ▸ hv.known'.fetched hv.keyed'.hasRoot hu' hlinks'

/-- An assignment is made in both worlds. -/
theorem set_matching (hkey : key ≠ .null) (hreg : r.options.registerOnAccess = true)
    (h : Matching c db r.root key doubt w w') {path : String} {x : Value}
    (hfit : r.Fits c db keyName tables w (.set path x))
    (havoids : (r.serve c w (.set path x)).state.Avoids r.root doubt) :
    SameAnswer r c w w' (.set path x) ∧
      Matching c db r.root key doubt (r.serve c w (.set path x)) (r.serve c w' (.set path x)) := by
  rw [SameAnswer, serve, serve]
  cases hp : r.columnPath path with
  | error e =>
    rw [set, Action.perform_bind_error (resolve_of_unread hp w),
      Action.perform_bind_error (resolve_of_unread hp w')]
    exact ⟨rfl, h⟩
  | ok p =>
    obtain ⟨d, d', v, v', hresolve, hresolve', hstore, hsame, hv⟩ := resolve_matching hreg h hp
      (avoids_of_set havoids)
    rw [Fits, hresolve, ← hstore] at hfit
    obtain ⟨hk, hmoves⟩ := hfit
    have hwf := hv.left.toWellFormed
    have hwf' := hv.right.toWellFormed
    have hk' := (hv.twins.isKey hwf hwf' hsame).trans hk
    have hmoves' := hmoves.twins hv.twins
      (fun _ hn => hv.twins.keyAt_eq hv.known hv.known' hv.keyed hv.keyed' hkey hn) hwf hwf' hsame
    have hknown := hv.known.assign hv.keyed hkey hsame.left hk hmoves
    have hknown' := hv.known'.assign hv.keyed' hkey hsame.right hk' hmoves'
    rw [set, Action.perform_bind_ok hresolve, Action.perform_bind_ok hresolve']
    exact ⟨rfl, ⟨⟨hv.store, hv.written⟩, hv.twins.assign hwf hwf' hsame x, hknown.toIntact,
      hknown'.toIntact, hv.rooted.of_sameShape (sameShape_assign _ d x)⟩, hknown, hknown',
      hv.keyed.assign hwf hsame.left hk x, hv.keyed'.assign hwf' hsame.right hk' x⟩

/-- A save writes the same in both worlds. -/
theorem save_matching (hc : Stores c db) (hm : Maintains c db keyName tables) (hkey : key ≠ .null)
    (h : Matching c db r.root key doubt w w') (hfit : r.Fits c db keyName tables w .save) :
    SameAnswer r c w w' .save ∧
      Matching c db r.root key doubt (r.serve c w .save) (r.serve c w' .save) := by
  obtain ⟨hg, hs⟩ := hfit
  have hkeys (n : NodeId) (hn : w.state.HasNode n) :=
    h.twins.keyAt_eq h.known h.known' h.keyed h.keyed' hkey hn
  have hg' := hg.twins h.twins hkeys h.left.toWellFormed
  have hs' := hs.twins h.twins h.left h.right hkeys
  obtain ⟨keys, hf, -, hf', -⟩ := h.twins.truthful h.rooted
    (h.known.truthful h.keyed hkey hg) (h.known'.truthful h.keyed' hkey hg')
  have hsaves := save_twins hc r h.toBeside hf hf'
  have hend := save_true (r := r) (hc.serves _) hm hkey h.known h.keyed hg hs
  have hend' := save_true (r := r) (w := w') (hc.serves _) hm hkey (h.store ▸ h.known') h.keyed'
    (h.store ▸ hg') (h.store ▸ hs')
  rw [SameAnswer, serve, serve]
  rcases hsave : (r.save c).perform w with ⟨x, v⟩
  rcases hsave' : (r.save c).perform w' with ⟨x', v'⟩
  have hv := hend.of_perform hsave
  have hv' := hend'.of_perform hsave'
  rw [hsave, hsave'] at hsaves
  cases hsaves with
  | ok hbeside =>
    obtain ⟨hsame, hbeside⟩ := hbeside
    exact ⟨congrArg some hsame, ⟨hbeside, hv.1, hbeside.store ▸ hv'.1, hv.2, hv'.2⟩⟩
  | error hbeside =>
    exact ⟨rfl, ⟨hbeside, hv.1, hbeside.store ▸ hv'.1, hv.2, hv'.2⟩⟩

theorem serve_matching (hc : Stores c db) (hm : Maintains c db keyName tables) (hkey : key ≠ .null)
    (hreg : r.options.registerOnAccess = true) (h : Matching c db r.root key doubt w w')
    {q : Request} (hfit : r.Fits c db keyName tables w q)
    (havoids : (r.serve c w q).state.Avoids r.root doubt) : SameAnswer r c w w' q ∧
      Matching c db r.root key doubt (r.serve c w q) (r.serve c w' q) := by
  cases q with
  | get path => exact get_matching hc hkey hreg h hfit havoids
  | set path x => exact set_matching hkey hreg h hfit havoids
  | save => exact save_matching hc hm hkey h hfit
  | _ => exact hfit.elim

/-! ## Runs -/

/-- **Twins answer alike.**  If the requests of a run fit the rows in one of two matching worlds,
they have the same results in both, and the worlds match again at the end. -/
theorem after_matching (hc : Stores c db) (hm : Maintains c db keyName tables) (hkey : key ≠ .null)
    (hreg : r.options.registerOnAccess = true) (requests : List Request)
    (h : Matching c db r.root key doubt w w') (hfit : r.AllFit c db keyName tables requests w)
    (havoids : (r.after c requests w).state.Avoids r.root doubt) :
    SameAnswers r c requests w w' ∧
      Matching c db r.root key doubt (r.after c requests w) (r.after c requests w') := by
  induction requests generalizing w w' with
  | nil => exact ⟨trivial, h⟩
  | cons q rest ih =>
    obtain ⟨hnow, hlater⟩ := hfit
    have hstays := avoids_of_after h.left.toWellFormed h.keyed.hasRoot havoids
    obtain ⟨hanswer, hserved⟩ := serve_matching hc hm hkey hreg h hnow hstays
    obtain ⟨hanswers, hafter⟩ := ih hserved hlater havoids
    rw [after_cons, after_cons]
    exact ⟨⟨hanswer, hanswers⟩, hafter⟩

end Record
end LinkedRows
