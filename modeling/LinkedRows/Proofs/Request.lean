/-
# Requests to a record

A run of a record is a list of requests that it serves one after the other, whatever each of them
results in (`Record.after`).

Registering a path, and finding or registering the column of a path, makes no call and only grows
the forest, also when it fails half-way; a column that comes out of it is the one that looking the
path up finds (`register_spec`, `registerTable_spec`, `resolve_spec`).  A path to a column that can
be read registers.

A request that only reads grows the forest and then asks (`browses_serve`), so what was registered
before it stays registered.
-/

import LinkedRows.Proofs.Forest.Registration
import LinkedRows.Proofs.Reading
import LinkedRows.Record

namespace LinkedRows

open Forest

/-- What a record can be asked for. -/
inductive Request where
  | register (path : String)
  | registerTable (path : String)
  | get (path : String)
  | set (path : String) (v : Value)
  | save
  | fetch
  | delete
  | deleteAll
deriving DecidableEq, Repr

namespace Request

/-- Does the request leave alone what the record and its rows hold? -/
def isReading : Request → Bool
  | .register _ | .registerTable _ | .get _ | .fetch => true
  | .set _ _ | .save | .delete | .deleteAll => false

end Request

namespace Record

variable {σ : Type} (r : Record) (c : Connector σ) {w v : World σ Forest}

/-- The world after a request, served or refused. -/
def serve (w : World σ Forest) : Request → World σ Forest
  | .register path => ((r.register path).perform w).2
  | .registerTable path => ((r.registerTable path).perform w).2
  | .get path => ((r.get c path).perform w).2
  | .set path v => ((r.set path v).perform w).2
  | .save => ((r.save c).perform w).2
  | .fetch => ((r.fetch c).perform w).2
  | .delete => ((r.delete c).perform w).2
  | .deleteAll => ((r.deleteAll c).perform w).2

/-- The world after a run. -/
def after (requests : List Request) (w : World σ Forest) : World σ Forest :=
  requests.foldl (r.serve c) w

@[simp] theorem after_nil (w : World σ Forest) : r.after c [] w = w := rfl

@[simp] theorem after_cons (q : Request) (requests : List Request) (w : World σ Forest) :
    r.after c (q :: requests) w = r.after c requests (r.serve c w q) := rfl

/-! ## Paths -/

/-- The change of a forest that made no call. -/
structure Grown (w v : World σ Forest) : Prop where
  store : v.store = w.store
  log : v.log = w.log
  grows : Grows w.state v.state

theorem Grown.refl (w : World σ Forest) : Grown w w := ⟨rfl, rfl, Grows.refl⟩

theorem Grown.trans {u : World σ Forest} (h : Grown w v) (h' : Grown v u) : Grown w u :=
  ⟨h'.store.trans h.store, h'.log.trans h.log, h.grows.trans h'.grows⟩

variable {r}

theorem register_spec (hf : WellFormed w.state) (hr : w.state.HasNode r.root) (path : String) :
    (r.register path).Ensures w fun result v => Grown w v ∧ ∀ d, result = .ok d →
      ∃ p, r.columnPath path = .ok p ∧ v.state.lookupColumn? r.root p = some d := by
  rw [register, Action.Ensures]
  cases hp : r.columnPath path with
  | error e => exact ⟨Grown.refl w, fun d hd => by cases hd⟩
  | ok p =>
    obtain ⟨hgrows, hlookup⟩ := registerColumn_spec hf p hr
    exact ⟨⟨rfl, rfl, hgrows⟩, fun d hd => ⟨p, rfl, hlookup d hd⟩⟩

theorem registerTable_spec (hf : WellFormed w.state) (hr : w.state.HasNode r.root)
    (path : String) : (r.registerTable path).Ensures w fun _ v => Grown w v := by
  rw [registerTable, Action.Ensures]
  cases Path.readTable r.options.naming path with
  | error e => exact Grown.refl w
  | ok p => exact ⟨rfl, rfl, grows_registerTable hf p hr⟩

theorem resolve_spec (hf : WellFormed w.state) (hr : w.state.HasNode r.root) (path : String) :
    (r.resolve path).Ensures w fun result v => Grown w v ∧ ∀ d, result = .ok d →
      ∃ p, r.columnPath path = .ok p ∧ v.state.lookupColumn? r.root p = some d := by
  rw [resolve, Action.Ensures]
  cases hp : r.columnPath path with
  | error e => exact ⟨Grown.refl w, fun d hd => by cases hd⟩
  | ok p =>
    rw [Action.perform_bind_ok (Action.perform_ofExcept _ w), Action.perform_state_bind]
    cases hd : w.state.lookupColumn? r.root p with
    | some d =>
      refine ⟨Grown.refl w, fun d' hd' => ⟨p, rfl, ?_⟩⟩
      obtain rfl : d = d' := Except.ok.inj hd'
      exact hd
    | none =>
      cases r.options.registerOnAccess with
      | true =>
        obtain ⟨hgrows, hlookup⟩ := registerColumn_spec hf p hr
        exact ⟨⟨rfl, rfl, hgrows⟩, fun d hd => ⟨p, rfl, hlookup d hd⟩⟩
      | false => exact ⟨Grown.refl w, fun d hd => by cases hd⟩

/-- A path to a column that can be read registers. -/
theorem exists_register {path : String} {p : Path} (hp : r.columnPath path = .ok p)
    (w : World σ Forest) : ∃ d v, (r.register path).perform w = (.ok d, v) := by
  obtain ⟨hfits, hend⟩ := Path.linksFit_read hp
  obtain ⟨d, hd⟩ := exists_registerColumn hfits (hend.2 rfl) r.root w.state
  rw [register, hp]
  exact ⟨d, _, Prod.ext hd rfl⟩

/-- The column of a path that can be read is found if it is registered, or is registered then. -/
theorem exists_resolve {path : String} {p : Path} (hp : r.columnPath path = .ok p)
    (h : r.options.registerOnAccess = true ∨ ∃ d, w.state.lookupColumn? r.root p = some d) :
    ∃ d v, (r.resolve path).perform w = (.ok d, v) := by
  rw [resolve, Action.perform_bind_ok (x := p) (by rw [hp]; rfl), Action.perform_state_bind]
  cases hd : w.state.lookupColumn? r.root p with
  | some d => exact ⟨d, w, rfl⟩
  | none =>
    rcases h with h | ⟨d, h⟩
    · obtain ⟨hfits, hend⟩ := Path.linksFit_read hp
      obtain ⟨d, hd⟩ := exists_registerColumn hfits (hend.2 rfl) r.root w.state
      rw [h]
      exact ⟨d, _, Prod.ext hd rfl⟩
    · exact absurd (hd.symm.trans h) nofun

/-! ## Requests that only read -/

variable {c}

/-- The second world comes from the first by growth and then by asking. -/
def Browses (w v : World σ Forest) : Prop :=
  ∃ u, Grown w u ∧ OnlyAsks u.log v.log ∧ Learns u.state v.state

theorem Grown.browses (h : Grown w v) : Browses w v := ⟨v, h, OnlyAsks.refl _, Learns.refl⟩

theorem Browses.onlyAsks (h : Browses w v) : OnlyAsks w.log v.log := by
  obtain ⟨u, hgrown, hasks, -⟩ := h
  rwa [hgrown.log] at hasks

theorem Browses.untouched (h : Browses w v) (hf : Untouched w.state) : Untouched v.state := by
  obtain ⟨u, hgrown, -, hlearns⟩ := h
  exact (hf.grows hgrown.grows).learns hlearns

theorem Browses.hasNode (h : Browses w v) (hf : WellFormed w.state) {n : NodeId}
    (hn : w.state.HasNode n) : v.state.HasNode n := by
  obtain ⟨u, hgrown, -, hlearns⟩ := h
  exact (hlearns.steady.shape.hasNode n).2 ((hgrown.grows.extends hf).hasNode hn)

theorem browses_fetch (hf : WellFormed w.state) (n : NodeId) :
    Browses w ((LinkedRows.fetch c n).perform w).2 := by
  have h := consults_fetch c n hf
  exact ⟨w, Grown.refl w, h.asks, h.learns⟩

/-- A read finds or registers the column, and fetches from the topmost stale record on the way. -/
theorem get_spec (hf : WellFormed w.state) (hr : w.state.HasNode r.root) (path : String) :
    (r.get c path).Ensures w fun result v => ∃ found u, (r.resolve path).perform w = (found, u) ∧
      OnlyAsks u.log v.log ∧ Learns u.state v.state ∧
        ∀ x, result = .ok x → ∃ d, found = .ok d ∧ x = (v.state.cell d).value := by
  obtain ⟨hgrown, -⟩ := resolve_spec hf hr path
  rw [Action.Ensures]
  rcases hresolve : (r.resolve path).perform w with ⟨e | d, u⟩ <;> rw [hresolve] at hgrown
  · rw [get, Action.perform_bind_error hresolve]
    exact ⟨_, _, rfl, OnlyAsks.refl _, Learns.refl, fun x hx => by cases hx⟩
  · rw [get, Action.perform_bind_ok hresolve, Action.perform_state_bind]
    cases u.state.staleAnchor? (u.state.cell d).owner with
    | none =>
      refine ⟨_, _, rfl, OnlyAsks.refl _, Learns.refl, fun x hx => ⟨d, rfl, ?_⟩⟩
      exact (Except.ok.inj hx).symm
    | some anchor =>
      have hfetch := consults_fetch c anchor (hf.grows hgrown.grows)
      rw [Action.Ensures] at hfetch
      rcases hperform : (LinkedRows.fetch c anchor).perform u with ⟨e | ⟨⟩, v⟩ <;>
        rw [hperform] at hfetch
      · dsimp only
        rw [Action.perform_bind_error hperform]
        exact ⟨_, _, rfl, hfetch.asks, hfetch.learns, fun x hx => by cases hx⟩
      · dsimp only
        rw [Action.perform_bind_ok hperform]
        refine ⟨_, _, rfl, hfetch.asks, hfetch.learns, fun x hx => ⟨d, rfl, ?_⟩⟩
        exact (Except.ok.inj hx).symm

theorem browses_get (hf : WellFormed w.state) (hr : w.state.HasNode r.root) (path : String) :
    Browses w ((r.get c path).perform w).2 := by
  obtain ⟨hgrown, -⟩ := resolve_spec hf hr path
  obtain ⟨found, u, hresolve, hasks, hlearns, -⟩ := get_spec (c := c) hf hr path
  rw [hresolve] at hgrown
  exact ⟨u, hgrown, hasks, hlearns⟩

/-- A reading request only browses. -/
theorem browses_serve (hf : WellFormed w.state) (hr : w.state.HasNode r.root) {q : Request}
    (hq : q.isReading = true) : Browses w (r.serve c w q) := by
  cases q with
  | register path => exact (register_spec hf hr path).1.browses
  | registerTable path => exact (registerTable_spec hf hr path).browses
  | get path => exact browses_get hf hr path
  | fetch => exact browses_fetch hf r.root
  | _ => exact absurd hq Bool.false_ne_true

/-- What is registered stays registered. -/
theorem Browses.lookupColumn? (h : Browses w v) (hf : WellFormed w.state) {n : NodeId} {p : Path}
    {d : CellId} (hd : w.state.lookupColumn? n p = some d) :
    v.state.lookupColumn? n p = some d := by
  obtain ⟨u, hgrown, -, hlearns⟩ := h
  rw [hlearns.steady.shape.lookupColumn?]
  exact lookupColumn?_of_extends hf (hf.grows hgrown.grows) (hgrown.grows.extends hf) hd

end Record
end LinkedRows
