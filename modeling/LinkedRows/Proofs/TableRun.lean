/-
# Tables as records that serve requests

A call of a table works on a record of its own and asks it for one thing after the other.  What it
leads to, and the calls that it makes, are therefore those of a run of that record: of all its
requests if it succeeds, and of those up to the first that fails if it does not
(`Table.call_isRun`).
-/

import LinkedRows.Proofs.Request
import LinkedRows.Table

namespace LinkedRows

variable {σ τ α β : Type} {c : Connector σ} {r : Record}

/-- An action does what serving requests one after the other does; where it fails, the rest of the
requests is not served. -/
def Action.Runs (r : Record) (c : Connector σ) (requests : List Request) (a : Action σ Forest α)
    (w : World σ Forest) : Prop :=
  a.Ensures w fun result v => ∃ served, served <+: requests ∧ v = r.after c served w ∧
    ((∃ x, result = .ok x) → served = requests)

namespace Action.Runs

variable {a : Action σ Forest α} {k : α → Action σ Forest β} {qs later : List Request}
  {w : World σ Forest}

/-- Nothing is asked. -/
theorem pure (x : α) (w : World σ Forest) : Runs r c [] (Pure.pure x : Action σ Forest α) w :=
  ⟨[], List.prefix_rfl, rfl, fun _ => rfl⟩

/-- One thing is asked. -/
theorem serve {q : Request} (h : (a.perform w).2 = r.serve c w q) : Runs r c [q] a w :=
  ⟨[q], List.prefix_rfl, h, fun _ => rfl⟩

/-- One thing is asked after the other. -/
theorem bind (h : Runs r c qs a w) (hk : ∀ x v, a.perform w = (.ok x, v) → Runs r c later (k x) v) :
    Runs r c (qs ++ later) (a >>= k) w := by
  refine Action.Ensures.bind_of_perform (fun x v hperform => ?_) fun e v hperform => ?_
  · obtain ⟨served, -, hv, hall⟩ := h.of_perform hperform
    obtain rfl := hall ⟨x, rfl⟩
    obtain ⟨more, hmore, hu, hlast⟩ := hk x v hperform
    refine ⟨served ++ more, (List.prefix_append_right_inj served).2 hmore, ?_, fun hok => ?_⟩
    · rw [hu, hv, Record.after, Record.after, Record.after, List.foldl_append]
    · rw [hlast hok]
  · obtain ⟨served, hserved, hv, -⟩ := h.of_perform hperform
    exact ⟨served, hserved.trans (List.prefix_append _ _), hv, nofun⟩

end Action.Runs

namespace Record

theorem runs_registerAll (paths : List String) (w : World σ Forest) :
    (r.registerAll paths).Runs r c (paths.map .register) w := by
  induction paths generalizing w with
  | nil => exact .pure [] w
  | cons path rest ih =>
    rw [registerAll, List.map_cons]
    have hfirst : (r.register path).Runs r c [.register path] w := .serve rfl
    refine hfirst.bind fun d v _ => ?_
    rw [← List.append_nil (rest.map _)]
    exact (ih v).bind fun ds u _ => .pure _ u

theorem runs_getAll (paths : List String) (w : World σ Forest) :
    (r.getAll c paths).Runs r c (paths.map .get) w := by
  induction paths generalizing w with
  | nil => exact .pure [] w
  | cons path rest ih =>
    rw [getAll, List.map_cons]
    have hfirst : (r.get c path).Runs r c [.get path] w := .serve rfl
    refine hfirst.bind fun x v _ => ?_
    rw [← List.append_nil (rest.map _)]
    exact (ih v).bind fun xs u _ => .pure _ u

end Record

/-- What a table is called for. -/
inductive TableCall where
  | select (paths : List String) (key : TableKey)
  | save (fields : List (String × Value)) (key : Option TableKey)
  | delete (key : TableKey)
deriving DecidableEq, Repr

namespace TableCall

/-- The row that is meant. -/
def key? : TableCall → Option TableKey
  | .select _ key | .delete key => some key
  | .save _ key => key

/-- What the record of the call is asked for. -/
def requests : TableCall → List Request
  | .select paths _ => paths.map .register ++ paths.map .get
  | .save fields _ => fields.flatMap (fun field => [.register field.1, .set field.1 field.2]) ++
      [.save]
  | .delete _ => [.delete]

end TableCall

namespace Table

variable (t : Table) (c)

/-- The record that a call works on, in a forest of its own. -/
def opened (call : TableCall) : Record × Forest :=
  Record.create t.name (call.key?.bind (·.name)) (call.key?.map (·.value)) t.options

/-- The world after a call, granted or refused. -/
def afterCall (w : World σ τ) : TableCall → World σ τ
  | .select paths key => ((t.select c paths key).perform w).2
  | .save fields key => ((t.save c fields key).perform w).2
  | .delete key => ((t.delete c key).perform w).2

variable {t c}

theorem runs_assignAll (fields : List (String × Value)) (w : World σ Forest) :
    (assignAll r fields).Runs r c
      (fields.flatMap fun field => [.register field.1, .set field.1 field.2]) w := by
  induction fields generalizing w with
  | nil => exact .pure () w
  | cons field rest ih =>
    obtain ⟨path, x⟩ := field
    rw [assignAll, List.flatMap_cons, List.cons_append]
    have hregister : (r.register path).Runs r c [.register path] w := .serve rfl
    refine hregister.bind fun _ v _ => ?_
    have hset : (r.set path x).Runs r c [.set path x] v := .serve rfl
    exact hset.bind fun _ u _ => ih u

/-- What is within a call runs, and the call leaves its database and its log behind. -/
theorem within_isRun {f : Forest} {work : Action σ Forest α} {qs : List Request} {w : World σ τ}
    (h : work.Runs r c qs ⟨w.store, w.log, f⟩) :
    ∃ served, served <+: qs ∧ ((Action.within f work : Action σ τ α).perform w).2 =
      let v := r.after c served ⟨w.store, w.log, f⟩
      ⟨v.store, v.log, w.state⟩ := by
  obtain ⟨served, hserved, hv, -⟩ := h
  exact ⟨served, hserved, by rw [← hv]; rfl⟩

/-- **A call of a table is a run of its record**, of all its requests or of the first of them. -/
theorem call_isRun (t : Table) (c : Connector σ) (call : TableCall) (w : World σ τ) :
    ∃ served, served <+: call.requests ∧ t.afterCall c w call =
      let v := (t.opened call).1.after c served ⟨w.store, w.log, (t.opened call).2⟩
      ⟨v.store, v.log, w.state⟩ := by
  cases call with
  | select paths key =>
    have hregister := Record.runs_registerAll (r := (t.opened (.select paths key)).1) (c := c) paths
      ⟨w.store, w.log, (t.opened (.select paths key)).2⟩
    exact within_isRun (hregister.bind fun _ v _ => Record.runs_getAll paths v)
  | save fields key =>
    have hassign := runs_assignAll (r := (t.opened (.save fields key)).1) (c := c) fields
      ⟨w.store, w.log, (t.opened (.save fields key)).2⟩
    exact within_isRun (hassign.bind fun _ v _ => .serve rfl)
  | delete key => exact within_isRun (.serve rfl)

end Table
end LinkedRows
