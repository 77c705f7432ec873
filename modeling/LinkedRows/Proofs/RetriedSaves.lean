/-
# Saves that are tried again

A save that fails leaves behind what it did: some records were inserted, some links follow their
children, and other records are still new.  Saving again goes on from there, and must not insert a
record a second time.

It does not as long as the database reports an identifier after each insertion that it carries out
(`Connector.Identifies`): then a record that was inserted has a key from there on, and only a record
without one is inserted (`inserted_once`).
-/

import LinkedRows.Proofs.Sessions

namespace LinkedRows

open Forest

variable {σ : Type} {c : Connector σ} {w v : World σ Forest} {n : NodeId} {entries : List Entry}

/-- After each insertion that is carried out an identifier is reported, which is not null. -/
def Connector.Identifies (c : Connector σ) : Prop :=
  ∀ (table : String) (fields : List (String × Value)) (p : Prepared) (store : σ) (count : Nat),
    (Statement.insert table fields).prepare c.dialect = .ok p →
      (c.execute p store).1 = .ok count →
        ∃ key, (c.lastIdentifier (c.execute p store).2).1 = .ok key ∧ key.isNull = false

/-- A statement was carried out. -/
def Exchange.carriedOut : Exchange → Bool
  | .execute _ (.ok _) => true
  | _ => false

/-- The record that an errand inserts, once for each statement that was carried out. -/
def Entry.insertions (x : Entry) : List NodeId :=
  match x.errand with
  | .write (.insert n _ _ _) => (x.calls.filter Exchange.carriedOut).map fun _ => n
  | _ => []

/-- The calls of an insertion carry out no statement, or one, and then the record has a key. -/
theorem carriedOut_of_insert (hc : c.Identifies) (hf : WellFormed w.state) {table : String}
    {cells : List CellId} {fields : List (String × Value)} {calls : List Exchange}
    (hfits : (Write.insert n table cells fields).Fits w.state)
    (hcalls : ((Write.run c (.insert n table cells fields)).perform w).2.log = w.log ++ calls) :
    calls.filter Exchange.carriedOut = [] ∨ (∃ x, calls.filter Exchange.carriedOut = [x]) ∧
      ((Write.run c (.insert n table cells fields)).perform w).2.state.isNew n = false := by
  obtain ⟨hn, -, -, rfl⟩ := hfits
  obtain ⟨-, hlog | ⟨p, later, hp, hlog, hlater⟩⟩ :=
    run_spec c (.insert n table (w.state.pendingCells n) fields) w
  · rw [hcalls] at hlog
    exact Or.inl (by rw [List.append_right_eq_self.1 hlog]; rfl)
  · -- The first call executes the insertion, and the later ones execute nothing.
    obtain rfl := List.append_cancel_left (hcalls.symm.trans hlog)
    have hnone : later.filter Exchange.carriedOut = [] := List.filter_eq_nil_iff.2 fun x hx => by
      obtain ⟨reply, rfl⟩ := hlater x hx
      exact Bool.false_ne_true
    cases hreply : (c.execute p w.store).1 with
    | error e => exact Or.inl ((List.filter_cons_of_neg Bool.false_ne_true).trans hnone)
    | ok count =>
      refine Or.inr ⟨⟨_, (List.filter_cons_of_pos rfl).trans (by rw [hnone])⟩, ?_⟩
      obtain ⟨key, hkey, hnull⟩ := hc table fields p w.store count hp hreply
      rw [run_ok_iff.2 (Ran.insert hp hreply hkey hnull)]
      exact isNew_inserted hf hn key

/-- An errand inserts nothing, or one record, which was new before and has a key then. -/
theorem insertions_cases (hc : c.Identifies) (hf : WellFormed w.state) {errand : Errand}
    {calls : List Exchange} (hfits : errand.Fits w.state)
    (hcalls : ((errand.run c).perform w).2.log = w.log ++ calls) :
    Entry.insertions ⟨errand, w.state, calls⟩ = [] ∨
      ∃ n, Entry.insertions ⟨errand, w.state, calls⟩ = [n] ∧ w.state.HasNode n ∧
        w.state.isNew n = true ∧ ((errand.run c).perform w).2.state.isNew n = false := by
  cases errand with
  | read => exact Or.inl rfl
  | write write =>
    cases write with
    | update | delete => exact Or.inl rfl
    | insert n =>
      rcases carriedOut_of_insert hc hf hfits hcalls with hnone | ⟨⟨x, hone⟩, hnew⟩
      · exact Or.inl (congrArg (List.map _) hnone)
      · exact Or.inr ⟨n, congrArg (List.map _) hone, hfits.1, hfits.2.1, hnew⟩

/-- Records that were inserted are there and have keys, and none was inserted twice. -/
theorem nodup_insertions (hc : c.Identifies) (hf : WellFormed w.state)
    (h : Errands c Adjusts w entries v) : (entries.flatMap Entry.insertions).Nodup ∧
      ∀ n ∈ entries.flatMap Entry.insertions, v.state.HasNode n ∧ v.state.isNew n = false := by
  induction h with
  | refl => exact ⟨List.nodup_nil, nofun⟩
  | change h hchange ih =>
    have hretains := hchange.retains (h.retains hf).wellFormed
    exact ⟨ih.1, fun n hn =>
      ⟨hretains.hasNode (ih.2 n hn).1, hretains.isNew (ih.2 n hn).1 (ih.2 n hn).2⟩⟩
  | run h hfits hcalls ih =>
    have hwf := (h.retains hf).wellFormed
    have hretains := (hfits.retains (c := c) hwf).of_perform rfl
    have hkeeps := fun n hn => And.intro (hretains.hasNode (ih.2 n hn).1)
      (hretains.isNew (ih.2 n hn).1 (ih.2 n hn).2)
    rw [List.flatMap_append, List.flatMap_singleton]
    rcases insertions_cases hc hwf hfits hcalls with hnone | ⟨n, hone, hn, hnew, hkeyed⟩
    · rw [hnone, List.append_nil]
      exact ⟨ih.1, hkeeps⟩
    · rw [hone]
      refine ⟨List.nodup_append'.2 ⟨ih.1, List.nodup_singleton n, fun m hm hmn => ?_⟩,
        fun m hm => ?_⟩
      · -- A record that was inserted before is not new.
        obtain rfl := List.mem_singleton.1 hmn
        exact Bool.false_ne_true ((ih.2 m hm).2.symm.trans hnew)
      · rcases List.mem_append.1 hm with hm | hm
        · exact hkeeps m hm
        · obtain rfl := List.mem_singleton.1 hm
          exact ⟨hretains.hasNode hn, hkeyed⟩

/-- **Saves can be tried again without inserting a record twice.**  From any forest that operations
build, a session that assigns no column goes errand by errand, whatever statements fail; and if the
database reports an identifier after each insertion that it carries out, then over all these errands
at most one insertion of each record is carried out. -/
theorem inserted_once (hc : c.Identifies) {roots : List NodeId} (hrun : Run roots w.state)
    {demands : List Demand} (hquiet : ∀ demand ∈ demands, demand.assigns = false)
    (h : Session c w demands v) :
    (∃ entries, Errands c Adjusts w entries v) ∧
      ∀ entries, Errands c Adjusts w entries v →
        v.log = w.log ++ entries.flatMap Entry.calls ∧
          (entries.flatMap Entry.insertions).Nodup :=
  ⟨h.errands_of_quiet hrun.wellFormed hquiet, fun _ hentries =>
    ⟨hentries.log_eq, (nodup_insertions hc hrun.wellFormed hentries).1⟩⟩

/-! ### A save that fails half-way -/

/-- A database that refuses the second statement that it is to execute. -/
def Connector.stumbling : Connector Nat where
  dialect := .sqlite
  query _ n := (.ok [], n)
  execute _ n := (if n = 1 then .error (.connection ⟨"closed", none⟩) else .ok 1, n + 1)
  lastIdentifier n := (.ok (.int (Int64.ofNat n)), n)
  describe _ n := (.ok [], n)

/-- A new record with a title behind a link. -/
def newWithChild : List Operation :=
  [.addRoot "table0" "id" .null,
    .registerColumn ⟨0⟩ (.join "table1" "id" (.column "table1_id") (.column "title")),
    .assign ⟨3⟩ (.text "Seven")]

/-- The record is saved twice. -/
def savedTwice : List Demand := [.request ⟨⟨0⟩, .standard⟩ .save, .request ⟨⟨0⟩, .standard⟩ .save]

/-- The first save inserts the child and fails, and the second one inserts the record alone. -/
theorem inserted_once_retried :
    let c := Connector.stumbling
    let f := newWithChild.foldl Operation.result Forest.empty
    let v := savedTwice.foldl (Demand.after c) ⟨0, [], f⟩
    Run [⟨0⟩] f ∧ Session c ⟨0, [], f⟩ savedTwice v ∧
      (executed v.log).map Prepared.text = ["INSERT INTO \"table1\" (\"title\") VALUES ('Seven')",
        "INSERT INTO \"table0\" (\"table1_id\") VALUES (1)",
        "INSERT INTO \"table0\" (\"table1_id\") VALUES (1)"] ∧
      ∃ entries, Errands c Adjusts ⟨0, [], f⟩ entries v ∧ v.log = entries.flatMap Entry.calls ∧
        (entries.flatMap Entry.insertions).Nodup := by
  intro c f v
  have hroot := Run.empty.step (.addRoot "table0" "id" .null) trivial
  have hregistered := hroot.step (newWithChild[1]) (by decide)
  have hrun : Run [⟨0⟩] f := hregistered.step (newWithChild[2]) (by decide +kernel)
  have hfirst := (Session.start (c := c) (w := ⟨0, [], f⟩)).step (savedTwice[0])
    (by decide +kernel)
  have hsession : Session c ⟨0, [], f⟩ savedTwice v :=
    hfirst.step (savedTwice[1]) (by decide +kernel)
  have hidentifies : c.Identifies := fun _ _ _ _ _ _ _ => ⟨_, rfl, rfl⟩
  have hquiet : ∀ demand ∈ savedTwice, demand.assigns = false := by
    simp [savedTwice, Demand.assigns]
  obtain ⟨⟨entries, hentries⟩, hall⟩ := inserted_once hidentifies hrun hquiet hsession
  obtain ⟨hlog, hnodup⟩ := hall entries hentries
  exact ⟨hrun, hsession, by decide +kernel, entries, hentries, hlog, hnodup⟩

end LinkedRows
