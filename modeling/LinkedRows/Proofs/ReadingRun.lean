/-
# Runs that only read and save

A record that is opened, read and saved, with no column assigned and no row deleted, stays
untouched whatever the database answers, from one query to the next or at all.  What its saves do
is decided by the links: each save of the run succeeds without executing a statement exactly if the
record is settled when it begins (`reading_run_silent_iff`).

A save that is not settled is possible.  A record joined through a link keeps the key that it took
when the link was first read; if the link is read again and another process has changed it, the two
differ, and the save writes the old value back (`save_restores_old_link`).
-/

import LinkedRows.Proofs.Request
import LinkedRows.Proofs.SaveUnchanged

namespace LinkedRows

open Forest

namespace Record

variable {σ : Type} {r : Record} {c : Connector σ} {w v : World σ Forest}

/-! ## Saves of a run -/

/-- Saving the record succeeds and executes no statement. -/
def SavesSilently (r : Record) (c : Connector σ) (w : World σ Forest) : Prop :=
  ∃ key v, (r.save c).perform w = (.ok key, v) ∧ executed v.log = executed w.log

/-- A property of the world holds whenever a save of the run begins. -/
def AtSaves (r : Record) (c : Connector σ) (P : World σ Forest → Prop) (requests : List Request)
    (w : World σ Forest) : Prop :=
  ∀ earlier later, requests = earlier ++ .save :: later → P (r.after c earlier w)

theorem atSaves_nil (P : World σ Forest → Prop) (w : World σ Forest) : AtSaves r c P [] w :=
  fun earlier later h => by simp at h

theorem atSaves_cons {P : World σ Forest → Prop} {q : Request} {rest : List Request} :
    AtSaves r c P (q :: rest) w ↔ (q = .save → P w) ∧ AtSaves r c P rest (r.serve c w q) := by
  constructor
  · intro h
    refine ⟨fun hq => h [] rest (by rw [hq]; rfl), fun earlier later hrest => ?_⟩
    exact h (q :: earlier) later (by rw [hrest]; rfl)
  · rintro ⟨hsave, hrest⟩ earlier later h
    cases earlier with
    | nil => exact hsave (List.cons.inj h).1
    | cons q' earlier =>
      obtain ⟨rfl, hrestEq⟩ := List.cons.inj h
      exact hrest earlier later hrestEq

theorem savesSilently_iff (hf : Untouched w.state) (hr : w.state.HasNode r.root) :
    SavesSilently r c w ↔ w.state.Settled r.root := by
  rw [← save_unchanged_iff (c := c) hf hr]
  constructor
  · rintro ⟨key, v, hsave, hlog⟩
    rw [save, Action.perform_bind_eq_ok] at hsave
    obtain ⟨⟨⟩, u, hsave, hkey⟩ := hsave
    obtain ⟨-, rfl⟩ := Prod.mk.inj hkey
    exact ⟨_, hsave, hlog⟩
  · rintro ⟨v, hsave, hlog⟩
    exact ⟨_, v, Action.perform_bind_ok hsave _, hlog⟩

/-- After the save of a settled record the forest is untouched again. -/
theorem untouched_serve_save (hf : Untouched w.state) (hr : w.state.HasNode r.root)
    (h : w.state.Settled r.root) : Untouched (r.serve c w .save).state ∧
      (r.serve c w .save).state.HasNode r.root ∧
        executed (r.serve c w .save).log = executed w.log := by
  obtain ⟨g, hsave, hlearns⟩ := save_settled (c := c) hf hr h
  have hserve : r.serve c w .save = w.withState g := by
    rw [serve, save, Action.perform_bind_ok hsave]
    rfl
  rw [hserve]
  exact ⟨hf.learns hlearns, (hlearns.steady.shape.hasNode _).2 hr, rfl⟩

/-- From any untouched world on, the saves of a run are silent exactly if they begin settled. -/
theorem atSaves_silent_iff (requests : List Request)
    (hreads : ∀ q ∈ requests, q.isReading = true ∨ q = .save) (hf : Untouched w.state)
    (hr : w.state.HasNode r.root) :
    AtSaves r c (SavesSilently r c) requests w ↔
      AtSaves r c (fun v => v.state.Settled r.root) requests w := by
  induction requests generalizing w with
  | nil => exact ⟨fun _ => atSaves_nil _ w, fun _ => atSaves_nil _ w⟩
  | cons q rest ih =>
    have hrest := fun q hq => hreads q (List.mem_cons_of_mem _ hq)
    rw [atSaves_cons, atSaves_cons]
    rcases hreads q (List.mem_cons_self ..) with hq | rfl
    · have hbrowses := browses_serve (c := c) hf.toWellFormed hr hq
      rw [ih hrest (hbrowses.untouched hf) (hbrowses.hasNode hf.toWellFormed hr)]
      have hne : q ≠ .save := by
        rintro rfl
        exact Bool.false_ne_true hq
      simp [hne]
    · rw [savesSilently_iff hf hr]
      refine and_congr_right fun hsettled => ?_
      obtain ⟨hf', hr', -⟩ := untouched_serve_save (c := c) hf hr (hsettled rfl)
      exact ih hrest hf' hr'

/-- If all its saves begin settled, a run executes nothing. -/
theorem executed_after_of_settled (requests : List Request)
    (hreads : ∀ q ∈ requests, q.isReading = true ∨ q = .save) (hf : Untouched w.state)
    (hr : w.state.HasNode r.root)
    (h : AtSaves r c (fun v => v.state.Settled r.root) requests w) :
    executed (r.after c requests w).log = executed w.log := by
  induction requests generalizing w with
  | nil => rfl
  | cons q rest ih =>
    have hrest := fun q hq => hreads q (List.mem_cons_of_mem _ hq)
    obtain ⟨hsave, hlater⟩ := atSaves_cons.1 h
    rw [after_cons]
    rcases hreads q (List.mem_cons_self ..) with hq | rfl
    · have hbrowses := browses_serve (c := c) hf.toWellFormed hr hq
      rw [ih hrest (hbrowses.untouched hf) (hbrowses.hasNode hf.toWellFormed hr) hlater,
        hbrowses.onlyAsks.executed_eq]
    · obtain ⟨hf', hr', hlog⟩ := untouched_serve_save (c := c) hf hr (hsave rfl)
      rw [ih hrest hf' hr' hlater, hlog]

/-- A record that is opened, with the world that it starts in. -/
theorem untouched_create (table : String) (keyName : Option String) (key : Option Value)
    (options : Options) : Untouched (Record.create table keyName key options).2 ∧
      (Record.create table keyName key options).2.HasNode
        (Record.create table keyName key options).1.root :=
  ⟨Untouched.addRoot_empty _ _ _, Nat.zero_lt_one⟩

/-- **The saves of a run without changes are silent exactly if they begin settled.**  For every
connector, a record is opened and serves requests to register, read, fetch and save.  All its saves
succeed without executing a statement if and only if at the start of each of them the record has a
row, and every link at or below it holds the key of its child or the one its child would take; and
then the whole run executes nothing. -/
theorem reading_run_silent_iff (c : Connector σ) (store : σ) (table : String)
    (keyName : Option String) (key : Option Value) (options : Options) (requests : List Request)
    (hreads : ∀ q ∈ requests, q.isReading = true ∨ q = .save) :
    let r := (Record.create table keyName key options).1
    let w : World σ Forest := ⟨store, [], (Record.create table keyName key options).2⟩
    (AtSaves r c (SavesSilently r c) requests w ↔
        AtSaves r c (fun v => v.state.Settled r.root) requests w) ∧
      (AtSaves r c (fun v => v.state.Settled r.root) requests w →
        executed (r.after c requests w).log = []) := by
  intro r w
  obtain ⟨hf, hr⟩ := untouched_create table keyName key options
  exact ⟨atSaves_silent_iff requests hreads hf hr,
    executed_after_of_settled requests hreads hf hr⟩

/-! ## A link that stays and one that changes -/

/-- A database that answers each query with one value, which may depend on how many queries there
were before. -/
def answering (answer : Nat → Value) : Connector Nat where
  dialect := .sqlite
  query _ n := (.ok [⟨["table1_id"], [answer n]⟩], n + 1)
  execute _ n := (.ok 1, n)
  lastIdentifier n := (.ok .null, n)
  describe _ n := (.ok [], n)

/-- A record with a joined one is fetched twice and saved. -/
def fetchTwice : List Request := [.registerTable "table1", .fetch, .fetch, .save]

theorem reading_run_silent_constant :
    let opened := Record.create "table0" none (some (.int 1)) .standard
    let c := answering fun _ => .int 7
    executed (opened.1.after c fetchTwice ⟨0, [], opened.2⟩).log = [] := by
  intro opened c
  refine (reading_run_silent_iff c 0 "table0" none (some (.int 1)) .standard fetchTwice
    (by decide)).2 ?_
  simp only [fetchTwice, atSaves_cons]
  refine ⟨nofun, nofun, nofun, fun _ => ?_, atSaves_nil _ _⟩
  decide +kernel

/-- The link is read as 7, then as 9, and the save writes the 7 back. -/
theorem save_restores_old_link :
    let opened := Record.create "table0" none (some (.int 1)) .standard
    let c := answering fun n => if n = 0 then .int 7 else .int 9
    executed (opened.1.after c fetchTwice ⟨0, [], opened.2⟩).log =
      [⟨"UPDATE \"table0\" SET \"table1_id\" = 7 WHERE \"id\" = 1", []⟩] := by
  decide +kernel

end Record
end LinkedRows
