/-
# Calls with paths that cannot be read

A path that can be read can be registered from every record of every forest, as the brackets in it
hold paths to columns at every depth, and is found there afterwards.  So a call of a table stops at
the first path that cannot be read (`Path.firstFault`): the paths before it are registered, perhaps
with a value assigned, in a forest that the call drops, and nobody has been called.  If all paths
can be read, what is left to fail are statements, since the columns are registered and the record is
not deleted.
-/

import LinkedRows.Proofs.FieldOrder
import LinkedRows.Proofs.FoundPaths
import LinkedRows.Proofs.PathGrammar.Offender
import LinkedRows.Proofs.StatementFaults

namespace LinkedRows

open Forest

variable {σ τ α : Type} {c : Connector σ} {naming : Naming} {paths : List String} {e : Fault}

/-- The fault of the first of some paths that cannot be read. -/
def Path.firstFault (naming : Naming) : List String → Option Fault
  | [] => none
  | path :: rest =>
    match readColumn naming path with
    | .error e => some e
    | .ok _ => firstFault naming rest

namespace Path

theorem firstFault_cons_of_error {path : String} (h : readColumn naming path = .error e)
    (rest : List String) : firstFault naming (path :: rest) = some e := by rw [firstFault, h]

theorem firstFault_cons_of_ok {path : String} {p : Path} (h : readColumn naming path = .ok p)
    (rest : List String) : firstFault naming (path :: rest) = firstFault naming rest := by
  rw [firstFault, h]

theorem firstFault_eq_none_iff :
    firstFault naming paths = none ↔ ∀ path ∈ paths, ∃ p, readColumn naming path = .ok p := by
  induction paths with
  | nil => exact ⟨fun _ => nofun, fun _ => rfl⟩
  | cons path rest ih =>
    rw [List.forall_mem_cons]
    cases hread : readColumn naming path with
    | error e => simp [firstFault_cons_of_error hread]
    | ok p => simp [firstFault_cons_of_ok hread, ih]

/-- The fault is that of one of the paths, which is malformed. -/
theorem malformed_of_firstFault (h : firstFault naming paths = some e) :
    e.isMalformedPath = true ∧ ∃ path ∈ paths, readColumn naming path = .error e := by
  induction paths with
  | nil => cases h
  | cons path rest ih =>
    cases hread : readColumn naming path with
    | error fault =>
      rw [firstFault_cons_of_error hread] at h
      obtain rfl := Option.some.inj h
      obtain ⟨position, issue, -, rfl⟩ := read_eq_error hread
      exact ⟨rfl, path, List.mem_cons_self, hread⟩
    | ok p =>
      rw [firstFault_cons_of_ok hread] at h
      obtain ⟨he, other, hother, hfault⟩ := ih h
      exact ⟨he, other, List.mem_cons_of_mem _ hother, hfault⟩

end Path

/-- A path to a column that can be read registers, wherever it is, and is found then. -/
theorem Forest.registerColumn_of_read {path : String} {p : Path}
    (h : Path.readColumn naming path = .ok p) (n : NodeId) (f : Forest) :
    ∃ d g, (registerColumn n p).perform f = (.ok d, g) ∧
      (Operated f → f.HasNode n → g.lookupColumn? n p = some d) := by
  obtain ⟨hfits, hends⟩ := Path.linksFit_read h
  obtain ⟨d, g, hgrow, -⟩ := Path.finds_growColumn hfits (hends.2 rfl) n f
  have hrun : (registerColumn n p).perform f = (.ok d, g) := by
    rwa [registerColumn, if_pos (hends.2 rfl)]
  refine ⟨d, g, hrun, fun hf hn => ?_⟩
  have hfound := (registerColumn_spec hf.wellFormed p hn).2
  rw [hrun] at hfound
  exact hfound d rfl

/-- A path to a table that can be read registers, wherever it is, and is found then. -/
theorem Forest.registerTable_of_read {path : String} {p : Path}
    (h : Path.readTable naming path = .ok p) (n : NodeId) (f : Forest) :
    ∃ child g, (registerTable n p).perform f = (.ok child, g) ∧
      (Operated f → f.HasNode n → g.lookupTable? n p = some child) := by
  obtain ⟨hfits, hends⟩ := Path.linksFit_read h
  have hend : p.endsInColumn = false := Bool.eq_false_iff.2 fun h => nomatch hends.1 h
  obtain ⟨child, g, hrun, -⟩ := Path.finds_growTable hfits hend n f
  rw [registerTable_of_end hend]
  exact ⟨child, g, hrun, fun hf hn => lookupTable?_of_growTable hf.wellFormed hn hrun⟩

/-! ## Paths of one record -/

variable {r : Record} {w : World σ Forest}

theorem Record.perform_register_of_error {path : String} (h : r.columnPath path = .error e)
    (w : World σ Forest) : (r.register path).perform w = (.error e, w) := by
  rw [register, h]
  rfl

/-- Registering paths stops at the first one that cannot be read. -/
theorem Record.registerAll_refused (h : Path.firstFault r.options.naming paths = some e)
    (hf : WellFormed w.state) (hr : w.state.HasNode r.root) :
    ∃ g, (r.registerAll paths).perform w = (.error e, w.withState g) := by
  induction paths generalizing w with
  | nil => cases h
  | cons path rest ih =>
    cases hread : Path.readColumn r.options.naming path with
    | error fault =>
      rw [Path.firstFault_cons_of_error hread] at h
      obtain rfl := Option.some.inj h
      exact ⟨w.state, Action.perform_bind_error (perform_register_of_error hread w) _⟩
    | ok p =>
      rw [Path.firstFault_cons_of_ok hread] at h
      obtain ⟨d, g, hregister, hadds, -⟩ := register_adds hread hf hr
      obtain ⟨g', hrest⟩ := ih (w := w.withState g) h (hf.grows hadds.grows)
        ((hadds.grows.extends hf).hasNode hr)
      refine ⟨g', ?_⟩
      rw [registerAll, Action.perform_bind_ok hregister, Action.perform_bind_error hrest]
      rfl

/-- Assigning fields stops at the first path that cannot be read, or not at all.  Either way nobody
is called, and no record is deleted. -/
theorem Table.perform_assignAll (r : Record) (fields : List (String × Value))
    (hf : Intact w.state) (hr : w.state.HasNode r.root) :
    ∃ g, (assignAll r fields).perform w =
      ((Path.firstFault r.options.naming (fields.map Prod.fst)).elim (.ok ()) .error,
        w.withState g) ∧ Intact g := by
  induction fields generalizing w with
  | nil => exact ⟨w.state, rfl, hf⟩
  | cons field rest ih =>
    obtain ⟨path, x⟩ := field
    rw [List.map_cons, assignAll]
    cases hread : Path.readColumn r.options.naming path with
    | error e =>
      rw [Path.firstFault_cons_of_error hread]
      exact ⟨w.state,
        Action.perform_bind_error (Record.perform_register_of_error hread w) _, hf⟩
    | ok p =>
      rw [Path.firstFault_cons_of_ok hread]
      obtain ⟨d, g, hregister, hadds, hd⟩ := Record.register_adds hread hf.toWellFormed hr
      have hg : Intact g := hf.grows hadds.grows
      have hset := Record.perform_set (w := w.withState g) hread hg.toWellFormed hd x
      obtain ⟨h, hrest, hh⟩ := ih (w := w.withState (g.assign d x)) (hg.assign d x)
        (((forgets_assign g d x).shape.hasNode _).2
          ((hadds.grows.extends hf.toWellFormed).hasNode hr))
      rw [Action.perform_bind_ok hregister, Action.perform_bind_ok hset]
      exact ⟨h, hrest, hh⟩

/-! ## Calls -/

/-- A call refuses paths that cannot be read before it does anything, and registered columns do not
get lost on the way. -/
structure Table.RefusesUnreadable (t : Table) (paths : List String) (call : Action σ τ α)
    (w : World σ τ) : Prop where
  /-- A path is malformed exactly if one of them cannot be read. -/
  malformed_iff : (∃ e v, call.perform w = (.error e, v) ∧ e.isMalformedPath = true) ↔
    ∃ path ∈ paths, ∃ e, Path.readColumn t.options.naming path = .error e
  /-- Then nothing has happened, and the fault is that of the first such path. -/
  untouched {e : Fault} {v : World σ τ} : call.perform w = (.error e, v) →
    e.isMalformedPath = true → v = w ∧ Path.firstFault t.options.naming paths = some e
  /-- No column is unknown, and no row is missing. -/
  others {e : Fault} {v : World σ τ} : call.perform w = (.error e, v) →
    e.isUnknownColumn = false ∧ e.isNotSaved = false

namespace Table

variable {t : Table} {w : World σ τ}

/-- A call ends as the work on its record does, and drops the record. -/
theorem perform_within {own : Forest} {a : Action σ Forest α} {result : Except Fault α}
    {v : World σ Forest} (h : a.perform ⟨w.store, w.log, own⟩ = (result, v)) :
    (Action.within own a : Action σ τ α).perform w = (result, ⟨v.store, v.log, w.state⟩) := by
  obtain rfl : _ = result := congrArg Prod.fst h
  obtain rfl : _ = v := congrArg Prod.snd h
  rfl

/-- A call refuses paths if the work on its record stops at the first one that cannot be read, with
nobody called, and fails in statements alone if there is none. -/
theorem refusesUnreadable_within {own : Forest} {a : Action σ Forest α}
    (hrefused : ∀ e, Path.firstFault t.options.naming paths = some e → ∃ g,
      a.perform ⟨w.store, w.log, own⟩ =
        (.error e, (⟨w.store, w.log, own⟩ : World σ Forest).withState g))
    (hserved : Path.firstFault t.options.naming paths = none → ∀ e v,
      a.perform ⟨w.store, w.log, own⟩ = (.error e, v) → e.isOfStatement = true) :
    t.RefusesUnreadable paths (Action.within own a) w := by
  cases hfirst : Path.firstFault t.options.naming paths with
  | some fault =>
    obtain ⟨hmalformed, path, hpath, hread⟩ := Path.malformed_of_firstFault hfirst
    obtain ⟨g, hrun⟩ := hrefused fault hfirst
    have hcall : (Action.within own a : Action σ τ α).perform w = (.error fault, w) :=
      perform_within hrun
    refine ⟨⟨fun _ => ⟨path, hpath, fault, hread⟩, fun _ => ⟨fault, w, hcall, hmalformed⟩⟩, ?_, ?_⟩
    · intro e v h _
      obtain ⟨hfault, rfl⟩ := Prod.mk.inj (hcall.symm.trans h)
      exact ⟨rfl, hfirst.trans (congrArg some (Except.error.inj hfault))⟩
    · intro e v h
      obtain ⟨hfault, -⟩ := Prod.mk.inj (hcall.symm.trans h)
      obtain rfl := Except.error.inj hfault
      exact Fault.kinds_of_isMalformedPath hmalformed
  | none =>
    have hstatement : ∀ e v, (Action.within own a : Action σ τ α).perform w = (.error e, v) →
        e.isOfStatement = true := fun e v h =>
      hserved hfirst e _ (Prod.ext (Prod.mk.inj h).1 rfl)
    have hwell : ∀ e v, (Action.within own a : Action σ τ α).perform w = (.error e, v) →
        e.isMalformedPath ≠ true := fun e v h =>
      Bool.eq_false_iff.1 (Fault.kinds_of_isOfStatement (hstatement e v h)).1
    refine ⟨⟨?_, ?_⟩, fun h he => absurd he (hwell _ _ h),
      fun h => (Fault.kinds_of_isOfStatement (hstatement _ _ h)).2⟩
    · rintro ⟨e, v, h, he⟩
      exact absurd he (hwell e v h)
    · rintro ⟨path, hpath, e, hread⟩
      obtain ⟨p, hp⟩ := Path.firstFault_eq_none_iff.1 hfirst path hpath
      exact absurd (hread.symm.trans hp) nofun

theorem select_refusesUnreadable (hc : c.ReportsFailures) (t : Table) (paths : List String)
    (key : TableKey) (w : World σ τ) : t.RefusesUnreadable paths (t.select c paths key) w := by
  set opened := Record.create t.name key.name (some key.value) t.options with hopened
  have hf : WellFormed opened.2 := (Intact.empty.addRoot _ _ _).toWellFormed
  have hr : opened.2.HasNode opened.1.root := Nat.zero_lt_one
  have hselect : t.select (τ := τ) c paths key = Action.within opened.2
      (opened.1.registerAll paths >>= fun _ => opened.1.getAll c paths) := rfl
  rw [hselect]
  refine refusesUnreadable_within (fun e he => ?_) fun hnone e v h => ?_
  · obtain ⟨g, hregister⟩ := Record.registerAll_refused (r := opened.1)
      (w := ⟨w.store, w.log, opened.2⟩) he hf hr
    exact ⟨g, Action.perform_bind_error hregister _⟩
  · have hreadable := Path.firstFault_eq_none_iff.1 hnone
    obtain ⟨cells, g, hregister, hgrows, hcells⟩ := Record.exists_registerAll (r := opened.1)
      (w := ⟨w.store, w.log, opened.2⟩) hreadable hf hr
    have hg : WellFormed g := hf.grows hgrows
    rw [Action.perform_bind_ok hregister] at h
    refine Record.isOfStatement_of_getAll hc hg ((hgrows.extends hf).hasNode hr)
      (fun path hpath => ?_) h
    obtain ⟨p, hp⟩ := hreadable path hpath
    have hmem : g.column? opened.1.root (opened.1.chain path) ∈ cells.map some := by
      rw [hcells]
      exact List.mem_map_of_mem (List.mem_map_of_mem hpath)
    obtain ⟨d, -, hd⟩ := List.mem_map.1 hmem
    obtain ⟨hfits, hends⟩ := Path.linksFit_read hp
    refine ⟨p, d, hp, ?_⟩
    rw [World.withState, lookupColumn?_eq hg hfits (hends.2 rfl),
      ← Record.chain_eq (r := opened.1) hp, ← hd]

theorem save_refusesUnreadable (hc : c.ReportsFailures) (t : Table)
    (fields : List (String × Value)) (key : Option TableKey) (w : World σ τ) :
    t.RefusesUnreadable (fields.map Prod.fst) (t.save c fields key) w := by
  set opened := Record.create t.name (key.bind (·.name)) (key.map (·.value)) t.options with hopened
  have hf : Intact opened.2 := Intact.empty.addRoot _ _ _
  have hr : opened.2.HasNode opened.1.root := Nat.zero_lt_one
  have hsave : t.save (τ := τ) c fields key = Action.within opened.2
      (assignAll opened.1 fields >>= fun _ => opened.1.save c) := rfl
  rw [hsave]
  obtain ⟨g, hassign, hg⟩ :=
    perform_assignAll (w := ⟨w.store, w.log, opened.2⟩) opened.1 fields hf hr
  have hoptions : opened.1.options = t.options := rfl
  rw [hoptions] at hassign
  refine refusesUnreadable_within (fun e he => ?_) fun hnone e v h => ?_
  · rw [he] at hassign
    exact ⟨g, Action.perform_bind_error hassign _⟩
  · rw [hnone] at hassign
    rw [Action.perform_bind_ok hassign, Record.save] at h
    rcases Action.perform_bind_eq_error.1 h with h | ⟨_, _, -, h⟩
    · exact isOfStatement_of_save hc (hg.undeleted _) h
    · cases h

/-- **Bad calls never reach the database.**  A path that can be read registers on every record of
every forest, and looking it up finds what it was registered as.  So a call of a table fails with a
malformed path exactly if one of its paths cannot be read, whatever stands before or after it, and
then nothing at all has happened; and if the connector reports its failures as what they are, no
call finds a column unknown or a row missing. -/
theorem refuses_unreadable_paths (hc : c.ReportsFailures) :
    (∀ (naming : Naming) (path : String) (p : Path) (n : NodeId) (f : Forest),
      (Path.readColumn naming path = .ok p →
        ∃ d g, (registerColumn n p).perform f = (.ok d, g) ∧
          (Operated f → f.HasNode n → g.lookupColumn? n p = some d)) ∧
      (Path.readTable naming path = .ok p →
        ∃ child g, (registerTable n p).perform f = (.ok child, g) ∧
          (Operated f → f.HasNode n → g.lookupTable? n p = some child))) ∧
    ∀ (t : Table) (w : World σ τ),
      (∀ paths key, t.RefusesUnreadable paths (t.select c paths key) w) ∧
      ∀ fields : List (String × Value),
        t.RefusesUnreadable (fields.map Prod.fst) (t.insert c fields) w ∧
        (∀ key, t.RefusesUnreadable (fields.map Prod.fst) (t.update c fields key) w) ∧
        ∀ key, t.RefusesUnreadable (fields.map Prod.fst) (t.save c fields key) w :=
  ⟨fun _ _ _ n f => ⟨(registerColumn_of_read · n f), (registerTable_of_read · n f)⟩,
    fun t w => ⟨fun paths key => select_refusesUnreadable hc t paths key w,
      fun fields => ⟨save_refusesUnreadable hc t fields none w,
        fun key => save_refusesUnreadable hc t fields (some key) w,
        fun key => save_refusesUnreadable hc t fields key w⟩⟩⟩

/-- A path without its closing bracket, between two that can be read: the row is not inserted, and
no statement is issued. -/
theorem refuses_unreadable_paths_unclosed :
    let c := Script.connector .sqlite
    let fields := [("title", .text "A"), ("table1[", .int 1), ("name", .text "B")]
    let w : World Script Unit := ⟨Script.empty, [], ()⟩
    c.ReportsFailures ∧ ∃ e, e.isMalformedPath = true ∧
      (Table.insert ⟨"table0", .standard⟩ c fields).perform w = (.error e, w) := by
  intro c fields w
  have hrefuses :=
    (((refuses_unreadable_paths (Script.reportsFailures .sqlite)).2 ⟨"table0", .standard⟩ w).2
      fields).1
  obtain ⟨e, v, hrun, he⟩ := hrefuses.malformed_iff.2 ⟨"table1[", by simp [fields], _, rfl⟩
  obtain ⟨rfl, -⟩ := hrefuses.untouched hrun he
  exact ⟨Script.reportsFailures .sqlite, e, he, hrun⟩

end Table
end LinkedRows
