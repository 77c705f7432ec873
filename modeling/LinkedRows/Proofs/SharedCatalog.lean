/-
# A catalog shared by many callers

Any number of callers may load schemas through one catalog at the same time.  The catalog is only
locked while a load looks its table up and while it keeps what the connector described, not while
the connector is at work.  So a load is a sequence of events (it looks its table up, asks the
connector, is answered, and keeps the answer), and anything may come between two of them: events of
other loads, or a caller who forgets a table or clears the catalog.  Nothing is assumed about the
answers; each may be another one, and may be a fault.

`Next` says what each event does, by the steps that `Catalog.load` itself takes one after the other
(`lookUp`, `Stage.answered` and `keep`), and `Runs` are the interleavings.  A load that nobody
interrupts does what `Catalog.load` does (`runs_load`).

All that is said about interleavings rests on four facts about one event: how it may change the
entry of a table (`Next.entry_cases`), that a load which succeeds ends with the entry of its table
(`Next.returned`), that a load which has come to its end stays as it is (`Next.done`), and that
entries and descriptions stay in order (`Next.sound`).
-/

import LinkedRows.Catalog
import LinkedRows.Proofs.Action
import Mathlib.Data.List.Nodup
import Mathlib.Data.Set.Finite.Basic
import Mathlib.Logic.Function.Basic

namespace LinkedRows

namespace Schema

/-- What a connector's reply says about a table: a fault, also if it names no columns, or its
schema. -/
def ofReply (table : String) (reply : Except Fault (List ColumnShape)) : Except Fault Schema :=
  reply.bind (ofColumns table)

theorem table_of_ofReply {table : String} {reply : Except Fault (List ColumnShape)} {s : Schema}
    (h : ofReply table reply = .ok s) : s.table = table := by
  cases reply with
  | error f => cases h
  | ok columns =>
    cases columns with
    | nil => cases h
    | cons column rest =>
      cases h
      rfl

end Schema

namespace Catalog

/-! ## What a catalog holds -/

section

variable {catalog : Catalog} {s : Schema} {t table : String}

/-- The tables that have an entry. -/
def tables (catalog : Catalog) : List String := catalog.schemas.map (·.table)

theorem mem_tables_iff : t ∈ catalog.tables ↔ ∃ s, catalog.find? t = some s := by
  rw [← Option.isSome_iff_exists, find?, List.find?_isSome, tables, List.mem_map]
  simp only [beq_iff_eq]

theorem keep_of_some {kept : Schema} (h : catalog.find? s.table = some kept) :
    catalog.keep s = (kept, catalog) := by rw [keep, h]

theorem keep_of_none (h : catalog.find? s.table = none) :
    catalog.keep s = (s, ⟨catalog.schemas ++ [s]⟩) := by rw [keep, h]

/-- After a schema was kept, its table has the entry that keeping it resulted in, and no other
table's entry has changed. -/
theorem find?_keep (catalog : Catalog) (s : Schema) (t : String) : (catalog.keep s).2.find? t =
    if t = s.table then some (catalog.keep s).1 else catalog.find? t := by
  cases h : catalog.find? s.table with
  | some kept =>
    rw [keep_of_some h]
    split
    · rename_i ht
      rw [ht, h]
    · rfl
  | none =>
    rw [keep_of_none h]
    unfold find? at h ⊢
    split
    · rename_i ht
      rw [ht, List.find?_append, h]
      simp
    · rename_i ht
      have hne : ¬(s.table == t) = true := fun h => ht (beq_iff_eq.1 h).symm
      rw [List.find?_append, List.find?_singleton, if_neg hne, Option.or_none]

theorem nodup_keep (h : catalog.tables.Nodup) (s : Schema) : (catalog.keep s).2.tables.Nodup := by
  cases hs : catalog.find? s.table with
  | some kept => rwa [keep_of_some hs]
  | none =>
    have hnew : s.table ∉ catalog.tables := fun hmem => by
      obtain ⟨kept, hkept⟩ := mem_tables_iff.1 hmem
      rw [hs] at hkept
      cases hkept
    rw [keep_of_none hs, tables, List.map_append, List.map_singleton]
    exact List.nodup_append'.2 ⟨h, List.nodup_singleton _, List.disjoint_singleton.2 hnew⟩

theorem find?_forget (catalog : Catalog) (table t : String) :
    (catalog.forget table).find? t = if t = table then none else catalog.find? t := by
  unfold find? forget
  rw [List.find?_filter]
  split
  · rename_i ht
    rw [ht]
    simp
  · rename_i ht
    congr 1
    funext s
    by_cases hs : s.table = t
    · simp [hs, ht]
    · simp [hs]

theorem nodup_forget (h : catalog.tables.Nodup) (table : String) :
    (catalog.forget table).tables.Nodup :=
  h.sublist (List.filter_sublist.map _)

end

/-! ## Stages of a load -/

section

variable {catalog : Catalog} {s : Schema} {t : String} {answer : Except Fault Schema}

theorem lookUp_of_some (h : catalog.find? t = some s) : catalog.lookUp t = .done (.ok s) := by
  rw [lookUp, h]

theorem lookUp_of_none (h : catalog.find? t = none) : catalog.lookUp t = .missed := by
  rw [lookUp, h]

theorem lookUp_eq_done : catalog.lookUp t = .done (.ok s) ↔ catalog.find? t = some s := by
  cases h : catalog.find? t with
  | some kept => simp [lookUp_of_some h]
  | none => simp [lookUp_of_none h]

theorem lookUp_ne_asking : catalog.lookUp t ≠ .asking := by
  cases h : catalog.find? t with
  | some kept => simp [lookUp_of_some h]
  | none => simp [lookUp_of_none h]

theorem lookUp_ne_described : catalog.lookUp t ≠ .described s := by
  cases h : catalog.find? t with
  | some kept => simp [lookUp_of_some h]
  | none => simp [lookUp_of_none h]

theorem Stage.answered_eq_described : answered answer = .described s ↔ answer = .ok s := by
  cases answer <;> simp [answered]

theorem Stage.answered_ne_asking : answered answer ≠ asking := by
  cases answer <;> exact nofun

theorem Stage.answered_ne_done_ok : answered answer ≠ .done (.ok s) := by
  cases answer <;> exact nofun

end

/-! ## Events -/

/-- A load of a table. -/
structure Load where
  table : String
  stage : Stage

/-- A catalog, and the loads of it that have begun, by number. -/
structure Shared where
  catalog : Catalog
  loads : Nat → Option Load

/-- What can happen next: a load goes on, or a caller drops entries. -/
inductive Event where
  | lookUp (n : Nat) (table : String)
  | ask (n : Nat) (table : String)
  | answer (n : Nat) (table : String) (reply : Except Fault (List ColumnShape))
  | keep (n : Nat) (table : String)
  | forget (table : String)
  | clear

/-- An event that leaves a table without an entry. -/
def Event.Drops (t : String) : Event → Prop
  | .forget table => table = t
  | .clear => True
  | _ => False

namespace Shared

/-- An empty catalog that nobody has used. -/
def start : Shared := ⟨Catalog.empty, fun _ => none⟩

/-- Sets how far a load has come. -/
def put (S : Shared) (n : Nat) (table : String) (stage : Stage) : Shared :=
  { S with loads := Function.update S.loads n (some ⟨table, stage⟩) }

@[simp] theorem catalog_put (S : Shared) (n : Nat) (table : String) (stage : Stage) :
    (S.put n table stage).catalog = S.catalog := rfl

@[simp] theorem loads_put_self (S : Shared) (n : Nat) (table : String) (stage : Stage) :
    (S.put n table stage).loads n = some ⟨table, stage⟩ := Function.update_self ..

theorem loads_put (S : Shared) (n : Nat) (table : String) (stage : Stage) (m : Nat) :
    (S.put n table stage).loads m = if m = n then some ⟨table, stage⟩ else S.loads m :=
  Function.update_apply ..

theorem loads_put_cases {S : Shared} {n m : Nat} {table t : String} {stage later : Stage}
    (h : (S.put n table stage).loads m = some ⟨t, later⟩) :
    (m = n ∧ table = t ∧ stage = later) ∨ S.loads m = some ⟨t, later⟩ := by
  rw [loads_put] at h
  split at h
  · cases h
    exact Or.inl ⟨‹_›, rfl, rfl⟩
  · exact Or.inr h

@[simp] theorem put_put (S : Shared) (n : Nat) (table : String) (stage later : Stage) :
    (S.put n table stage).put n table later = S.put n table later := by
  rw [put, put, put, Function.update_idem]

end Shared

/-- What an event does. -/
inductive Next (S : Shared) : Event → Shared → Prop
  | lookUp {n : Nat} {t : String} : S.loads n = none →
      Next S (.lookUp n t) (S.put n t (S.catalog.lookUp t))
  | ask {n : Nat} {t : String} : S.loads n = some ⟨t, .missed⟩ →
      Next S (.ask n t) (S.put n t .asking)
  | answer {n : Nat} {t : String} {reply : Except Fault (List ColumnShape)} :
      S.loads n = some ⟨t, .asking⟩ →
      Next S (.answer n t reply) (S.put n t (.answered (Schema.ofReply t reply)))
  | keep {n : Nat} {t : String} {s : Schema} : S.loads n = some ⟨t, .described s⟩ →
      Next S (.keep n t) { S.put n t (.done (.ok (S.catalog.keep s).1)) with
        catalog := (S.catalog.keep s).2 }
  | forget {table : String} : Next S (.forget table) ⟨S.catalog.forget table, S.loads⟩
  | clear : Next S .clear ⟨Catalog.empty, S.loads⟩

/-- Events one after the other. -/
inductive Runs : Shared → List Event → Shared → Prop
  | nil {S : Shared} : Runs S [] S
  | cons {S M S' : Shared} {event : Event} {events : List Event} :
      Next S event M → Runs M events S' → Runs S (event :: events) S'

/-- A load ended between the two states, with this schema for its table. -/
def Returned (S S' : Shared) (n : Nat) (t : String) (s : Schema) : Prop :=
  S'.loads n = some ⟨t, .done (.ok s)⟩ ∧ S.loads n ≠ some ⟨t, .done (.ok s)⟩

/-! ## What one event changes -/

variable {S M S' : Shared} {event : Event} {events : List Event} {n : Nat} {t : String}

/-- No table has two entries, descriptions are of the tables that they are loaded for, and only so
many loads have begun. -/
structure Sound (S : Shared) : Prop where
  nodup : S.catalog.tables.Nodup
  table {n : Nat} {t : String} {s : Schema} : S.loads n = some ⟨t, .described s⟩ → s.table = t
  finite : {n | S.loads n ≠ none}.Finite

theorem sound_start : Sound .start where
  nodup := List.nodup_nil
  table := nofun
  finite := Set.finite_empty.subset fun _ hn => hn rfl

theorem Sound.put {stage : Stage} (hS : Sound S) (h : ∀ s, stage = .described s → s.table = t) :
    Sound (S.put n t stage) where
  nodup := hS.nodup
  table {m t' s} hm := by
    rcases Shared.loads_put_cases hm with ⟨-, rfl, hs⟩ | hm
    · exact h s hs
    · exact hS.table hm
  finite := (hS.finite.insert n).subset fun m hm => by
    change (S.put n t stage).loads m ≠ none at hm
    rw [Shared.loads_put] at hm
    split at hm
    · exact Or.inl ‹_›
    · exact Or.inr hm

theorem Next.sound (h : Next S event S') (hS : Sound S) : Sound S' := by
  cases h with
  | lookUp => exact hS.put fun _ he => absurd he lookUp_ne_described
  | ask => exact hS.put fun _ he => nomatch he
  | answer =>
    exact hS.put fun _ he => Schema.table_of_ofReply (Stage.answered_eq_described.1 he)
  | @keep n t s =>
    have hput : Sound (S.put n t (.done (.ok (S.catalog.keep s).1))) :=
      hS.put fun _ he => nomatch he
    exact ⟨nodup_keep hS.nodup s, hput.table, hput.finite⟩
  | forget => exact ⟨nodup_forget hS.nodup _, hS.table, hS.finite⟩
  | clear => exact ⟨List.nodup_nil, hS.table, hS.finite⟩

/-- An event leaves the entry of a table, drops it, or is the one in which a load keeps what it has
for a table that has no entry. -/
theorem Next.entry_cases (h : Next S event S') (hS : Sound S) (t : String) :
    S'.catalog.find? t = S.catalog.find? t ∨ event.Drops t ∧ S'.catalog.find? t = none ∨
      ∃ n s, event = .keep n t ∧ S.loads n = some ⟨t, .described s⟩ ∧
        S.catalog.find? t = none ∧ S'.catalog.find? t = some s := by
  cases h with
  | lookUp | ask | answer => exact Or.inl rfl
  | @keep n table s hn =>
    obtain rfl := hS.table hn
    rw [find?_keep]
    by_cases ht : t = s.table
    · subst ht
      rw [if_pos rfl]
      cases hfind : S.catalog.find? s.table with
      | some kept => exact Or.inl (by rw [keep_of_some hfind])
      | none => exact Or.inr (Or.inr ⟨n, s, rfl, hn, rfl, by rw [keep_of_none hfind]⟩)
    · exact Or.inl (if_neg ht)
  | @forget table =>
    rw [find?_forget]
    by_cases ht : t = table
    · exact Or.inr (Or.inl ⟨ht.symm, if_pos ht⟩)
    · exact Or.inl (if_neg ht)
  | clear => exact Or.inr (Or.inl ⟨trivial, rfl⟩)

/-- A load that succeeds ends with the entry of its table. -/
theorem Next.returned {s : Schema} (h : Next S event S') (hS : Sound S)
    (hret : Returned S S' n t s) : S'.catalog.find? t = some s := by
  obtain ⟨hdone, hbefore⟩ := hret
  have key {m : Nat} {table : String} {stage : Stage}
      (hput : (S.put m table stage).loads n = some ⟨t, .done (.ok s)⟩) :
      n = m ∧ table = t ∧ stage = .done (.ok s) :=
    (Shared.loads_put_cases hput).resolve_right hbefore
  cases h with
  | lookUp =>
    obtain ⟨-, rfl, hstage⟩ := key hdone
    exact lookUp_eq_done.1 hstage
  | ask =>
    obtain ⟨-, -, hstage⟩ := key hdone
    cases hstage
  | answer =>
    obtain ⟨-, -, hstage⟩ := key hdone
    exact absurd hstage Stage.answered_ne_done_ok
  | @keep m table kept hm =>
    obtain ⟨-, rfl, hstage⟩ := key hdone
    cases hstage
    obtain rfl := hS.table hm
    rw [find?_keep, if_pos rfl]
  | forget | clear => exact absurd hdone hbefore

/-- A load that has come to its end stays as it is. -/
theorem Next.done {result : Except Fault Schema} (h : Next S event S')
    (hn : S.loads n = some ⟨t, .done result⟩) : S'.loads n = some ⟨t, .done result⟩ := by
  have key {m : Nat} {table : String} {stage : Stage} (hm : S.loads m ≠ S.loads n) :
      (S.put m table stage).loads n = some ⟨t, .done result⟩ := by
    rw [Shared.loads_put, if_neg fun he => hm (by rw [he]), hn]
  cases h with
  | lookUp hm | ask hm | answer hm | keep hm =>
    exact key (by rw [hm, hn]; nofun)
  | forget | clear => exact hn

/-! ## Runs -/

/-- What each of the events preserves, all of them do. -/
theorem Runs.preserves {P : Shared → Prop} (h : Runs S events S')
    (hstep : ∀ {M event M'}, event ∈ events → Next M event M' → P M → P M') (hP : P S) : P S' := by
  induction h with
  | nil => exact hP
  | cons hnext _ ih =>
    exact ih (fun hmem => hstep (List.mem_cons_of_mem _ hmem))
      (hstep (List.mem_cons_self ..) hnext hP)

theorem Runs.sound (h : Runs S events S') (hS : Sound S) : Sound S' :=
  h.preserves (fun _ hnext hM => hnext.sound hM) hS

theorem Runs.done {result : Except Fault Schema} (h : Runs S events S')
    (hn : S.loads n = some ⟨t, .done result⟩) : S'.loads n = some ⟨t, .done result⟩ :=
  h.preserves (fun _ hnext hM => hnext.done hM) hn

/-- Each of the events happens in some state, and the others follow. -/
theorem Runs.exists_next (h : Runs S events S') (hS : Sound S) (hmem : event ∈ events) :
    ∃ M M' later, Sound M ∧ Next M event M' ∧ Runs M' later S' := by
  induction h with
  | nil => exact absurd hmem List.not_mem_nil
  | cons hnext hruns ih =>
    rcases List.mem_cons.1 hmem with rfl | hmem
    · exact ⟨_, _, _, hS, hnext, hruns⟩
    · exact ih (hnext.sound hS) hmem

/-! ## A load without interruption -/

theorem perform_schema {σ τ : Type} (c : Connector σ) (table : String) (w : World σ τ) :
    (c.schema table : Action σ τ Schema).perform w =
      (Schema.ofReply table (c.describe table w.store).1,
        { w with store := (c.describe table w.store).2,
                 log := w.log ++ [.describe table (c.describe table w.store).1] }) := by
  rw [Connector.schema, Action.perform_bind, Connector.columns, Action.perform_call]
  cases (c.describe table w.store).1 with
  | error f => rfl
  | ok columns => exact Action.perform_ofExcept _ _

/-- What is left of a load that was answered: a description is kept. -/
theorem runs_answered {σ : Type} (c : Connector σ) (table : String) (w : World σ Catalog)
    (loads : Nat → Option Load) (n : Nat) (answer : Except Fault Schema) :
    ∃ events, events <+: [.keep n table] ∧
      Runs (Shared.put ⟨w.state, loads⟩ n table (.answered answer)) events
        (Shared.put ⟨((finish c table (.answered answer)).perform w).2.state, loads⟩ n table
          (.done ((finish c table (.answered answer)).perform w).1)) := by
  cases answer with
  | error f =>
    rw [Stage.answered, finish, Action.perform_ofExcept]
    exact ⟨[], List.nil_prefix, .nil⟩
  | ok s =>
    have hfinish : (finish c table (.answered (.ok s))).perform w =
        (.ok (w.state.keep s).1, { w with state := (w.state.keep s).2 }) := by
      simp only [Stage.answered, finish]
      rfl
    have hkeep := Next.keep (Shared.loads_put_self ⟨w.state, loads⟩ n table (.described s))
    rw [Shared.put_put] at hkeep
    rw [hfinish]
    exact ⟨_, List.prefix_rfl, .cons hkeep .nil⟩

/-- **A load that nobody interrupts is `Catalog.load`.**  It takes the four events in a row, or as
many of them as it needs; the catalog is then what `Catalog.load` makes of it, and the load has its
result. -/
theorem runs_load {σ : Type} (c : Connector σ) (table : String) (w : World σ Catalog)
    {loads : Nat → Option Load} {n : Nat} (hn : loads n = none) :
    ∃ events, events <+: [.lookUp n table, .ask n table,
        .answer n table (c.describe table w.store).1, .keep n table] ∧
      Runs ⟨w.state, loads⟩ events (Shared.put ⟨((load c table).perform w).2.state, loads⟩ n table
        (.done ((load c table).perform w).1)) := by
  have hlookUp : Next ⟨w.state, loads⟩ (.lookUp n table) _ := .lookUp hn
  rw [load, Action.perform_state_bind]
  cases hfind : w.state.find? table with
  | some s =>
    rw [lookUp_of_some hfind] at hlookUp ⊢
    rw [finish, Action.perform_ofExcept]
    exact ⟨[.lookUp n table], ⟨_, rfl⟩, .cons hlookUp .nil⟩
  | none =>
    rw [lookUp_of_none hfind] at hlookUp ⊢
    have hask := Next.ask (Shared.loads_put_self ⟨w.state, loads⟩ n table .missed)
    have hanswer : Next _ (.answer n table (c.describe table w.store).1) _ :=
      .answer (Shared.loads_put_self ⟨w.state, loads⟩ n table .asking)
    rw [Shared.put_put] at hask hanswer
    rw [finish, finish, Action.perform_attempt_bind, perform_schema]
    obtain ⟨events, ⟨later, hevents⟩, hruns⟩ := runs_answered c table
      { w with store := (c.describe table w.store).2,
               log := w.log ++ [.describe table (c.describe table w.store).1] }
      loads n (Schema.ofReply table (c.describe table w.store).1)
    refine ⟨_, ⟨later, ?_⟩, .cons hlookUp (.cons hask (.cons hanswer hruns))⟩
    rw [← hevents]
    rfl

end Catalog
end LinkedRows
