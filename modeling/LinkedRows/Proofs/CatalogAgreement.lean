/-
# Callers of one catalog agree

Several loads may find a table missing, ask for it at the same time and be answered differently.  As
long as nobody drops the entry of the table, they all end with one schema: an entry that is there
stays (`Runs.kept`), so the load that keeps its description first decides (`Runs.firstKept`), and
every load that succeeds ends with the entry that is there at that moment (`Next.returned`).  A load
that was told of a fault, or of a table without columns, keeps nothing.

What happens to loads of other tables does not touch the entry.  So there are as many entries as
tables that had one before or were loaded since.
-/

import LinkedRows.Proofs.SharedCatalog
import Mathlib.Data.Finset.Card

namespace LinkedRows
namespace Catalog

variable {S M S' : Shared} {event : Event} {events : List Event} {n : Nat} {t : String} {s : Schema}

/-- An event that may change the entry of a table. -/
def Event.Changes (t : String) : Event → Prop
  | .keep _ table => table = t
  | .forget table => table = t
  | .clear => True
  | _ => False

/-- Of the events in which a load of the table keeps its description, the first is that of a load
with this one. -/
def FirstKept (S : Shared) (events : List Event) (t : String) (s : Schema) : Prop :=
  ∃ before n after M, events = before ++ .keep n t :: after ∧ (∀ m, .keep m t ∉ before) ∧
    Runs S before M ∧ M.loads n = some ⟨t, .described s⟩

/-! ## One event -/

theorem Next.kept (h : Next S event S') (hS : Sound S) (hdrop : ¬event.Drops t)
    (hs : S.catalog.find? t = some s) : S'.catalog.find? t = some s := by
  rcases h.entry_cases hS t with he | ⟨hdrops, -⟩ | ⟨_, _, -, -, hnone, -⟩
  · rw [he, hs]
  · exact absurd hdrops hdrop
  · rw [hs] at hnone
    cases hnone

/-- Keeping a description leaves the table with an entry, and ends the load. -/
theorem Next.kept_entry (h : Next S (.keep n t) S') (hS : Sound S) :
    ∃ s, S'.catalog.find? t = some s ∧ S'.loads n = some ⟨t, .done (.ok s)⟩ := by
  cases h with
  | @keep _ _ s hn =>
    obtain rfl := hS.table hn
    exact ⟨_, by rw [find?_keep, if_pos rfl], Shared.loads_put_self ..⟩

theorem Next.untouched (h : Next S event S') (hS : Sound S) (hchange : ¬event.Changes t) :
    S'.catalog.find? t = S.catalog.find? t := by
  rcases h.entry_cases hS t with he | ⟨hdrops, -⟩ | ⟨_, _, rfl, -⟩
  · exact he
  · refine absurd ?_ hchange
    cases event with
    | lookUp | ask | answer | keep => exact hdrops.elim
    | forget | clear => exact hdrops
  · exact absurd rfl hchange

/-! ## Runs -/

theorem Runs.kept (h : Runs S events S') (hS : Sound S)
    (hdrop : ∀ event ∈ events, ¬event.Drops t) (hs : S.catalog.find? t = some s) :
    S'.catalog.find? t = some s :=
  (h.preserves (P := fun M => Sound M ∧ M.catalog.find? t = some s)
    (fun hmem hnext ⟨hM, hs⟩ => ⟨hnext.sound hM, hnext.kept hM (hdrop _ hmem) hs⟩) ⟨hS, hs⟩).2

/-- The entry of a table stays as it is while none of the events may change it. -/
theorem Runs.untouched (h : Runs S events S') (hS : Sound S)
    (hchange : ∀ event ∈ events, ¬event.Changes t) :
    S'.catalog.find? t = S.catalog.find? t :=
  (h.preserves (P := fun M => Sound M ∧ M.catalog.find? t = S.catalog.find? t)
    (fun hmem hnext ⟨hM, he⟩ =>
      ⟨hnext.sound hM, (hnext.untouched hM (hchange _ hmem)).trans he⟩) ⟨hS, rfl⟩).2

theorem Runs.returned (h : Runs S events S') (hS : Sound S)
    (hdrop : ∀ event ∈ events, ¬event.Drops t) (hret : Returned S S' n t s) :
    S'.catalog.find? t = some s := by
  induction h with
  | nil => exact absurd hret.1 hret.2
  | @cons S M S' event events hnext hruns ih =>
    rw [List.forall_mem_cons] at hdrop
    by_cases hM : M.loads n = some ⟨t, .done (.ok s)⟩
    · exact hruns.kept (hnext.sound hS) hdrop.2 (hnext.returned hS ⟨hM, hret.2⟩)
    · exact ih (hnext.sound hS) hdrop.2 ⟨hret.1, hM⟩

/-- An entry that was not there is the description that was kept first. -/
theorem Runs.firstKept (h : Runs S events S') (hS : Sound S)
    (hdrop : ∀ event ∈ events, ¬event.Drops t) (hnone : S.catalog.find? t = none)
    (hs : S'.catalog.find? t = some s) : FirstKept S events t s := by
  induction h with
  | nil =>
    rw [hnone] at hs
    cases hs
  | @cons S M S' event events hnext hruns ih =>
    rw [List.forall_mem_cons] at hdrop
    have hM := hnext.sound hS
    rcases hnext.entry_cases hS t with he | ⟨hdrops, -⟩ | ⟨n, kept, rfl, hn, -, hentry⟩
    · have hstill : M.catalog.find? t = none := he.trans hnone
      obtain ⟨before, n, after, M', rfl, hbefore, hruns', hn⟩ := ih hM hdrop.2 hstill hs
      refine ⟨event :: before, n, after, M', rfl, fun m hm => ?_, .cons hnext hruns', hn⟩
      rcases List.mem_cons.1 hm with rfl | hm
      · obtain ⟨_, hentry, -⟩ := hnext.kept_entry hS
        rw [hstill] at hentry
        cases hentry
      · exact hbefore m hm
    · exact absurd hdrops hdrop.1
    · have hlast := hruns.kept hM hdrop.2 hentry
      obtain rfl := Option.some.inj (hs.symm.trans hlast)
      exact ⟨[], n, events, S, rfl, fun _ => List.not_mem_nil, .nil, hn⟩

/-- A load that was told of a fault ends with it. -/
theorem Runs.failed {reply : Except Fault (List ColumnShape)} {f : Fault} (h : Runs S events S')
    (hS : Sound S) (hanswer : .answer n t reply ∈ events) (hf : Schema.ofReply t reply = .error f) :
    S'.loads n = some ⟨t, .done (.error f)⟩ := by
  obtain ⟨M, M', later, -, hnext, hlater⟩ := h.exists_next hS hanswer
  refine hlater.done ?_
  cases hnext
  rw [hf]
  exact Shared.loads_put_self ..

/-- A load that has kept a description has succeeded. -/
theorem Runs.done_of_keep (h : Runs S events S') (hS : Sound S) (hkeep : .keep n t ∈ events) :
    ∃ s, S'.loads n = some ⟨t, .done (.ok s)⟩ := by
  obtain ⟨M, M', later, hM, hnext, hlater⟩ := h.exists_next hS hkeep
  obtain ⟨s, -, hs⟩ := hnext.kept_entry hM
  exact ⟨s, hlater.done hs⟩

theorem Sound.size_eq_card (hS : Sound S) {T : Finset String}
    (hT : ∀ t, t ∈ T ↔ ∃ s, S.catalog.find? t = some s) : S.catalog.size = T.card := by
  have hT : S.catalog.tables.toFinset = T := by
    ext t
    rw [List.mem_toFinset, mem_tables_iff, hT]
  rw [← hT, List.toFinset_card_of_nodup hS.nodup, tables, List.length_map, size]

/-- A table has an entry if it had one before, or a load of it has succeeded since. -/
theorem Runs.entry_iff (h : Runs S events S') (hS : Sound S)
    (hdrop : ∀ event ∈ events, ¬event.Drops t) : (∃ s, S'.catalog.find? t = some s) ↔
      (∃ s, S.catalog.find? t = some s) ∨ ∃ n s, Returned S S' n t s := by
  constructor
  · rintro ⟨s, hs⟩
    cases hbefore : S.catalog.find? t with
    | some kept => exact Or.inl ⟨kept, rfl⟩
    | none =>
      obtain ⟨before, n, after, M, rfl, -, hruns, hn⟩ := h.firstKept hS hdrop hbefore hs
      obtain ⟨kept, hkept⟩ := h.done_of_keep hS (n := n) (t := t) (by simp)
      refine Or.inr ⟨n, kept, hkept, fun hdone => ?_⟩
      rw [hruns.done hdone] at hn
      cases hn
  · rintro (⟨s, hs⟩ | ⟨n, s, hret⟩)
    · exact ⟨s, h.kept hS hdrop hs⟩
    · exact ⟨s, h.returned hS hdrop hret⟩

/-! ## Agreement -/

/-- What becomes of the entry of a table, and of the loads of it, while nobody drops the entry. -/
structure Agreed (S : Shared) (events : List Event) (S' : Shared) (t : String) : Prop where
  /-- All loads that succeed end with one schema, the entry. -/
  returned {n : Nat} {s : Schema} : Returned S S' n t s → S'.catalog.find? t = some s
  kept {s : Schema} : S.catalog.find? t = some s → S'.catalog.find? t = some s
  first {s : Schema} : S.catalog.find? t = none → S'.catalog.find? t = some s →
    FirstKept S events t s
  /-- A load that was told of a fault or of no columns ends with a fault and keeps nothing. -/
  failed {n : Nat} {reply : Except Fault (List ColumnShape)} {f : Fault} :
    .answer n t reply ∈ events → Schema.ofReply t reply = .error f →
      S'.loads n = some ⟨t, .done (.error f)⟩ ∧ .keep n t ∉ events

/-- **Callers agree**: in every interleaving of loads, from every state that can be reached. -/
theorem callers_agree {past : List Event} (hS : Runs .start past S) (h : Runs S events S') :
    (∀ t, (∀ event ∈ events, ¬event.Drops t) → Agreed S events S' t) ∧
      (∀ t, (∀ event ∈ events, ¬event.Changes t) → S'.catalog.find? t = S.catalog.find? t) ∧
      ((∀ event ∈ events, ∀ t, ¬event.Drops t) → ∀ T : Finset String,
        (∀ t, t ∈ T ↔ (∃ s, S.catalog.find? t = some s) ∨ ∃ n s, Returned S S' n t s) →
          S'.catalog.size = T.card) := by
  have hS := hS.sound sound_start
  refine ⟨fun t hdrop => ⟨h.returned hS hdrop, h.kept hS hdrop, h.firstKept hS hdrop, ?_⟩,
    fun t hchange => h.untouched hS hchange, fun hdrop T hT => ?_⟩
  · intro n reply f hanswer hf
    have hfailed := h.failed hS hanswer hf
    refine ⟨hfailed, fun hkeep => ?_⟩
    obtain ⟨s, hs⟩ := h.done_of_keep hS hkeep
    rw [hfailed] at hs
    cases hs
  · refine (h.sound hS).size_eq_card fun t => ?_
    rw [hT, h.entry_iff hS fun event hevent => hdrop event hevent t]

/-- Two loads of one table that overlap and are answered differently, and a load of a table that has
no columns. -/
def overlapping : List Event :=
  [.lookUp 0 "table1", .lookUp 1 "table1", .lookUp 2 "table2",
    .ask 0 "table1", .ask 1 "table1", .ask 2 "table2",
    .answer 0 "table1" (.ok [⟨"id", .null, true⟩]),
    .answer 1 "table1" (.ok [⟨"id", .null, true⟩, ⟨"title", .null, false⟩]),
    .answer 2 "table2" (.ok []),
    .keep 1 "table1", .keep 0 "table1"]

/-- The first load ends with what the second one was answered, since that was kept first.  The other
table has no entry. -/
theorem callers_agree_overlapping : ∃ S', Runs .start overlapping S' ∧
    Agreed .start overlapping S' "table1" ∧ Agreed .start overlapping S' "table2" ∧
    S'.catalog.find? "table3" = none ∧ S'.catalog.size = 1 ∧
    S'.loads 0 = some ⟨"table1", .done (.ok
      ⟨"table1", [⟨"id", .null, true⟩, ⟨"title", .null, false⟩]⟩)⟩ := by
  obtain ⟨S', hruns, hloads, hfirst⟩ : ∃ S', Runs .start overlapping S' ∧
      (∀ n t s, S'.loads n = some ⟨t, .done (.ok s)⟩ → t = "table1") ∧ S'.loads 0 = _ := by
    refine ⟨_, .cons (.lookUp rfl) <| .cons (.lookUp rfl) <| .cons (.lookUp rfl) <|
      .cons (.ask rfl) <| .cons (.ask rfl) <| .cons (.ask rfl) <| .cons (.answer rfl) <|
      .cons (.answer rfl) <| .cons (.answer rfl) <| .cons (.keep rfl) <|
      .cons (.keep rfl) .nil, fun n t s hn => ?_, rfl⟩
    match n, hn with
    | 0, rfl | 1, rfl => rfl
    | 2, hn | m + 3, hn => cases hn
  have hdrop : ∀ event ∈ overlapping, ∀ t, ¬event.Drops t := by simp [overlapping, Event.Drops]
  have hchange : ∀ event ∈ overlapping, ¬event.Changes "table3" := by
    simp [overlapping, Event.Changes]
  obtain ⟨hagreed, huntouched, hsize⟩ := callers_agree .nil hruns
  refine ⟨S', hruns, hagreed _ fun event hevent => hdrop event hevent _,
    hagreed _ fun event hevent => hdrop event hevent _, huntouched _ hchange,
    hsize hdrop {"table1"} fun t => ?_, hfirst⟩
  rw [Finset.mem_singleton]
  constructor
  · rintro rfl
    exact Or.inr ⟨0, _, hfirst, nofun⟩
  · rintro (⟨s, hs⟩ | ⟨n, s, hret⟩)
    · cases hs
    · exact hloads n t s hret.1

end Catalog
end LinkedRows
