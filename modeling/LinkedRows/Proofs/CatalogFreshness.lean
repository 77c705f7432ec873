/-
# What a load returns after its table was forgotten

A load that begins after its table was forgotten finds no entry at first, and yet it may return a
schema that was asked for earlier: the connector may have been at work for another load when the
table was forgotten, and what that load keeps afterwards is an entry like any other.  This is the
only way.  An entry that is there later was kept by a load that was in flight, or has asked, since
then (`Traced`), so forgetting a table is final if and only if no load of it is in flight.
-/

import LinkedRows.Proofs.SharedCatalog

namespace LinkedRows
namespace Catalog

variable {S₀ S M S' : Shared} {event : Event} {past events : List Event} {n k : Nat} {t : String}
  {s : Schema}

/-- The connector is describing the table for a load, or has described it and the load has not kept
the description yet. -/
def Shared.InFlight (S : Shared) (n : Nat) (t : String) : Prop :=
  S.loads n = some ⟨t, .asking⟩ ∨ ∃ s, S.loads n = some ⟨t, .described s⟩

/-- One load asked for the table, was answered with this schema and kept it, all in these events. -/
def Fresh (events : List Event) (t : String) (s : Schema) : Prop :=
  ∃ n reply, .ask n t ∈ events ∧ .answer n t reply ∈ events ∧ .keep n t ∈ events ∧
    Schema.ofReply t reply = .ok s

/-- The loads of a table that begin from now on, and succeed, return what was asked for from now
on. -/
def OnlyFresh (S₀ : Shared) (t : String) : Prop :=
  ∀ events S', Runs S₀ events S' → ∀ n s, S₀.loads n = none →
    S'.loads n = some ⟨t, .done (.ok s)⟩ → Fresh events t s

/-! ## Where an entry comes from -/

/-- The load has this description.  It asked for it in these events, unless it was in flight before
them. -/
def Told (S₀ : Shared) (events : List Event) (n : Nat) (t : String) (s : Schema) : Prop :=
  (S₀.InFlight n t ∨ .ask n t ∈ events) ∧ (S₀.loads n = some ⟨t, .described s⟩ ∨
    ∃ reply, .answer n t reply ∈ events ∧ Schema.ofReply t reply = .ok s)

/-- A load that has this description kept one in these events. -/
def Kept (S₀ : Shared) (events : List Event) (t : String) (s : Schema) : Prop :=
  ∃ n, .keep n t ∈ events ∧ Told S₀ events n t s

theorem Told.mono (h : Told S₀ past n t s) (hsub : past ⊆ events) : Told S₀ events n t s :=
  ⟨h.1.imp_right fun hask => hsub hask,
    h.2.imp_right fun ⟨reply, hanswer, hs⟩ => ⟨reply, hsub hanswer, hs⟩⟩

theorem Kept.mono (h : Kept S₀ past t s) (hsub : past ⊆ events) : Kept S₀ events t s :=
  let ⟨n, hkeep, htold⟩ := h
  ⟨n, hsub hkeep, htold.mono hsub⟩

/-- Without a load in flight, what was kept is fresh. -/
theorem Kept.fresh (h : Kept S₀ events t s) (hflight : ∀ n, ¬S₀.InFlight n t) :
    Fresh events t s := by
  obtain ⟨n, hkeep, hask, hdescribed | ⟨reply, hanswer, hs⟩⟩ := h
  · exact absurd (Or.inr ⟨s, hdescribed⟩) (hflight n)
  · exact ⟨n, reply, hask.resolve_left (hflight n), hanswer, hkeep, hs⟩

/-- After these events, all that is known of a table goes back to loads that asked in them, or were
in flight before. -/
structure Traced (S₀ : Shared) (events : List Event) (t : String) (S : Shared) : Prop where
  entry {s : Schema} : S.catalog.find? t = some s → Kept S₀ events t s
  asking {n : Nat} : S.loads n = some ⟨t, .asking⟩ → S₀.InFlight n t ∨ .ask n t ∈ events
  described {n : Nat} {s : Schema} : S.loads n = some ⟨t, .described s⟩ → Told S₀ events n t s
  returned {n : Nat} {s : Schema} : Returned S₀ S n t s → Kept S₀ events t s

theorem traced_nil (hnone : S₀.catalog.find? t = none) : Traced S₀ [] t S₀ where
  entry hs := by
    rw [hnone] at hs
    cases hs
  asking hn := Or.inl (Or.inl hn)
  described hn := ⟨Or.inl (Or.inr ⟨_, hn⟩), Or.inl hn⟩
  returned hret := absurd hret.1 hret.2

theorem Next.asking_cases (h : Next S event S') (hn : S'.loads n = some ⟨t, .asking⟩) :
    S.loads n = some ⟨t, .asking⟩ ∨ event = .ask n t := by
  cases h with
  | lookUp =>
    exact Or.inl ((Shared.loads_put_cases hn).resolve_left fun ⟨_, _, hstage⟩ =>
      lookUp_ne_asking hstage)
  | answer =>
    exact Or.inl ((Shared.loads_put_cases hn).resolve_left fun ⟨_, _, hstage⟩ =>
      Stage.answered_ne_asking hstage)
  | keep =>
    exact Or.inl ((Shared.loads_put_cases hn).resolve_left fun ⟨_, _, hstage⟩ => nomatch hstage)
  | ask =>
    rcases Shared.loads_put_cases hn with ⟨rfl, rfl, -⟩ | hn
    · exact Or.inr rfl
    · exact Or.inl hn
  | forget | clear => exact Or.inl hn

theorem Next.described_cases (h : Next S event S') (hn : S'.loads n = some ⟨t, .described s⟩) :
    S.loads n = some ⟨t, .described s⟩ ∨ S.loads n = some ⟨t, .asking⟩ ∧
      ∃ reply, event = .answer n t reply ∧ Schema.ofReply t reply = .ok s := by
  cases h with
  | lookUp =>
    exact Or.inl ((Shared.loads_put_cases hn).resolve_left fun ⟨_, _, hstage⟩ =>
      lookUp_ne_described hstage)
  | ask | keep =>
    exact Or.inl ((Shared.loads_put_cases hn).resolve_left fun ⟨_, _, hstage⟩ => nomatch hstage)
  | answer hasking =>
    rcases Shared.loads_put_cases hn with ⟨rfl, rfl, hstage⟩ | hn
    · exact Or.inr ⟨hasking, _, rfl, Stage.answered_eq_described.1 hstage⟩
    · exact Or.inl hn
  | forget | clear => exact Or.inl hn

theorem Traced.next (h : Traced S₀ past t S) (hS : Sound S) (hnext : Next S event S') :
    Traced S₀ (past ++ [event]) t S' := by
  have hsub : past ⊆ past ++ [event] := List.subset_append_left ..
  have hlast : event ∈ past ++ [event] := List.mem_append_right _ (List.mem_singleton_self event)
  have hasking {n : Nat} (hn : S.loads n = some ⟨t, .asking⟩) :
      S₀.InFlight n t ∨ .ask n t ∈ past ++ [event] := (h.asking hn).imp_right fun hask => hsub hask
  have hentry {s : Schema} (hs : S'.catalog.find? t = some s) : Kept S₀ (past ++ [event]) t s := by
    rcases hnext.entry_cases hS t with he | ⟨-, hnone⟩ | ⟨n, kept, rfl, hn, -, hkept⟩
    · exact (h.entry (he ▸ hs)).mono hsub
    · rw [hnone] at hs
      cases hs
    · cases hs.symm.trans hkept
      exact ⟨n, hlast, (h.described hn).mono hsub⟩
  refine ⟨hentry, fun {n} hn => ?_, fun {n s} hn => ?_, fun {n s} hret => ?_⟩
  · rcases hnext.asking_cases hn with hn | rfl
    · exact hasking hn
    · exact Or.inr hlast
  · rcases hnext.described_cases hn with hn | ⟨hn, reply, rfl, hs⟩
    · exact (h.described hn).mono hsub
    · exact ⟨hasking hn, Or.inr ⟨reply, hlast, hs⟩⟩
  · by_cases hn : S.loads n = some ⟨t, .done (.ok s)⟩
    · exact (h.returned ⟨hn, hret.2⟩).mono hsub
    · exact hentry (hnext.returned hS ⟨hret.1, hn⟩)

theorem Runs.traced (h : Runs S events S') (hS : Sound S) (hpast : Traced S₀ past t S) :
    Traced S₀ (past ++ events) t S' := by
  induction h generalizing past with
  | nil => rwa [List.append_nil]
  | cons hnext _ ih =>
    rw [List.append_cons]
    exact ih (hnext.sound hS) (hpast.next hS hnext)

/-! ## A load that overtakes -/

theorem Next.dropped (h : Next S event S') (hdrop : event.Drops t) :
    S'.catalog.find? t = none := by
  cases h with
  | lookUp | ask | answer | keep => exact hdrop.elim
  | forget =>
    obtain rfl := hdrop
    rw [find?_forget, if_pos rfl]
  | clear => rfl

/-- A description that is kept while the table has no entry is what the next load returns. -/
theorem runs_keep_lookUp (hS : Sound S) (hnone : S.catalog.find? t = none)
    (hn : S.loads n = some ⟨t, .described s⟩) (hk : S.loads k = none) :
    ∃ S', Runs S [.keep n t, .lookUp k t] S' ∧ S'.loads k = some ⟨t, .done (.ok s)⟩ := by
  obtain rfl := hS.table hn
  have hne : k ≠ n := by
    rintro rfl
    rw [hk] at hn
    cases hn
  refine ⟨_, .cons (.keep hn) (.cons (.lookUp ?_) .nil), ?_⟩
  · exact (Shared.loads_put ..).trans ((if_neg hne).trans hk)
  · rw [Shared.loads_put_self, lookUp_of_some]
    rw [find?_keep, if_pos rfl, keep_of_none hnone]

/-- A load in flight can leave its description to one that begins later. -/
theorem Shared.InFlight.overtakes (h : S.InFlight n t) (hS : Sound S)
    (hnone : S.catalog.find? t = none) : ∃ events S' k s, Runs S events S' ∧ S.loads k = none ∧
      S'.loads k = some ⟨t, .done (.ok s)⟩ ∧ ∀ m, .ask m t ∉ events := by
  obtain ⟨k, hk⟩ := hS.finite.exists_notMem
  have hk : S.loads k = none := not_not.1 hk
  rcases h with hn | ⟨s, hn⟩
  · have hne : k ≠ n := by
      rintro rfl
      rw [hk] at hn
      cases hn
    have hanswer : Next S (.answer n t (.ok [⟨"id", .null, true⟩])) _ := .answer hn
    obtain ⟨S', hruns, hreturn⟩ := runs_keep_lookUp (k := k) (hanswer.sound hS) hnone
      (Shared.loads_put_self ..) ((Shared.loads_put ..).trans ((if_neg hne).trans hk))
    exact ⟨_, S', k, _, .cons hanswer hruns, hk, hreturn, by simp⟩
  · obtain ⟨S', hruns, hreturn⟩ := runs_keep_lookUp hS hnone hn hk
    exact ⟨_, S', k, s, hruns, hk, hreturn, by simp⟩

/-! ## When forgetting is final -/

/-- **Forgetting a table is final if and only if no load of it is in flight.**  So it is in every
state that can be reached, whether the table alone is forgotten or all of them are. -/
theorem forgetting_final_iff (hS : Runs .start past S) (hdrop : event.Drops t)
    (hnext : Next S event S₀) : OnlyFresh S₀ t ↔ ∀ n, ¬S₀.InFlight n t := by
  have hS₀ : Sound S₀ := hnext.sound (hS.sound sound_start)
  have hnone : S₀.catalog.find? t = none := hnext.dropped hdrop
  constructor
  · intro hfresh n hn
    obtain ⟨events, S', k, s, hruns, hk, hreturn, hask⟩ := hn.overtakes hS₀ hnone
    obtain ⟨m, -, hm, -⟩ := hfresh events S' hruns k s hk hreturn
    exact hask m hm
  · intro hflight events S' hruns n s hn hreturn
    have htraced : Traced S₀ events t S' := hruns.traced hS₀ (traced_nil hnone)
    exact (htraced.returned ⟨hreturn, by rw [hn]; nofun⟩).fresh hflight

/-- One load returns, and another one is about to ask. -/
def returning : List Event :=
  [.lookUp 0 "table1", .lookUp 1 "table1", .ask 0 "table1",
    .answer 0 "table1" (.ok [⟨"id", .null, true⟩]), .keep 0 "table1"]

theorem forgetting_final_iff_returning : ∃ S S₀, Runs .start returning S ∧
    Next S (.forget "table1") S₀ ∧ OnlyFresh S₀ "table1" := by
  obtain ⟨S, hruns, hflight⟩ : ∃ S, Runs .start returning S ∧ ∀ n, ¬S.InFlight n "table1" := by
    refine ⟨_, .cons (.lookUp rfl) <| .cons (.lookUp rfl) <| .cons (.ask rfl) <|
      .cons (.answer rfl) <| .cons (.keep rfl) .nil, fun n hn => ?_⟩
    match n, hn with
    | 0, .inl hn | 1, .inl hn | m + 2, .inl hn => cases hn
    | 0, .inr ⟨_, hn⟩ | 1, .inr ⟨_, hn⟩ | m + 2, .inr ⟨_, hn⟩ => cases hn
  have hdrop : Event.Drops "table1" (.forget "table1") := rfl
  exact ⟨S, _, hruns, .forget, (forgetting_final_iff hruns hdrop .forget).2 hflight⟩

/-- A load that asked before is answered and keeps the answer, and another load begins. -/
def overtaking : List Event :=
  [.answer 0 "table1" (.ok [⟨"id", .null, true⟩]), .keep 0 "table1", .lookUp 1 "table1"]

/-- The table is forgotten while the connector describes it.  A load that begins afterwards returns
that description, though nobody has asked for the table since. -/
theorem load_overtakes_forgetting : ∃ S S₀ S',
    Runs .start [.lookUp 0 "table1", .ask 0 "table1"] S ∧ Next S (.forget "table1") S₀ ∧
      Runs S₀ overtaking S' ∧ S₀.loads 1 = none ∧
      S'.loads 1 = some ⟨"table1", .done (.ok ⟨"table1", [⟨"id", .null, true⟩]⟩)⟩ ∧
      ¬Fresh overtaking "table1" ⟨"table1", [⟨"id", .null, true⟩]⟩ := by
  refine ⟨_, _, _, .cons (.lookUp rfl) <| .cons (.ask rfl) .nil, .forget,
    .cons (.answer rfl) <| .cons (.keep rfl) <| .cons (.lookUp rfl) .nil, rfl, rfl, ?_⟩
  rintro ⟨n, reply, hask, -⟩
  simp [overtaking] at hask

end Catalog
end LinkedRows
