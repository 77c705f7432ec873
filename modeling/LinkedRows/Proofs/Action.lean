/-
# Performing actions

What an action does to the world it is performed in.  `perform_bind` takes a sequence apart, in
each of three forms: as an equation, for a first part that is known to succeed or to fail
(`perform_bind_ok`, `perform_bind_error`), and backwards from a sequence that succeeded
(`perform_bind_eq_ok`) or failed (`perform_bind_eq_error`).

`Ensures` says what holds of the result and the world afterwards, whether the action succeeds or
fails.
-/

import LinkedRows.Connector

namespace LinkedRows
namespace Action

variable {σ τ α β : Type} {a : Action σ τ α} {k : α → Action σ τ β} {w v : World σ τ}

theorem perform_bind (a : Action σ τ α) (k : α → Action σ τ β) (w : World σ τ) :
    (a >>= k).perform w =
      match a.perform w with
      | (.ok x, v) => (k x).perform v
      | (.error e, v) => (.error e, v) := by
  unfold perform
  rw [ExceptT.run_bind, StateT.run_bind]
  rcases StateT.run (ExceptT.run a) w with ⟨e | x, v⟩ <;> rfl

theorem perform_bind_ok {x : α} (h : a.perform w = (.ok x, v)) (k : α → Action σ τ β) :
    (a >>= k).perform w = (k x).perform v := by
  rw [perform_bind, h]

theorem perform_bind_error {e : Fault} (h : a.perform w = (.error e, v))
    (k : α → Action σ τ β) : (a >>= k).perform w = (.error e, v) := by
  rw [perform_bind, h]

/-- A sequence succeeds if both parts do. -/
theorem perform_bind_eq_ok {y : β} :
    (a >>= k).perform w = (.ok y, v) ↔
      ∃ x u, a.perform w = (.ok x, u) ∧ (k x).perform u = (.ok y, v) := by
  rw [perform_bind]
  rcases a.perform w with ⟨e | x, u⟩
  · simp
  · constructor
    · intro h
      exact ⟨x, u, rfl, h⟩
    · rintro ⟨_, _, hxu, h⟩
      obtain ⟨hx, rfl⟩ := Prod.mk.inj hxu
      rwa [Except.ok.inj hx]

/-- A sequence fails if its first part does, or its second part after the first has succeeded. -/
theorem perform_bind_eq_error {e : Fault} :
    (a >>= k).perform w = (.error e, v) ↔ a.perform w = (.error e, v) ∨
      ∃ x u, a.perform w = (.ok x, u) ∧ (k x).perform u = (.error e, v) := by
  rw [perform_bind]
  rcases a.perform w with ⟨e' | x, u⟩
  · simp
  · constructor
    · intro h
      exact Or.inr ⟨x, u, rfl, h⟩
    · rintro (h | ⟨_, _, hxu, h⟩)
      · cases (Prod.mk.inj h).1
      · obtain ⟨hx, rfl⟩ := Prod.mk.inj hxu
        rwa [Except.ok.inj hx]

/-- An action whose result is known, with the world after it. -/
theorem perform_eq {r : Except Fault α} (h : (a.perform w).1 = r) :
    a.perform w = (r, (a.perform w).2) := by rw [← h]

@[simp] theorem perform_pure (x : α) (w : World σ τ) :
    (pure x : Action σ τ α).perform w = (.ok x, w) := rfl

@[simp] theorem perform_throw (e : Fault) (w : World σ τ) :
    (throw e : Action σ τ α).perform w = (.error e, w) := rfl

@[simp] theorem perform_state (w : World σ τ) :
    (state : Action σ τ τ).perform w = (.ok w.state, w) := rfl

@[simp] theorem perform_update (change : τ → τ) (w : World σ τ) :
    (update change : Action σ τ Unit).perform w = (.ok (), { w with state := change w.state }) :=
  rfl

@[simp] theorem perform_ofExcept (x : Except Fault α) (w : World σ τ) :
    (ofExcept x : Action σ τ α).perform w = (x, w) := by
  cases x <;> rfl

@[simp] theorem perform_attempt (a : Action σ τ α) (w : World σ τ) :
    (attempt a : Action σ τ (Except Fault α)).perform w =
      (.ok (a.perform w).1, (a.perform w).2) := rfl

@[simp] theorem perform_ofChange (change : ExceptT Fault (StateM τ) α) (w : World σ τ) :
    (ofChange change : Action σ τ α).perform w =
      ((change.run.run w.state).1, { w with state := (change.run.run w.state).2 }) := rfl

@[simp] theorem perform_call (run : σ → Except Fault α × σ)
    (exchange : Except Fault α → Exchange) (w : World σ τ) :
    (call run exchange : Action σ τ α).perform w =
      ((run w.store).1, { w with store := (run w.store).2,
                                 log := w.log ++ [exchange (run w.store).1] }) := rfl

theorem perform_state_bind (k : τ → Action σ τ β) (w : World σ τ) :
    (state >>= k).perform w = (k w.state).perform w := perform_bind_ok (perform_state w) k

theorem perform_update_bind (change : τ → τ) (k : Unit → Action σ τ β) (w : World σ τ) :
    (update change >>= k).perform w = (k ()).perform { w with state := change w.state } :=
  perform_bind_ok (perform_update change w) k

theorem perform_attempt_bind (a : Action σ τ α) (k : Except Fault α → Action σ τ β)
    (w : World σ τ) : (attempt a >>= k).perform w = (k (a.perform w).1).perform (a.perform w).2 :=
  perform_bind_ok (perform_attempt a w) k

/-! ## What holds afterwards -/

/-- The result of an action and the world after it have a property. -/
def Ensures (a : Action σ τ α) (w : World σ τ) (Q : Except Fault α → World σ τ → Prop) : Prop :=
  Q (a.perform w).1 (a.perform w).2

theorem Ensures.mono {P Q : Except Fault α → World σ τ → Prop} (h : a.Ensures w P)
    (hPQ : ∀ r v, P r v → Q r v) : a.Ensures w Q := hPQ _ _ h

/-- What an action ensures holds of the result and the world that it is known to end with. -/
theorem Ensures.of_perform {Q : Except Fault α → World σ τ → Prop} (h : a.Ensures w Q)
    {r : Except Fault α} (hperform : a.perform w = (r, v)) : Q r v := by
  rwa [Ensures, hperform] at h

/-- A sequence ensures what its second part does after each way in which its first part ends. -/
theorem Ensures.bind {P : Except Fault α → World σ τ → Prop}
    {Q : Except Fault β → World σ τ → Prop} (h : a.Ensures w P)
    (hok : ∀ x v, P (.ok x) v → (k x).Ensures v Q)
    (herror : ∀ e v, P (.error e) v → Q (.error e) v) :
    (a >>= k).Ensures w Q := by
  unfold Ensures at h ⊢
  rw [perform_bind]
  rcases hr : a.perform w with ⟨e | x, v⟩ <;> rw [hr] at h
  · exact herror e v h
  · exact hok x v h

/-- A sequence ensures what its second part does, or what its first part does by failing. -/
theorem Ensures.bind_of_perform {Q : Except Fault β → World σ τ → Prop}
    (hok : ∀ x v, a.perform w = (.ok x, v) → (k x).Ensures v Q)
    (herror : ∀ e v, a.perform w = (.error e, v) → Q (.error e) v) : (a >>= k).Ensures w Q :=
  Ensures.bind (P := fun r v => a.perform w = (r, v)) rfl hok herror

/-- Of a sequence, what holds between the world before and after each part holds of the whole. -/
theorem Ensures.seq {R : World σ τ → World σ τ → Prop}
    (htrans : ∀ {w v u}, R w v → R v u → R w u) (h : a.Ensures w fun _ v => R w v)
    (hk : ∀ x v, R w v → (k x).Ensures v fun _ u => R v u) :
    (a >>= k).Ensures w fun _ u => R w u :=
  h.bind (fun x v hv => (hk x v hv).mono fun _ _ hu => htrans hv hu) fun _ _ hv => hv

end Action

namespace Connector

variable {σ τ : Type} (c : Connector σ)

@[simp] theorem perform_prepare (s : Statement) (w : World σ τ) :
    (c.prepare s : Action σ τ Prepared).perform w = (s.prepare c.dialect, w) :=
  Action.perform_ofExcept _ w

@[simp] theorem perform_rows (p : Prepared) (w : World σ τ) :
    (c.rows p : Action σ τ (List Row)).perform w =
      ((c.query p w.store).1, { w with store := (c.query p w.store).2,
                                       log := w.log ++ [.query p (c.query p w.store).1] }) := rfl

@[simp] theorem perform_run (p : Prepared) (w : World σ τ) :
    (c.run p : Action σ τ Nat).perform w =
      ((c.execute p w.store).1, { w with store := (c.execute p w.store).2,
                                         log := w.log ++ [.execute p (c.execute p w.store).1] }) :=
  rfl

@[simp] theorem perform_lastInserted (w : World σ τ) :
    (c.lastInserted : Action σ τ Value).perform w =
      ((c.lastIdentifier w.store).1,
        { w with store := (c.lastIdentifier w.store).2,
                 log := w.log ++ [.lastIdentifier (c.lastIdentifier w.store).1] }) := rfl

end Connector
end LinkedRows
