/-
# What a save comes to do

The points of a save at which it reads the unread links of a record (`Visits`), and those at which
it runs a write (`Attempts`), each with the world there.  Both are told by what has succeeded up to
the point alone, so they cover saves that fail later on, or right then.

A save reads only at its visits and executes only what it attempts: each query in its log is the one
for the unread links of a visited record, and each execution the statement of an attempted write,
with the log up to there before it (`save_accounts`).
-/

import LinkedRows.Proofs.Forest.Kept
import LinkedRows.Proofs.Reachable

namespace LinkedRows

open Forest

variable {σ : Type} {c : Connector σ} {w v : World σ Forest}

/-! ## Points -/

/-- Resolving what is behind joins comes to read the links of a record. -/
inductive VisitsBelow (c : Connector σ) : Branches → World σ Forest → NodeId →
    World σ Forest → Prop
  | deleted {e : EdgeId} {child n : NodeId} {below next : Branches} {w t : World σ Forest} :
      (w.state.node child).deleted = true → VisitsBelow c next w n t →
      VisitsBelow c (.cons e child below next) w n t
  | child {e : EdgeId} {child : NodeId} {below next : Branches} {w : World σ Forest} :
      (w.state.node child).deleted = false →
      VisitsBelow c (.cons e child below next) w child (w.withState (w.state.seedChild e))
  | deeper {e : EdgeId} {child n : NodeId} {below next : Branches} {w r t : World σ Forest} :
      (w.state.node child).deleted = false →
      (readLinks c child).perform (w.withState (w.state.seedChild e)) = (.ok (), r) →
      VisitsBelow c below r n t → VisitsBelow c (.cons e child below next) w n t
  | later {e : EdgeId} {child n : NodeId} {below next : Branches} {w r s t : World σ Forest} :
      (w.state.node child).deleted = false →
      (readLinks c child).perform (w.withState (w.state.seedChild e)) = (.ok (), r) →
      (resolveBelow c below).perform r = (.ok (), s) → VisitsBelow c next s n t →
      VisitsBelow c (.cons e child below next) w n t

/-- The save of a record comes to read the links of the record itself or of one below it. -/
inductive Visits (c : Connector σ) (root : NodeId) (w : World σ Forest) : NodeId →
    World σ Forest → Prop
  | root : (w.state.node root).deleted = false → Visits c root w root w
  | deeper {n : NodeId} {r t : World σ Forest} : (w.state.node root).deleted = false →
      (readLinks c root).perform w = (.ok (), r) →
      VisitsBelow c (w.state.below root) r n t → Visits c root w n t

/-- Saving what is behind joins comes to run a write. -/
inductive AttemptsBelow (c : Connector σ) : Branches → World σ Forest → Write →
    World σ Forest → Prop
  | deleted {e : EdgeId} {child : NodeId} {below next : Branches} {w u : World σ Forest}
      {write : Write} : (w.state.node child).deleted = true → AttemptsBelow c next w write u →
      AttemptsBelow c (.cons e child below next) w write u
  | deeper {e : EdgeId} {child : NodeId} {below next : Branches} {w u : World σ Forest}
      {write : Write} : (w.state.node child).deleted = false → AttemptsBelow c below w write u →
      AttemptsBelow c (.cons e child below next) w write u
  | child {e : EdgeId} {child : NodeId} {below next : Branches} {w u : World σ Forest}
      {writes : List Write} {write : Write} : (w.state.node child).deleted = false →
      SavedBelow c below w writes u → u.state.planSave? child false = some write →
      AttemptsBelow c (.cons e child below next) w write u
  | later {e : EdgeId} {child : NodeId} {below next : Branches} {w u t v : World σ Forest}
      {writes own : List Write} {write : Write} : (w.state.node child).deleted = false →
      SavedBelow c below w writes u → SavedNode c child false u own t →
      AttemptsBelow c next (t.withState (t.state.followChild e (w.state.isNew child))) write v →
      AttemptsBelow c (.cons e child below next) w write v

/-- The save of a record comes to run a write, for a record below it or for itself. -/
inductive Attempts (c : Connector σ) (root : NodeId) (w : World σ Forest) : Write →
    World σ Forest → Prop
  | deeper {r s u : World σ Forest} {write : Write} : (w.state.node root).deleted = false →
      (readLinks c root).perform w = (.ok (), r) →
      (resolveBelow c (w.state.below root)).perform r = (.ok (), s) →
      AttemptsBelow c (w.state.below root) s write u → Attempts c root w write u
  | root {r s u : World σ Forest} {writes : List Write} {write : Write} :
      (w.state.node root).deleted = false → (readLinks c root).perform w = (.ok (), r) →
      (resolveBelow c (w.state.below root)).perform r = (.ok (), s) →
      SavedBelow c (w.state.below root) s writes u → u.state.planSave? root true = some write →
      Attempts c root w write u

/-! ## Logs that are accounted for -/

/-- The second log goes on from the first one, and each call that was made meanwhile was due with
the log before it. -/
def Accounts (due : List Exchange → Exchange → Prop) (old new : List Exchange) : Prop :=
  old <+: new ∧ ∀ l x, old <+: l → l ++ [x] <+: new → due l x

namespace Accounts

variable {due due' : List Exchange → Exchange → Prop} {l l₁ l₂ l₃ : List Exchange}

theorem refl (l : List Exchange) : Accounts due l l :=
  ⟨List.prefix_rfl, fun _ _ hk hx => absurd (Nat.le_trans hx.length_le hk.length_le) (by simp)⟩

theorem mono (h : Accounts due l₁ l₂) (hdue : ∀ l x, due l x → due' l x) :
    Accounts due' l₁ l₂ := ⟨h.1, fun l x hl hnew => hdue l x (h.2 l x hl hnew)⟩

theorem trans (h : Accounts due l₁ l₂) (h' : Accounts due l₂ l₃) : Accounts due l₁ l₃ := by
  refine ⟨h.1.trans h'.1, fun l x hl hnew => ?_⟩
  rcases List.prefix_or_prefix_of_prefix hnew h'.1 with hold | hold
  · exact h.2 l x hl hold
  · rcases List.prefix_concat_iff.1 hold with heq | hold
    · exact h.2 l x hl (heq ▸ List.prefix_rfl)
    · exact h'.2 l x hold hnew

theorem call {x : Exchange} (hx : due l x) : Accounts due l (l ++ [x]) := by
  refine ⟨List.prefix_append _ _, fun k y hk hnew => ?_⟩
  obtain ⟨later, rfl⟩ := hk
  rw [List.append_assoc, List.prefix_append_right_inj] at hnew
  cases later with
  | nil =>
    obtain rfl : y = x := (List.cons_prefix_cons.1 hnew).1
    rwa [List.append_nil]
  | cons z later => exact absurd hnew.length_le (by simp)

/-- What is due at any time holds of all calls that were made. -/
theorem exists_calls {P : Exchange → Prop} (h : Accounts (fun _ => P) l₁ l₂) :
    ∃ calls, l₂ = l₁ ++ calls ∧ ∀ x ∈ calls, P x := by
  obtain ⟨⟨calls, rfl⟩, hcalls⟩ := h
  refine ⟨calls, rfl, fun x hx => ?_⟩
  obtain ⟨before, after, rfl⟩ := List.append_of_mem hx
  refine hcalls (l₁ ++ before) x (List.prefix_append _ _) ?_
  rw [List.append_assoc, List.prefix_append_right_inj]
  exact ⟨after, by simp⟩

end Accounts

/-- Reading columns makes one query, if there are columns to read and the statement has a text. -/
theorem readCells_accounts {due : List Exchange → Exchange → Prop} {n : NodeId}
    {cells : List CellId} (hdue : cells ≠ [] → ∀ p reply,
      (w.state.selection n cells).prepare c.dialect = .ok p → due w.log (.query p reply)) :
    (readCells c n cells).Ensures w fun _ v => Accounts due w.log v.log := by
  unfold Action.Ensures
  by_cases hcells : cells = []
  · rw [hcells, readCells_nil]
    exact Accounts.refl _
  cases hp : (w.state.selection n cells).prepare c.dialect with
  | error e =>
    rw [readCells_of_unprepared hcells hp]
    exact Accounts.refl _
  | ok p =>
    cases hq : (c.query p w.store).1 with
    | error e =>
      rw [readCells_of_refused hcells hp hq]
      exact Accounts.call (hdue hcells p _ hp)
    | ok rows =>
      rw [readCells_of_answered hcells hp hq]
      exact Accounts.call (hdue hcells p _ hp)

/-- A query is due at a visit of a record with unread links, an execution at an attempted write; the
identifier of an insertion may be asked for at any time. -/
def Due (c : Connector σ) (visits : NodeId → World σ Forest → Prop)
    (attempts : Write → World σ Forest → Prop) (l : List Exchange) : Exchange → Prop
  | .query p _ => ∃ n t, visits n t ∧ t.log = l ∧ t.state.unreadLinks n ≠ [] ∧
      (t.state.selection n (t.state.unreadLinks n)).prepare c.dialect = .ok p
  | .execute p _ => ∃ write u, attempts write u ∧ u.log = l ∧
      write.statement.prepare c.dialect = .ok p
  | .lastIdentifier _ => True
  | .describe _ _ => False

section

variable {visits visits' : NodeId → World σ Forest → Prop}
  {attempts attempts' : Write → World σ Forest → Prop} {n : NodeId}

theorem Due.mono {l : List Exchange} {x : Exchange} (h : Due c visits attempts l x)
    (hvisits : ∀ n t, visits n t → visits' n t)
    (hattempts : ∀ write u, attempts write u → attempts' write u) :
    Due c visits' attempts' l x := by
  cases x with
  | query p reply =>
    obtain ⟨n, t, hvisit, hrest⟩ := h
    exact ⟨n, t, hvisits n t hvisit, hrest⟩
  | execute p reply =>
    obtain ⟨write, u, hattempt, hrest⟩ := h
    exact ⟨write, u, hattempts write u hattempt, hrest⟩
  | lastIdentifier => trivial
  | describe => exact h.elim

theorem readLinks_accounts (hvisit : visits n w) :
    (readLinks c n).Ensures w fun _ v => Accounts (Due c visits attempts) w.log v.log := by
  rw [readLinks, Action.Ensures, Action.perform_state_bind]
  exact readCells_accounts fun hcells p _ hp => ⟨n, w, hvisit, rfl, hcells, hp⟩

theorem run_accounts {write : Write} (hattempt : attempts write w) :
    (write.run c).Ensures w fun _ v => Accounts (Due c visits attempts) w.log v.log := by
  refine (run_spec c write w).mono fun _ v h => ?_
  rcases h.2 with hlog | ⟨p, later, hp, hlog, hlater⟩
  · rw [hlog]
    exact Accounts.refl _
  · rw [hlog, ← List.singleton_append, ← List.append_assoc]
    have hexecute : Accounts (Due c visits attempts) w.log
        (w.log ++ [.execute p (c.execute p w.store).1]) :=
      Accounts.call ⟨write, w, hattempt, rfl, hp⟩
    refine hexecute.trans ?_
    clear hlog hexecute
    generalize w.log ++ [.execute p (c.execute p w.store).1] = l
    induction later generalizing l with
    | nil =>
      rw [List.append_nil]
      exact Accounts.refl _
    | cons x later ih =>
      obtain ⟨reply, rfl⟩ := hlater x (List.mem_cons_self ..)
      rw [← List.singleton_append, ← List.append_assoc]
      exact (Accounts.call trivial).trans
        (ih (fun y hy => hlater y (List.mem_cons_of_mem _ hy)) _)

theorem saveNode_accounts {direct : Bool}
    (hattempt : ∀ write, w.state.planSave? n direct = some write → attempts write w) :
    (saveNode c n direct).Ensures w fun _ v => Accounts (Due c visits attempts) w.log v.log := by
  rw [saveNode, Action.Ensures, Action.perform_state_bind]
  cases hplan : w.state.planSave? n direct with
  | none => exact Accounts.refl _
  | some write => exact run_accounts (hattempt write hplan)

end

/-- A sequence is accounted for part by part. -/
theorem accounts_bind {due : List Exchange → Exchange → Prop} {α β : Type}
    {a : Action σ Forest α} {k : α → Action σ Forest β} {l : List Exchange}
    (ha : a.Ensures w fun _ v => Accounts due l v.log)
    (hk : ∀ x v, a.perform w = (.ok x, v) →
      (k x).Ensures v fun _ u => Accounts due v.log u.log) :
    (a >>= k).Ensures w fun _ u => Accounts due l u.log := by
  unfold Action.Ensures at ha
  refine Action.Ensures.bind_of_perform (fun x v h => ?_) fun e v h => ?_ <;> rw [h] at ha
  · exact (hk x v h).mono fun _ _ hu => ha.trans hu
  · exact ha

/-- What is asked while resolving is asked at a visit. -/
theorem resolveBelow_accounts {attempts : Write → World σ Forest → Prop} (b : Branches)
    (w : World σ Forest) : (resolveBelow c b).Ensures w fun _ v =>
      Accounts (Due c (VisitsBelow c b w) attempts) w.log v.log := by
  induction b generalizing w with
  | nil => exact Accounts.refl _
  | cons e child below next ihBelow ihNext =>
    cases hdel : (w.state.node child).deleted with
    | true =>
      rw [Action.Ensures, perform_resolveBelow_deleted hdel]
      exact Accounts.mono (ihNext w) fun l x h =>
        h.mono (fun _ _ => .deleted hdel) fun _ _ => id
    | false =>
      rw [Action.Ensures, perform_resolveBelow_kept hdel]
      refine accounts_bind (readLinks_accounts (.child hdel)) fun _ r hr => ?_
      refine accounts_bind ((ihBelow r).mono fun _ _ h => h.mono fun l x hdue => ?_)
        fun _ s hs => (ihNext s).mono fun _ _ h => h.mono fun l x hdue => ?_
      · exact hdue.mono (fun _ _ => .deeper hdel hr) fun _ _ => id
      · exact hdue.mono (fun _ _ => .later hdel hr hs) fun _ _ => id

/-- What is executed while saving what is behind joins was attempted. -/
theorem saveBelow_accounts {visits : NodeId → World σ Forest → Prop} (b : Branches)
    (w : World σ Forest) : (saveBelow c b).Ensures w fun _ v =>
      Accounts (Due c visits (AttemptsBelow c b w)) w.log v.log := by
  induction b generalizing w with
  | nil => exact Accounts.refl _
  | cons e child below next ihBelow ihNext =>
    cases hdel : (w.state.node child).deleted with
    | true =>
      rw [Action.Ensures, perform_saveBelow_deleted hdel]
      exact Accounts.mono (ihNext w) fun l x h =>
        h.mono (fun _ _ => id) fun _ _ => .deleted hdel
    | false =>
      rw [Action.Ensures, perform_saveBelow_kept hdel]
      refine accounts_bind ((ihBelow w).mono fun _ _ h => h.mono fun l x hdue => ?_)
        fun _ u hu => ?_
      · exact hdue.mono (fun _ _ => id) fun _ _ => .deeper hdel
      obtain ⟨writes, hbelow⟩ := saveBelow_ok_iff.1 hu
      refine accounts_bind (saveNode_accounts fun write hplan => .child hdel hbelow hplan)
        fun _ t ht => ?_
      obtain ⟨own, hnode⟩ := saveNode_ok_iff.1 ht
      have hlater := ihNext (t.withState (t.state.followChild e (w.state.isNew child)))
      rw [Action.Ensures, Action.perform_update_bind]
      exact Accounts.mono hlater fun l x hdue =>
        hdue.mono (fun _ _ => id) fun _ _ => .later hdel hbelow hnode

/-- **A save does nothing but what it comes to do.**  Whether it succeeds or fails, each query in
its log is the one for the unread links of a record that it visits, and each execution the statement
of a write that it attempts, with the log up to there before it. -/
theorem save_accounts (n : NodeId) (w : World σ Forest) : (save c n).Ensures w fun _ v =>
    Accounts (Due c (Visits c n w) (Attempts c n w)) w.log v.log := by
  rw [save, Action.Ensures, Action.perform_state_bind]
  cases hdel : (w.state.node n).deleted with
  | true => exact Accounts.refl _
  | false =>
    refine accounts_bind (readLinks_accounts (.root hdel)) fun _ r hr => ?_
    have hresolve := @resolveBelow_accounts σ c (Attempts c n w) (w.state.below n) r
    refine accounts_bind (hresolve.mono fun _ _ h => h.mono fun l x hdue => ?_) fun _ s hs => ?_
    · exact hdue.mono (fun _ _ => .deeper hdel hr) fun _ _ => id
    have hsave := @saveBelow_accounts σ c (Visits c n w) (w.state.below n) s
    refine accounts_bind (hsave.mono fun _ _ h => h.mono fun l x hdue => ?_) fun _ u hu => ?_
    · exact hdue.mono (fun _ _ => id) fun _ _ => .deeper hdel hr hs
    obtain ⟨writes, hbelow⟩ := saveBelow_ok_iff.1 hu
    exact saveNode_accounts fun write hplan => .root hdel hr hs hbelow hplan

end LinkedRows
