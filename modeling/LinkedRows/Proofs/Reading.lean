/-
# Reading rows

Reading columns of a record makes at most one call, a query, and loads the columns that it asks for
and no others (`readCells_spec`).  Links that are read before a save are clean columns of a record
that has a key, so they are never keys themselves.

Resolving what is behind joins therefore only asks, keeps the forest steady, and reaches no column
but those of the records behind the joins (`consults_resolveBelow`).
-/

import LinkedRows.Fetch
import LinkedRows.Proofs.Action
import LinkedRows.Proofs.Forest.Below
import LinkedRows.Proofs.Forest.Learning

namespace LinkedRows

namespace Exchange

def isQuery : Exchange → Bool
  | .query _ _ => true
  | _ => false

end Exchange

/-- The second log goes on from the first one with queries alone. -/
def OnlyAsks (old new : List Exchange) : Prop :=
  ∃ asked, new = old ++ asked ∧ ∀ x ∈ asked, x.isQuery = true

namespace OnlyAsks

variable {l₁ l₂ l₃ : List Exchange}

@[refl] theorem refl (l : List Exchange) : OnlyAsks l l :=
  ⟨[], (List.append_nil l).symm, fun _ h => absurd h List.not_mem_nil⟩

theorem trans (h₁ : OnlyAsks l₁ l₂) (h₂ : OnlyAsks l₂ l₃) : OnlyAsks l₁ l₃ := by
  obtain ⟨asked₁, rfl, ha₁⟩ := h₁
  obtain ⟨asked₂, rfl, ha₂⟩ := h₂
  refine ⟨asked₁ ++ asked₂, List.append_assoc .., fun x hx => ?_⟩
  rcases List.mem_append.1 hx with hx | hx
  · exact ha₁ x hx
  · exact ha₂ x hx

theorem goesOn (h : OnlyAsks l₁ l₂) : l₁ <+: l₂ := by
  obtain ⟨asked, rfl, -⟩ := h
  exact List.prefix_append _ _

theorem query (l : List Exchange) (p : Prepared) (reply : Except Fault (List Row)) :
    OnlyAsks l (l ++ [.query p reply]) :=
  ⟨_, rfl, fun x hx => by rw [List.mem_singleton.1 hx]; rfl⟩

end OnlyAsks

namespace World

variable {σ τ : Type}

/-- The world after a query. -/
def asked (w : World σ τ) (c : Connector σ) (p : Prepared) : World σ τ :=
  { w with store := (c.query p w.store).2, log := w.log ++ [.query p (c.query p w.store).1] }

/-- The world with another state of the action. -/
def withState (w : World σ τ) (state : τ) : World σ τ := { w with state := state }

end World

variable {σ : Type} (c : Connector σ)

/-! ## Columns of one record -/

theorem readCells_nil (n : NodeId) (w : World σ Forest) :
    (readCells c n []).perform w = (.ok (), w) := rfl

variable {c} {n : NodeId} {cells : List CellId} {w : World σ Forest}

/-- A statement without a text is not asked. -/
theorem readCells_of_unprepared (hcells : cells ≠ []) {e : Fault}
    (hp : (w.state.selection n cells).prepare c.dialect = .error e) :
    (readCells c n cells).perform w = (.error e, w) := by
  have hempty : cells.isEmpty = false := by simpa using hcells
  rw [readCells, hempty]
  simp [Action.perform_bind, hp]

theorem readCells_of_refused (hcells : cells ≠ []) {p : Prepared} {e : Fault}
    (hp : (w.state.selection n cells).prepare c.dialect = .ok p)
    (hq : (c.query p w.store).1 = .error e) :
    (readCells c n cells).perform w = (.error e, w.asked c p) := by
  have hempty : cells.isEmpty = false := by simpa using hcells
  rw [readCells, hempty]
  simp [Action.perform_bind, Connector.firstRow?, hp, hq, World.asked]

/-- A reply gives the columns the values of its first row, if it has a row. -/
theorem readCells_of_answered (hcells : cells ≠ []) {p : Prepared} {rows : List Row}
    (hp : (w.state.selection n cells).prepare c.dialect = .ok p)
    (hq : (c.query p w.store).1 = .ok rows) :
    (readCells c n cells).perform w = (.ok (), (w.asked c p).withState
      (rows.head?.elim w.state fun row => w.state.load cells row.values)) := by
  have hempty : cells.isEmpty = false := by simpa using hcells
  rw [readCells, hempty]
  cases rows with
  | nil =>
    simp [Action.perform_bind, Connector.firstRow?, hp, hq,
      World.asked, World.withState]
  | cons row rest =>
    simp [Action.perform_bind, Connector.firstRow?, hp, hq,
      World.asked, World.withState]

/-- Reading columns only asks, and loads those columns or nothing. -/
theorem readCells_spec (c : Connector σ) (n : NodeId) (cells : List CellId) (w : World σ Forest) :
    (readCells c n cells).Ensures w fun _ v => OnlyAsks w.log v.log ∧
      (v.state = w.state ∨ ∃ values, v.state = w.state.load cells values) := by
  unfold Action.Ensures
  by_cases hcells : cells = []
  · subst hcells
    rw [readCells_nil]
    exact ⟨OnlyAsks.refl _, Or.inl rfl⟩
  cases hp : (w.state.selection n cells).prepare c.dialect with
  | error e =>
    rw [readCells_of_unprepared hcells hp]
    exact ⟨OnlyAsks.refl _, Or.inl rfl⟩
  | ok p =>
    cases hq : (c.query p w.store).1 with
    | error e =>
      rw [readCells_of_refused hcells hp hq]
      exact ⟨OnlyAsks.query _ _ _, Or.inl rfl⟩
    | ok rows =>
      rw [readCells_of_answered hcells hp hq]
      refine ⟨OnlyAsks.query _ _ _, ?_⟩
      cases rows with
      | nil => exact Or.inl rfl
      | cons row rest => exact Or.inr ⟨row.values, rfl⟩

/-! ## Links of one record -/

namespace Forest

/-- The unread links are the clean columns of a stale record that lead to new children, not deleted,
with changes. -/
theorem mem_unreadLinks_iff {f : Forest} {n : NodeId} {d : CellId} :
    d ∈ f.unreadLinks n ↔ f.isStale n = true ∧
      ∃ e ∈ (f.node n).edges, (f.edge e).link = d ∧ f.isNew (f.edge e).child = true ∧
        (f.node (f.edge e).child).deleted = false ∧ (f.cell (f.edge e).link).isDirty = false ∧
          f.hasChanges (f.edge e).child = true := by
  unfold unreadLinks
  cases f.isStale n with
  | false => simp
  | true =>
    rw [if_pos rfl, List.mem_eraseDups, List.mem_map]
    simp only [List.mem_filter, Bool.and_eq_true, Bool.not_eq_true', true_and]
    constructor
    · rintro ⟨e, ⟨he, ⟨⟨hnew, hdel⟩, hclean⟩, hchanges⟩, hlink⟩
      exact ⟨e, he, hlink, hnew, hdel, hclean, hchanges⟩
    · rintro ⟨e, he, hlink, hnew, hdel, hclean, hchanges⟩
      exact ⟨e, ⟨he, ⟨⟨hnew, hdel⟩, hclean⟩, hchanges⟩, hlink⟩

/-- Unread links are clean columns of the record, none of them its key. -/
theorem unreadLinks_spec {f : Forest} (hf : WellFormed f) {n : NodeId} {d : CellId}
    (h : d ∈ f.unreadLinks n) :
    d ∈ (f.node n).cells ∧ (f.cell d).isKey = false ∧ (f.cell d).isDirty = false := by
  obtain ⟨hstale, e, he, rfl, -, -, hclean, -⟩ := mem_unreadLinks_iff.1 h
  have hmem := hf.link_mem (hf.hasEdge he)
  rw [hf.owner_of_edge he] at hmem
  exact ⟨hmem, isKey_eq_false_of_clean hf hmem (isNew_of_isStale hstale) hclean, hclean⟩

end Forest

open Forest

/-- A new record has no unread links. -/
theorem readLinks_of_isNew (hnew : w.state.isNew n = true) :
    (readLinks c n).perform w = (.ok (), w) := by
  have hstale : w.state.isStale n = false := by rw [isStale, isBound, hnew]; rfl
  rw [readLinks, Action.perform_state_bind, unreadLinks, hstale]
  rfl

/-- The second world comes from the first by asking alone: the forest learns what was read, and
nothing changes but some records and their columns. -/
structure Consults (records : List NodeId) (w v : World σ Forest) : Prop where
  asks : OnlyAsks w.log v.log
  learns : Learns w.state v.state
  cell {d} : (w.state.cell d).owner ∉ records → v.state.cell d = w.state.cell d
  node {m} : m ∉ records → v.state.node m = w.state.node m

namespace Consults

variable {records others : List NodeId} {u v : World σ Forest}

theorem refl (records : List NodeId) (w : World σ Forest) : Consults records w w :=
  ⟨OnlyAsks.refl _, Learns.refl, fun _ => rfl, fun _ => rfl⟩

theorem reaches (h : Consults records w v) : Reaches records w.state v.state :=
  ⟨h.learns.steady, h.cell⟩

theorem trans (h : Consults records w v) (h' : Consults records v u) : Consults records w u :=
  ⟨h.asks.trans h'.asks, h.learns.trans h'.learns, (h.reaches.trans h'.reaches).cell,
    fun hm => (h'.node hm).trans (h.node hm)⟩

theorem mono (h : Consults records w v) (hsub : ∀ n ∈ records, n ∈ others) :
    Consults others w v :=
  ⟨h.asks, h.learns, (h.reaches.mono hsub).cell, fun hm => h.node fun hmem => hm (hsub _ hmem)⟩

end Consults

/-- Reading clean columns of a record that are not its key reaches that record alone. -/
theorem consults_readCells (c : Connector σ) (hf : WellFormed w.state)
    (hcells : ∀ d ∈ cells, d ∈ (w.state.node n).cells ∧ (w.state.cell d).isKey = false ∧
      (w.state.cell d).isDirty = false) :
    (readCells c n cells).Ensures w fun _ v => Consults [n] w v := by
  obtain ⟨hlog, hstate⟩ := readCells_spec c n cells w
  rcases hstate with hstate | ⟨values, hstate⟩
  · refine ⟨hlog, ?_, fun _ => by rw [hstate], fun _ => by rw [hstate]⟩
    rw [hstate]
    exact Learns.refl
  · refine ⟨hlog, ?_, fun {d} hd => ?_, fun {m} _ => ?_⟩ <;> rw [hstate]
    · exact Learns.refl.load values hcells
    · exact (reaches_load hf values fun d hd => ⟨(hcells d hd).1, (hcells d hd).2.1⟩).cell hd
    · rw [node_load]

/-- Reading links reaches that record alone. -/
theorem consults_readLinks (c : Connector σ) (n : NodeId) (hf : WellFormed w.state) :
    (readLinks c n).Ensures w fun _ v => Consults [n] w v := by
  rw [readLinks, Action.Ensures, Action.perform_state_bind]
  exact consults_readCells c hf fun d hd => unreadLinks_spec hf hd

/-- The clean columns of a record that has a row are columns of it, none of them its key. -/
theorem mem_cleanCells {f : Forest} (hf : WellFormed f) (hbound : f.isNew n = false) {d : CellId}
    (hd : d ∈ f.cleanCells n) :
    d ∈ (f.node n).cells ∧ (f.cell d).isKey = false ∧ (f.cell d).isDirty = false := by
  rw [cleanCells, List.mem_filter, Bool.not_eq_true'] at hd
  exact ⟨hd.1, isKey_eq_false_of_clean hf hd.1 hbound hd.2, hd.2⟩

/-- Fetching a record that has a row reaches that record alone. -/
theorem consults_fetchNode (c : Connector σ) (hf : WellFormed w.state)
    (hn : w.state.isNew n = false) :
    (fetchNode c n).Ensures w fun _ v => Consults [n] w v := by
  rw [fetchNode, Action.Ensures, Action.perform_state_bind]
  refine Action.Ensures.seq Consults.trans
    (consults_readCells c hf fun d hd => mem_cleanCells hf hn hd) fun _ v _ => ?_
  refine ⟨OnlyAsks.refl _, Learns.refl.setCurrent n true, fun _ => rfl, fun {m} hm => ?_⟩
  rw [List.mem_singleton] at hm
  exact (node_modifyNode ..).trans (if_neg fun h => hm h.1)

/-! ## What is behind joins -/

theorem consults_seedChild {e : EdgeId} {child : NodeId} (hf : WellFormed w.state)
    (he : w.state.HasEdge e) (hchild : w.state.childOf e = child) :
    Consults [child] w (w.withState (w.state.seedChild e)) := by
  subst hchild
  exact ⟨OnlyAsks.refl _, Learns.refl.seed he, (reaches_seedChild hf he).cell,
    fun _ => node_seedChild ..⟩

section

variable {e : EdgeId} {child : NodeId} {below next : Branches}

theorem perform_resolveBelow_deleted (h : (w.state.node child).deleted = true) :
    (resolveBelow c (.cons e child below next)).perform w = (resolveBelow c next).perform w := by
  rw [resolveBelow, Action.perform_state_bind, h]
  rfl

theorem perform_resolveBelow_kept (h : (w.state.node child).deleted = false) :
    (resolveBelow c (.cons e child below next)).perform w =
      (readLinks c child >>= fun _ => resolveBelow c below >>= fun _ =>
        resolveBelow c next).perform (w.withState (w.state.seedChild e)) := by
  rw [resolveBelow, Action.perform_state_bind, h]
  exact Action.perform_update_bind _ _ w

end

/-- Resolving reaches the records behind the joins alone. -/
theorem consults_resolveBelow (c : Connector σ) {n : NodeId} (b : Branches)
    (hf : WellFormed w.state) (hb : w.state.Hangs n b) :
    (resolveBelow c b).Ensures w fun _ v => Consults b.preOrder w v := by
  induction b generalizing n w with
  | nil => exact Consults.refl _ _
  | cons e child below next ihBelow ihNext =>
    obtain ⟨he, hchild, -, hbelow, hnext⟩ := hb
    have hsub : ∀ m, m = child ∨ m ∈ below.preOrder ∨ m ∈ next.preOrder →
        m ∈ (Branches.cons e child below next).preOrder := fun m hm =>
      List.mem_cons.2 (hm.imp_right List.mem_append.2)
    cases hdel : (w.state.node child).deleted with
    | true =>
      rw [Action.Ensures, perform_resolveBelow_deleted hdel]
      exact Consults.mono (ihNext hf hnext) fun m hm => hsub m (Or.inr (Or.inr hm))
    | false =>
      rw [Action.Ensures, perform_resolveBelow_kept hdel]
      have hseed : Consults [child] w (w.withState (w.state.seedChild e)) :=
        consults_seedChild hf (hf.hasEdge he) hchild
      refine (hseed.mono fun m hm => hsub m (Or.inl (List.mem_singleton.1 hm))).trans ?_
      have hs := hseed.reaches.toSteady
      refine Action.Ensures.seq Consults.trans ?_ fun _ v hv => ?_
      · exact (consults_readLinks c child (hs.wellFormed hf)).mono fun _ _ h =>
          h.mono fun m hm => hsub m (Or.inl (List.mem_singleton.1 hm))
      have hs := hs.trans hv.reaches.toSteady
      refine Action.Ensures.seq Consults.trans ?_ fun _ u hu => ?_
      · exact (ihBelow (hs.wellFormed hf) (hs.shape.hangs hbelow)).mono fun _ _ h =>
          h.mono fun m hm => hsub m (Or.inr (Or.inl hm))
      have hs := hs.trans hu.reaches.toSteady
      exact (ihNext (hs.wellFormed hf) (hs.shape.hangs hnext)).mono fun _ _ h =>
        h.mono fun m hm => hsub m (Or.inr (Or.inr hm))

/-! ## Marks -/

/-- Nothing but columns changed from the first world to the second. -/
def SameNodes (w v : World σ Forest) : Prop := ∀ m, v.state.node m = w.state.node m

theorem SameNodes.trans {u : World σ Forest} (h : SameNodes w v) (h' : SameNodes v u) :
    SameNodes w u := fun m => (h' m).trans (h m)

theorem sameNodes_readLinks (c : Connector σ) (n : NodeId) (w : World σ Forest) :
    (readLinks c n).Ensures w fun _ v => SameNodes w v := by
  rw [readLinks, Action.Ensures, Action.perform_state_bind]
  obtain ⟨-, hstate⟩ := readCells_spec c n (w.state.unreadLinks n) w
  intro m
  rcases hstate with hstate | ⟨values, hstate⟩ <;> rw [hstate]
  rw [node_load]

/-- Resolving reads links and gives keys, which marks no record. -/
theorem sameNodes_resolveBelow (c : Connector σ) (b : Branches) (w : World σ Forest) :
    (resolveBelow c b).Ensures w fun _ v => SameNodes w v := by
  induction b generalizing w with
  | nil => exact fun _ => rfl
  | cons e child below next ihBelow ihNext =>
    cases hdel : (w.state.node child).deleted with
    | true =>
      rw [Action.Ensures, perform_resolveBelow_deleted hdel]
      exact ihNext w
    | false =>
      have hseed : SameNodes w (w.withState (w.state.seedChild e)) := fun _ => node_seedChild ..
      rw [Action.Ensures, perform_resolveBelow_kept hdel]
      refine hseed.trans (Action.Ensures.seq (R := SameNodes) SameNodes.trans
        (sameNodes_readLinks c child _) fun _ r _ => ?_)
      exact Action.Ensures.seq (R := SameNodes) SameNodes.trans (ihBelow r) fun _ s _ => ihNext s

/-! ## Fetching -/

section

variable {e : EdgeId} {child : NodeId} {below next : Branches}

theorem perform_fetchBelow_deleted (h : (w.state.node child).deleted = true) :
    (fetchBelow c (.cons e child below next)).perform w = (fetchBelow c next).perform w := by
  rw [fetchBelow, Action.perform_state_bind, h]
  rfl

theorem perform_fetchBelow_unbound (h : (w.state.node child).deleted = false)
    (hbound : (w.state.seedChild e).isBound child = false) :
    (fetchBelow c (.cons e child below next)).perform w =
      (fetchBelow c next).perform (w.withState (w.state.seedChild e)) := by
  rw [fetchBelow, Action.perform_state_bind, h]
  refine (Action.perform_update_bind _ _ w).trans ((Action.perform_state_bind _ _).trans ?_)
  rw [hbound]
  rfl

theorem perform_fetchBelow_bound (h : (w.state.node child).deleted = false)
    (hbound : (w.state.seedChild e).isBound child = true) :
    (fetchBelow c (.cons e child below next)).perform w =
      (fetchNode c child >>= fun _ => fetchBelow c below >>= fun _ =>
        fetchBelow c next).perform (w.withState (w.state.seedChild e)) := by
  rw [fetchBelow, Action.perform_state_bind, h]
  refine (Action.perform_update_bind _ _ w).trans ((Action.perform_state_bind _ _).trans ?_)
  rw [hbound]
  rfl

end

/-- Fetching what is behind joins reaches the records there alone. -/
theorem consults_fetchBelow (c : Connector σ) {n : NodeId} (b : Branches)
    (hf : WellFormed w.state) (hb : w.state.Hangs n b) :
    (fetchBelow c b).Ensures w fun _ v => Consults b.preOrder w v := by
  induction b generalizing n w with
  | nil => exact Consults.refl _ _
  | cons e child below next ihBelow ihNext =>
    obtain ⟨he, hchild, -, hbelow, hnext⟩ := hb
    have hsub : ∀ m, m = child ∨ m ∈ below.preOrder ∨ m ∈ next.preOrder →
        m ∈ (Branches.cons e child below next).preOrder := fun m hm =>
      List.mem_cons.2 (hm.imp_right List.mem_append.2)
    have hseed := consults_seedChild (w := w) hf (hf.hasEdge he) hchild
    have hs := hseed.learns.steady
    cases hdel : (w.state.node child).deleted with
    | true =>
      rw [Action.Ensures, perform_fetchBelow_deleted hdel]
      exact Consults.mono (ihNext hf hnext) fun m hm => hsub m (Or.inr (Or.inr hm))
    | false =>
      cases hbound : (w.state.seedChild e).isBound child with
      | false =>
        rw [Action.Ensures, perform_fetchBelow_unbound hdel hbound]
        refine (hseed.mono fun m hm => hsub m (Or.inl (List.mem_singleton.1 hm))).trans ?_
        exact Consults.mono (ihNext (hs.wellFormed hf) (hs.shape.hangs hnext)) fun m hm =>
          hsub m (Or.inr (Or.inr hm))
      | true =>
        rw [Action.Ensures, perform_fetchBelow_bound hdel hbound]
        refine (hseed.mono fun m hm => hsub m (Or.inl (List.mem_singleton.1 hm))).trans ?_
        refine Action.Ensures.seq Consults.trans ?_ fun _ v hv => ?_
        · have hnew : (w.state.seedChild e).isNew child = false := (isBound_iff.1 hbound).1
          exact (consults_fetchNode c (hs.wellFormed hf) hnew).mono fun _ _ h =>
            h.mono fun m hm => hsub m (Or.inl (List.mem_singleton.1 hm))
        have hs := hs.trans hv.learns.steady
        refine Action.Ensures.seq Consults.trans ?_ fun _ u hu => ?_
        · exact (ihBelow (hs.wellFormed hf) (hs.shape.hangs hbelow)).mono fun _ _ h =>
            h.mono fun m hm => hsub m (Or.inr (Or.inl hm))
        have hs := hs.trans hu.learns.steady
        exact (ihNext (hs.wellFormed hf) (hs.shape.hangs hnext)).mono fun _ _ h =>
          h.mono fun m hm => hsub m (Or.inr (Or.inr hm))

/-- Fetching reaches the record and those below it, if it has a row. -/
theorem consults_fetch (c : Connector σ) (n : NodeId) (hf : WellFormed w.state) :
    (fetch c n).Ensures w fun _ v => Consults (n :: (w.state.below n).preOrder) w v := by
  rw [fetch, Action.Ensures, Action.perform_state_bind]
  cases hbound : w.state.isBound n with
  | false => exact Consults.refl _ _
  | true =>
    show Consults _ w ((fetchTree c n).perform w).2
    rw [fetchTree, Action.perform_state_bind]
    have hnew : w.state.isNew n = false := (isBound_iff.1 hbound).1
    refine Action.Ensures.seq Consults.trans ?_ fun _ v hv => ?_
    · exact (consults_fetchNode c hf hnew).mono fun _ _ h => h.mono (by simp)
    have hs := hv.learns.steady
    exact (consults_fetchBelow c _ (hs.wellFormed hf) (hs.shape.hangs (hangs_below hf n))).mono
      fun _ _ h => h.mono fun m hm => List.mem_cons_of_mem _ hm

end LinkedRows
