/-
# Saving what was not changed

Saving an untouched record writes nothing to the columns that a reader knows, but it is not always
silent: each link follows its child, and a link that was read again after its child had been bound
may hold another value by now.  The child then wins, the link counts as assigned, and the record is
updated.

`save_unchanged_iff` says when a save without changes is silent: the record has a row, and each link
at or below it holds the key that its child has, or the one that its child would take from it
(`Settled`).

The argument goes through the three parts of a save.  Nothing is read, since nothing is pending;
new children take their keys from the links (`seedBelow`); then as long as nothing is written the
forest only drifts: no column changes but clean links, and those become assigned for good
(`Drifts`), which the record they belong to notices when its turn comes.
-/

import LinkedRows.Proofs.Saving

namespace LinkedRows

namespace Forest

/-- The key of the child of a join, or the one that it would take from the link. -/
def takenKey (f : Forest) (e : EdgeId) : Value :=
  if f.isNew (f.edge e).child then (f.cell (f.edge e).link).value else f.keyValue (f.edge e).child

/-- The record has a row, and each link at or below it that is not assigned holds the key of its
child. -/
def Settled (f : Forest) (n : NodeId) : Prop :=
  f.isNew n = false ∧ ∀ e ∈ (f.below n).allJoins, (f.cell (f.edge e).link).isDirty = true ∨
    (f.cell (f.edge e).link).value.agrees (f.takenKey e) = true

instance (f : Forest) (n : NodeId) : Decidable (f.Settled n) :=
  inferInstanceAs (Decidable (_ ∧ ∀ e ∈ _, _ ∨ _))

/-- The link of a join does not follow its child: the child is new, the link is assigned, or both
agree. -/
def Agrees (f : Forest) (e : EdgeId) : Prop :=
  f.isNew (f.edge e).child = true ∨ (f.cell (f.edge e).link).isDirty = true ∨
    (f.cell (f.edge e).link).value.agrees (f.keyValue (f.edge e).child) = true

/-- Agreement is a matter of columns alone. -/
theorem Agrees.of_cells {f g : Forest} {e : EdgeId} (h : f.Agrees e) (hs : SameShape f g)
    (hc : ∀ c, g.cell c = f.cell c) : g.Agrees e := by
  unfold Agrees isNew keyValue at h ⊢
  rwa [hs.edge, hs.key, hc, hc]

/-- New children take the keys that their links hold, parents first. -/
def seedBelow : Branches → Forest → Forest
  | .nil, f => f
  | .cons e _ below next, f => seedBelow next (seedBelow below (f.seedChild e))

variable {f g h : Forest}

/-! ## New children take their keys -/

theorem learns_seedBelow {n : NodeId} {b : Branches} (hf : WellFormed f) (hb : f.Hangs n b) :
    Learns f (seedBelow b f) := by
  induction b generalizing f n with
  | nil => exact Learns.refl
  | cons e child below next ihBelow ihNext =>
    obtain ⟨he, -, -, hbelow, hnext⟩ := hb
    have h₁ : Learns f (f.seedChild e) := Learns.refl.seed (hf.hasEdge he)
    have h₂ := h₁.trans (ihBelow (h₁.steady.wellFormed hf) (h₁.steady.shape.hangs hbelow))
    exact h₂.trans (ihNext (h₂.steady.wellFormed hf) (h₂.steady.shape.hangs hnext))

/-- Seeding leaves all columns but the keys of new records alone, and a new record that gets a key
gets it from its own link. -/
structure Seeded (f g : Forest) : Prop where
  shape : SameShape f g
  cell_of_column {c} : (f.cell c).isKey = false → g.cell c = f.cell c
  cell_of_dirty {c} : (f.cell c).isDirty = true → g.cell c = f.cell c
  taken {e} : f.HasEdge e → (f.cell (f.edge e).link).isKey = false →
    f.isNew (f.edge e).child = true → g.isNew (f.edge e).child = true ∨
      g.keyValue (f.edge e).child = (f.cell (f.edge e).link).value

theorem Seeded.refl (f : Forest) : Seeded f f :=
  ⟨rfl, fun _ => rfl, fun _ => rfl, fun _ _ h => Or.inl h⟩

theorem Seeded.seed (hf : WellFormed f) (hs : Seeded f g) {e : EdgeId} (he : f.HasEdge e) :
    Seeded f (g.seedChild e) := by
  have hg := hf.of_sameShape hs.shape
  have heg := (hs.shape.hasEdge e).2 he
  have hreach := reaches_seedChild hg heg
  refine ⟨hs.shape.trans hreach.shape, fun {c} hk => ?_, fun {c} hd => ?_,
    fun {e'} he' hk hnew => ?_⟩
  · rw [cell_seedChild_of_ne, hs.cell_of_column hk]
    rintro rfl
    rw [← hs.shape.isKey, isKey_key hg (hg.hasChild heg)] at hk
    exact Bool.false_ne_true hk.symm
  · by_cases hc : c = (g.node (g.edge e).child).key
    · have hbound : g.isNew (g.edge e).child = false := by
        rw [isNew, ← hc, hs.cell_of_dirty hd, hd]
        rfl
      rw [seedChild_of_bound hbound, hs.cell_of_dirty hd]
    · rw [cell_seedChild_of_ne hc, hs.cell_of_dirty hd]
  · have htaken := hs.taken he' hk hnew
    rw [← hs.shape.edge] at htaken ⊢
    by_cases hchild : (g.edge e').child = (g.edge e).child
    · have heg' := (hs.shape.hasEdge e').2 he'
      obtain rfl := hg.edge_unique heg' heg hchild
      cases hstill : g.isNew (g.edge e').child with
      | false =>
        rw [seedChild_of_bound hstill]
        exact htaken
      | true =>
        by_cases hv : (g.cell (g.edge e').link).value = .null
        · rw [seedChild_of_null hv]
          exact htaken
        · rw [seedChild_of_value hstill hv]
          refine Or.inr ?_
          rw [keyValue_setKey hg (hg.hasChild heg), hs.shape.edge, hs.cell_of_column hk]
    · have hmem : (g.edge e').child ∉ [(g.edge e).child] := by simpa using hchild
      have hhas := hg.hasChild ((hs.shape.hasEdge e').2 he')
      rwa [hreach.isNew hg hhas hmem, hreach.keyValue hg hhas hmem]

theorem seeded_seedBelow {n : NodeId} {b : Branches} (hf : WellFormed f) (hs : Seeded f g)
    (hb : f.Hangs n b) : Seeded f (seedBelow b g) := by
  induction b generalizing g n with
  | nil => exact hs
  | cons e child below next ihBelow ihNext =>
    obtain ⟨he, -, -, hbelow, hnext⟩ := hb
    exact ihNext (ihBelow (hs.seed hf (hf.hasEdge he)) hbelow) hnext

/-- Every child whose link is an ordinary column that is not null has a key after seeding. -/
theorem isNew_seedBelow {n : NodeId} {b : Branches} (hf : WellFormed f) (hs : Seeded f g)
    (hb : f.Hangs n b) {e : EdgeId} (he : e ∈ b.allJoins)
    (hk : (f.cell (f.edge e).link).isKey = false)
    (hv : (f.cell (f.edge e).link).value ≠ .null) :
    (seedBelow b g).isNew (f.edge e).child = false := by
  induction b generalizing g n with
  | nil => exact absurd he List.not_mem_nil
  | cons e' child below next ihBelow ihNext =>
    obtain ⟨he', -, -, hbelow, hnext⟩ := hb
    have hs₁ := hs.seed hf (hf.hasEdge he')
    have hs₂ := seeded_seedBelow hf hs₁ hbelow
    have hkeeps {g₁ g₂ : Forest} (h₁ : Seeded f g₁) (h : Learns g₁ g₂)
        (hbound : g₁.isNew (f.edge e).child = false) (hedge : f.HasEdge e) :
        g₂.isNew (f.edge e).child = false :=
      h.steady.isNew (hf.of_sameShape h₁.shape) ((h₁.shape.hasNode _).2 (hf.hasChild hedge)) hbound
    have hlearnsNext := learns_seedBelow (hf.of_sameShape hs₂.shape) (hs₂.shape.hangs hnext)
    rw [Branches.mem_allJoins_cons] at he
    rcases he with rfl | he | he
    · have hedge := hf.hasEdge he'
      have hlearns := (learns_seedBelow (hf.of_sameShape hs₁.shape)
        (hs₁.shape.hangs hbelow)).trans hlearnsNext
      refine hkeeps hs₁ hlearns ?_ hedge
      rw [← hs.shape.edge]
      cases hnew : g.isNew (g.edge e).child with
      | false => rw [seedChild_of_bound hnew, hnew]
      | true =>
        rw [seedChild_of_value hnew (by rwa [hs.shape.edge, hs.cell_of_column hk]), isNew,
          (sameShape_setKey g _ _).key, setKey, cell_modifyCell_self _
            ((hf.of_sameShape hs.shape).hasCell_key
              ((hf.of_sameShape hs.shape).hasChild ((hs.shape.hasEdge e).2 hedge)))]
        rfl
    · exact hkeeps hs₂ hlearnsNext (ihBelow hs₁ hbelow he) (hasEdge_of_mem_allJoins hf hbelow he)
    · exact ihNext hs₂ hnext he

theorem agrees_null : Value.null.agrees .null = true := rfl

/-- A key that is a link has a value of its own only if its record exists, and otherwise the child
is new as well. -/
theorem key_link_cases (hf : Untouched f) {e : EdgeId} (he : f.HasEdge e)
    (hk : (f.cell (f.edge e).link).isKey = true) : (f.cell (f.edge e).link).isDirty = true ∨
      f.isNew (f.edge e).child = true ∧ (f.cell (f.edge e).link).value = .null := by
  have hwf := hf.toWellFormed
  have howner : (f.node (f.edge e).owner).key = (f.edge e).link := Untouched.link_eq_key hwf he hk
  cases hd : (f.cell (f.edge e).link).isDirty with
  | true => exact Or.inl rfl
  | false =>
    have hnew : f.isNew (f.edge e).owner = true := by rw [isNew, howner, hd]; rfl
    have hvalue := keyValue_of_isNew hwf hf.unstored (hf.hasEdgeOwner he) hnew
    rw [keyValue, howner] at hvalue
    refine Or.inr ⟨?_, hvalue⟩
    by_contra hchild
    rw [hf.ownerBound he hk (Bool.not_eq_true _ ▸ hchild)] at hnew
    exact Bool.false_ne_true hnew

/-- After seeding a link agrees with its child exactly if it did before, where a new child counts
as having the key that it would take. -/
theorem agrees_seedBelow_iff {n : NodeId} {b : Branches} (hf : Untouched f) (hb : f.Hangs n b)
    {e : EdgeId} (he : e ∈ b.allJoins) :
    (seedBelow b f).Agrees e ↔ (f.cell (f.edge e).link).isDirty = true ∨
      (f.cell (f.edge e).link).value.agrees (f.takenKey e) = true := by
  have hwf := hf.toWellFormed
  have hedge := hasEdge_of_mem_allJoins hwf hb he
  have hs := seeded_seedBelow hwf (Seeded.refl f) hb
  have hg := hf.learns (learns_seedBelow hwf hb)
  unfold Agrees takenKey
  rw [hs.shape.edge]
  cases hk : (f.cell (f.edge e).link).isKey with
  | true =>
    -- A key that links to a record agrees with it always: it has no value of its own.
    have hafter := key_link_cases hg ((hs.shape.hasEdge e).2 hedge)
    rw [hs.shape.edge, hs.shape.isKey] at hafter
    refine iff_of_true ?_ ?_
    · rcases hafter hk with h | ⟨hnew, -⟩
      · exact Or.inr (Or.inl h)
      · exact Or.inl hnew
    · rcases key_link_cases hf hedge hk with h | ⟨hnew, hv⟩
      · exact Or.inl h
      · exact Or.inr (by rw [if_pos hnew, hv]; rfl)
  | false =>
    have hclean := hf.clean hk
    rw [hs.cell_of_column hk, hclean]
    cases hnew : f.isNew (f.edge e).child with
    | false =>
      have hhas := hwf.hasChild hedge
      have hkey : (seedBelow b f).cell (f.node (f.edge e).child).key =
          f.cell (f.node (f.edge e).child).key :=
        hs.cell_of_dirty (by rwa [isNew, Bool.not_eq_false'] at hnew)
      rw [isNew, keyValue, hs.shape.key, hkey]
      rw [isNew] at hnew
      rw [hnew]
      simp [keyValue]
    | true =>
      by_cases hv : (f.cell (f.edge e).link).value = .null
      · rcases hs.taken hedge hk hnew with h | h
        · simp [h, hv, agrees_null]
        · simp [h, hv, agrees_null]
      · have hbound := isNew_seedBelow hwf (Seeded.refl f) hb he hk hv
        rcases hs.taken hedge hk hnew with h | h
        · exact absurd (h.symm.trans hbound) (by decide)
        · simp [h, hbound]

/-! ## Drifting -/

/-- No column changes but clean ones that are not keys, and those become assigned. -/
structure Drifts (f g : Forest) : Prop where
  shape : SameShape f g
  cell (c) : g.cell c = f.cell c ∨
    (f.cell c).isKey = false ∧ (f.cell c).isDirty = false ∧ (g.cell c).isDirty = true

/-- No record has a row through the key of one that has none. -/
def OwnersBound (f : Forest) : Prop := ∀ e, f.HasEdge e → (f.cell (f.edge e).link).isKey = true →
  f.isNew (f.edge e).child = false → f.isNew (f.edge e).owner = false

namespace Drifts

theorem of_cells (hs : SameShape f g) (hc : ∀ c, g.cell c = f.cell c) : Drifts f g :=
  ⟨hs, fun c => Or.inl (hc c)⟩

theorem trans (hfg : Drifts f g) (hgh : Drifts g h) : Drifts f h where
  shape := hfg.shape.trans hgh.shape
  cell c := by
    rcases hfg.cell c with hc | ⟨hk, hclean, hdirty⟩
    · have hch := hgh.cell c
      rwa [hc] at hch
    · rcases hgh.cell c with hc | ⟨-, hclean', -⟩
      · exact Or.inr ⟨hk, hclean, hc ▸ hdirty⟩
      · exact absurd (hdirty.symm.trans hclean') (by decide)

theorem dirty (hd : Drifts f g) {c : CellId} (h : (f.cell c).isDirty = true) :
    (g.cell c).isDirty = true := by
  rcases hd.cell c with hc | ⟨-, -, hc⟩
  · rwa [hc]
  · exact hc

theorem cell_key (hd : Drifts f g) (hf : WellFormed f) {n : NodeId} (hn : f.HasNode n) :
    g.cell (g.node n).key = f.cell (f.node n).key := by
  rw [hd.shape.key]
  rcases hd.cell (f.node n).key with hc | ⟨hk, -, -⟩
  · exact hc
  · exact absurd ((isKey_key hf hn).symm.trans hk) (by decide)

theorem isNew (hd : Drifts f g) (hf : WellFormed f) {n : NodeId} (hn : f.HasNode n) :
    g.isNew n = f.isNew n := by rw [Forest.isNew, Forest.isNew, hd.cell_key hf hn]

theorem ownersBound (hd : Drifts f g) (hf : WellFormed f) (hbound : OwnersBound f) :
    OwnersBound g := fun e he hk hchild => by
  have he := (hd.shape.hasEdge e).1 he
  rw [hd.shape.edge, hd.shape.isKey] at hk
  rw [hd.shape.edge, hd.isNew hf (hf.hasChild he)] at hchild
  rw [hd.shape.edge, hd.isNew hf (hf.hasEdgeOwner he)]
  exact hbound e he hk hchild

/-- Where link and child agree after drifting they agreed before, or the link became assigned. -/
theorem agrees (hd : Drifts f g) (hf : WellFormed f) {e : EdgeId} (he : f.HasEdge e)
    (h : g.Agrees e) : f.Agrees e ∨ (g.cell (f.edge e).link).isDirty = true := by
  unfold Agrees at h ⊢
  rw [hd.shape.edge, hd.isNew hf (hf.hasChild he), keyValue, hd.cell_key hf (hf.hasChild he)] at h
  rcases hd.cell (f.edge e).link with hc | ⟨-, -, hdirty⟩
  · rw [hc] at h
    exact Or.inl h
  · exact Or.inr hdirty

end Drifts

/-- A link that follows a child with its row lets the forest drift, and is assigned afterwards
unless both agreed. -/
theorem drifts_followChild (hf : WellFormed f) (hbound : OwnersBound f) {e : EdgeId}
    (he : f.HasEdge e) : Drifts f (f.followChild e (f.isNew (f.edge e).child)) ∧
      (f.Agrees e ∨
        ((f.followChild e (f.isNew (f.edge e).child)).cell (f.edge e).link).isDirty = true) := by
  unfold followChild Agrees
  dsimp only
  split
  · rename_i h
    simp only [Bool.and_eq_true, Bool.not_eq_true', Bool.or_eq_true] at h
    obtain ⟨⟨hchild, hclean⟩, hagrees⟩ := h
    have hclean : (f.cell (f.edge e).link).isDirty = false :=
      hclean.resolve_left fun hnew => by
        rw [hchild] at hnew
        exact Bool.false_ne_true hnew
    have hk : (f.cell (f.edge e).link).isKey = false := by
      by_contra hk
      rw [Bool.not_eq_false] at hk
      have howner := hbound e he hk hchild
      rw [isNew, Untouched.link_eq_key hf he hk, hclean] at howner
      exact absurd howner (by decide)
    refine ⟨⟨sameShape_modifyCell f _ fun _ => rfl, fun c => ?_⟩, Or.inr ?_⟩
    · rw [cell_modifyCell]
      split
      · rename_i hc
        exact Or.inr ⟨hc.1 ▸ hk, hc.1 ▸ hclean, rfl⟩
      · exact Or.inl rfl
    · rw [cell_modifyCell_self f (hf.hasLink he)]
      rfl
  · rename_i h
    refine ⟨Drifts.of_cells rfl fun _ => rfl, Or.inl ?_⟩
    cases hchild : f.isNew (f.edge e).child with
    | true => exact Or.inl rfl
    | false =>
      cases hdirty : (f.cell (f.edge e).link).isDirty with
      | true => exact Or.inr (Or.inl rfl)
      | false =>
        refine Or.inr (Or.inr ?_)
        by_contra hagrees
        exact h (by simp [hchild, hdirty, hagrees])

/-- A link that agrees with its child does not follow it. -/
theorem followChild_of_agrees {e : EdgeId} (h : f.Agrees e) :
    f.followChild e (f.isNew (f.edge e).child) = f := by
  unfold followChild
  dsimp only
  rw [if_neg]
  rcases h with h | h | h
  · simp [h]
  · cases hchild : f.isNew (f.edge e).child <;> simp [h]
  · simp [h]

end Forest

open Forest

variable {σ : Type} {c : Connector σ} {w v : World σ Forest} {n : NodeId}

/-! ## Saves that write nothing -/

/-- A record that is saved without a write had nothing pending, and is only marked. -/
theorem SavedNode.of_nil {direct : Bool} (h : SavedNode c n direct w [] v) :
    w.state.planSave? n direct = none ∧ v = w.withState (w.state.setCurrent n false) := by
  cases h with
  | nothing hplan => exact ⟨hplan, rfl⟩

theorem drifts_setCurrent (f : Forest) (n : NodeId) (current : Bool) :
    Drifts f (f.setCurrent n current) :=
  Drifts.of_cells (sameShape_setCurrent f n current) fun _ => rfl

/-- Of a record with nothing pending, a column that has become assigned by drifting is its key, and
was assigned before. -/
theorem dirty_of_pending_nil {f g : Forest} (hd : Drifts f g)
    (hpending : g.pendingCells n = []) {d : CellId} (hmem : d ∈ (f.node n).cells)
    (hdirty : (g.cell d).isDirty = true) : (f.cell d).isDirty = true := by
  rcases hd.cell d with h | ⟨hk, -, -⟩
  · rwa [← h]
  · have hin : d ∈ g.pendingCells n := mem_pendingCells.2
      ⟨hd.shape.cells n ▸ hmem, hdirty, (hd.shape.isKey d).trans hk⟩
    rw [hpending] at hin
    exact absurd hin List.not_mem_nil

/-- Saving what is behind joins without a write lets the forest drift.  Seen from any forest that it
drifted from, all links below the top agree with their children, and each one at the top does so or
is assigned afterwards. -/
theorem SavedBelow.drifts {b : Branches} {writes : List Write} (h : SavedBelow c b w writes v)
    (hnil : writes = []) (hf : Intact w.state) (hbound : OwnersBound w.state)
    (hb : w.state.Hangs n b) : Drifts w.state v.state ∧
      ∀ f, WellFormed f → Drifts f w.state → ∀ e ∈ b.allJoins, f.Agrees e ∨
        e ∈ b.joins ∧ (v.state.cell (f.edge e).link).isDirty = true := by
  induction h generalizing n with
  | nil =>
    exact ⟨Drifts.of_cells rfl fun _ => rfl, fun _ _ _ _ he => absurd he List.not_mem_nil⟩
  | deleted hdel => exact absurd hdel (by rw [hf.undeleted]; exact Bool.false_ne_true)
  | @kept e child below next w u t v deeper own later hdel hdeeper hnode hlater ihBelow ihNext =>
    obtain ⟨he, rfl, -, hbelow, hnext⟩ := hb
    rw [List.append_eq_nil_iff, List.append_eq_nil_iff] at hnil
    obtain ⟨⟨rfl, rfl⟩, rfl⟩ := hnil
    have hwf := hf.toWellFormed
    have hedge := hwf.hasEdge he
    obtain ⟨hd₁, hagree₁⟩ := ihBelow rfl hf hbound hbelow
    obtain ⟨hplan, rfl⟩ := hnode.of_nil
    have hpending := (planSave?_eq_none.1 hplan).1
    have hd₂ := hd₁.trans (drifts_setCurrent u.state (w.state.childOf e) false)
    have hfollow := drifts_followChild (hwf.of_sameShape hd₂.shape)
      (hd₂.ownersBound hwf hbound) ((hd₂.shape.hasEdge e).2 hedge)
    rw [hd₂.shape.edge, hd₂.isNew hwf (hwf.hasChild hedge)] at hfollow
    obtain ⟨hd₃, hagree₃⟩ := hfollow
    have hd := hd₂.trans hd₃
    have hs := (hdeeper.reaches hwf hbelow).2.1.trans ((steady_setCurrent u.state
      (w.state.childOf e) false).trans (steady_followChild _ e (w.state.isNew (w.state.childOf e))))
    obtain ⟨hd₄, hagree₄⟩ := ihNext rfl (hf.steady hs) (hd.ownersBound hwf hbound)
      (hd.shape.hangs hnext)
    refine ⟨hd.trans hd₄, fun f hfwf hdf e' he' => ?_⟩
    rw [Branches.mem_allJoins_cons] at he'
    rcases he' with rfl | he' | he'
    · -- The join itself: its link follows the child now, and stays assigned.
      rcases hagree₃ with hagree | hdirty
      · rcases (hdf.trans hd₂).agrees hfwf ((hdf.shape.hasEdge e').1 hedge) hagree with h | h
        · exact Or.inl h
        · exact Or.inr ⟨List.mem_cons_self .., hd₄.dirty (hd₃.dirty h)⟩
      · rw [congrArg Edge.link (hdf.shape.edge e')] at hdirty
        exact Or.inr ⟨List.mem_cons_self .., hd₄.dirty hdirty⟩
    · -- A join below: the child would have noticed an assigned link.
      rcases hagree₁ f hfwf hdf e' he' with h | ⟨htop, hdirty⟩
      · exact Or.inl h
      · have he' := edges_of_joins hbelow htop
        have hlink := hwf.link_mem (hwf.hasEdge he')
        rw [hwf.owner_of_edge he', hdf.shape.edge, hdf.shape.cells] at hlink
        exact Or.inl (Or.inr (Or.inl
          (dirty_of_pending_nil (hdf.trans hd₁) hpending hlink hdirty)))
    · rcases hagree₄ f hfwf (hdf.trans hd) e' he' with h | ⟨htop, hdirty⟩
      · exact Or.inl h
      · exact Or.inr ⟨List.mem_cons_of_mem _ htop, hdirty⟩

/-- Where all links agree with their children, saving what is behind joins writes nothing, and
changes nothing but marks. -/
theorem exists_savedBelow_of_agrees (b : Branches) (hf : Untouched w.state)
    (hb : w.state.Hangs n b) (hagree : ∀ e ∈ b.allJoins, w.state.Agrees e) :
    ∃ g, SavedBelow c b w [] (w.withState g) ∧ Learns w.state g ∧
      ∀ d, g.cell d = w.state.cell d := by
  induction b generalizing n w with
  | nil => exact ⟨w.state, SavedBelow.nil, Learns.refl, fun _ => rfl⟩
  | cons e child below next ihBelow ihNext =>
    obtain ⟨he, rfl, -, hbelow, hnext⟩ := hb
    have hwf := hf.toWellFormed
    obtain ⟨g₁, hsaved₁, hl₁, hcell₁⟩ := ihBelow hf hbelow fun e' he' =>
      hagree e' (Branches.mem_allJoins_cons.2 (Or.inr (Or.inl he')))
    have hl₂ := hl₁.setCurrent (w.state.childOf e) false
    have hd := Drifts.of_cells hl₂.steady.shape hcell₁
    have hagree₂ : (g₁.setCurrent (w.state.childOf e) false).Agrees e :=
      (hagree e (List.mem_cons_self ..)).of_cells hd.shape hcell₁
    have hfollow : (g₁.setCurrent (w.state.childOf e) false).followChild e
        (w.state.isNew (w.state.childOf e)) = g₁.setCurrent (w.state.childOf e) false := by
      have h := followChild_of_agrees hagree₂
      rwa [hd.isNew hwf (by rw [hd.shape.edge]; exact hwf.hasChild (hwf.hasEdge he)),
        hd.shape.edge] at h
    have hf₂ := hf.learns hl₂
    obtain ⟨g, hsaved, hl, hcell⟩ := ihNext
      (w := w.withState (g₁.setCurrent (w.state.childOf e) false)) hf₂ (hd.shape.hangs hnext)
      fun e' he' => (hagree e' (Branches.mem_allJoins_cons.2 (Or.inr (Or.inr he')))).of_cells
        hd.shape hcell₁
    refine ⟨g, ?_, hl₂.trans hl, fun d => (hcell d).trans (hcell₁ d)⟩
    have hplan : g₁.planSave? (w.state.childOf e) false = none :=
      planSave?_eq_none.2 ⟨(hf.learns hl₁).pendingCells_eq_nil _, fun _ => rfl⟩
    refine SavedBelow.kept (hf.undeleted _) hsaved₁ (SavedNode.nothing hplan) ?_
    show SavedBelow c next (w.withState ((g₁.setCurrent (w.state.childOf e) false).followChild e
      (w.state.isNew (w.state.childOf e)))) [] (w.withState g)
    rw [hfollow]
    exact hsaved

/-! ## The whole save -/

theorem not_hasChanges (hf : Untouched w.state) (n : NodeId) : w.state.hasChanges n = false := by
  rw [hasChanges, List.any_eq_false]
  intro m _
  simp [hf.pendingCells_eq_nil m]

/-- Where nothing is assigned, no link is read before a save. -/
theorem readLinks_of_untouched (hf : Untouched w.state) (n : NodeId) :
    (readLinks c n).perform w = (.ok (), w) := by
  have hnil : w.state.unreadLinks n = [] := by
    refine List.eq_nil_iff_forall_not_mem.2 fun d hd => ?_
    obtain ⟨-, e, -, -, -, -, -, hchanges⟩ := mem_unreadLinks_iff.1 hd
    rw [not_hasChanges hf] at hchanges
    exact Bool.false_ne_true hchanges
  rw [readLinks, Action.perform_state_bind, hnil]
  rfl

/-- Where nothing is assigned, resolving is seeding. -/
theorem resolveBelow_of_untouched (b : Branches) (hf : Untouched w.state)
    (hb : w.state.Hangs n b) :
    (resolveBelow c b).perform w = (.ok (), w.withState (seedBelow b w.state)) := by
  induction b generalizing n w with
  | nil => rfl
  | cons e child below next ihBelow ihNext =>
    obtain ⟨he, -, -, hbelow, hnext⟩ := hb
    have hl₁ : Learns w.state (w.state.seedChild e) := Learns.refl.seed (hf.hasEdge he)
    have hf₁ : Untouched (w.withState (w.state.seedChild e)).state := hf.learns hl₁
    have hbelow₁ := hl₁.steady.shape.hangs hbelow
    have hl₂ := hl₁.trans (learns_seedBelow hf₁.toWellFormed hbelow₁)
    rw [perform_resolveBelow_kept (hf.undeleted _),
      Action.perform_bind_ok (readLinks_of_untouched hf₁ child),
      Action.perform_bind_ok (ihBelow hf₁ hbelow₁),
      ihNext (hf.learns hl₂) (hl₂.steady.shape.hangs hnext)]
    rfl

/-- Seeding leaves the record itself as it is. -/
theorem isNew_seedBelow_self (c : Connector σ) (hf : Untouched w.state)
    (hn : w.state.HasNode n) :
    (seedBelow (w.state.below n) w.state).isNew n = w.state.isNew n := by
  have hwf := hf.toWellFormed
  have hb := hangs_below hwf n
  have hconsults := consults_resolveBelow c (w.state.below n) hwf hb
  rw [Action.Ensures, resolveBelow_of_untouched _ hf hb] at hconsults
  exact hconsults.reaches.isNew hwf hn (not_mem_below hwf n)

/-- The save of a settled record makes no call, and changes nothing that was assigned. -/
theorem save_settled (hf : Untouched w.state) (hn : w.state.HasNode n) (h : w.state.Settled n) :
    ∃ g, (save c n).perform w = (.ok (), w.withState g) ∧ Learns w.state g := by
  obtain ⟨hbound, hagree⟩ := h
  have hwf := hf.toWellFormed
  have hb := hangs_below hwf n
  have hl := learns_seedBelow hwf hb
  have hs : Untouched (w.withState (seedBelow (w.state.below n) w.state)).state := hf.learns hl
  obtain ⟨g, hbelow, hlg, hcell⟩ := exists_savedBelow_of_agrees (c := c) (w.state.below n) hs
    (hl.steady.shape.hangs hb) fun e he => (agrees_seedBelow_iff hf hb he).2 (hagree e he)
  have hlearns := hl.trans hlg
  have hplan : g.planSave? n true = none := by
    refine planSave?_eq_none.2 ⟨(hf.learns hlearns).pendingCells_eq_nil n, fun hnew => ?_⟩
    rw [hlearns.steady.isNew hwf hn hbound] at hnew
    exact absurd hnew Bool.false_ne_true
  refine ⟨g.setCurrent n false, save_ok_iff.2 ⟨[] ++ [], ?_⟩, hlearns.setCurrent n false⟩
  exact Saved.intro (hf.undeleted n) (readLinks_of_untouched hf n)
    (resolveBelow_of_untouched _ hf hb) hbelow (SavedNode.nothing hplan)

/-- **A save without changes executes nothing exactly if the record is settled.**  Of an untouched
forest, the save of a record succeeds without executing a statement if and only if the record has a
row and every link at or below it holds the key of its child, or the one its child would take. -/
theorem save_unchanged_iff (hf : Untouched w.state) (hn : w.state.HasNode n) :
    (∃ v, (save c n).perform w = (.ok (), v) ∧ executed v.log = executed w.log) ↔
      w.state.Settled n := by
  have hwf := hf.toWellFormed
  have hb := hangs_below hwf n
  have hl := learns_seedBelow hwf hb
  have hs := hf.learns hl
  have hresolve := resolveBelow_of_untouched (c := c) (w.state.below n) hf hb
  constructor
  · rintro ⟨v, hsave, hlog⟩
    obtain ⟨writes, hsaved⟩ := save_ok_iff.1 hsave
    have hnil := ((hsaved.executes hwf).eq_nil_iff).2 hlog
    cases hsaved with
    | @intro r s t _ below own _ hread hresolve' hbelow hnode =>
      rw [readLinks_of_untouched hf] at hread
      obtain ⟨-, rfl⟩ := Prod.mk.inj hread
      rw [hresolve] at hresolve'
      obtain ⟨-, rfl⟩ := Prod.mk.inj hresolve'
      rw [List.append_eq_nil_iff] at hnil
      obtain ⟨rfl, rfl⟩ := hnil
      obtain ⟨hd, hagree⟩ := hbelow.drifts rfl hs.toIntact (fun e => hs.ownerBound)
        (hl.steady.shape.hangs hb)
      obtain ⟨hplan, -⟩ := hnode.of_nil
      obtain ⟨hpending, hdirect⟩ := planSave?_eq_none.1 hplan
      have hbound : t.state.isNew n = false := by
        by_contra hnew
        exact absurd (hdirect (Bool.not_eq_false _ ▸ hnew)) (by decide)
      have hnS := (hl.steady.shape.hasNode n).2 hn
      refine ⟨?_, fun e he => (agrees_seedBelow_iff hf hb he).1 ?_⟩
      · rw [← isNew_seedBelow_self c hf hn, ← hbound]
        exact (hd.isNew hs.toWellFormed hnS).symm
      · rcases hagree _ hs.toWellFormed (Drifts.of_cells rfl fun _ => rfl) e he with
          h | ⟨htop, hdirty⟩
        · exact h
        · have hmem := edges_of_joins (hl.steady.shape.hangs hb) htop
          have hlink := hs.link_mem (hs.hasEdge hmem)
          rw [hs.owner_of_edge hmem] at hlink
          exact Or.inr (Or.inl (dirty_of_pending_nil hd hpending hlink hdirty))
  · intro h
    obtain ⟨g, hsave, -⟩ := save_settled (c := c) hf hn h
    exact ⟨_, hsave, rfl⟩

end LinkedRows
