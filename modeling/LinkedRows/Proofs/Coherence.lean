/-
# Children with the keys of their links

A forest is coherent if the children of all joins that are not new have the keys that the links
hold.  Assigning a link is meant to keep a forest so: it binds the records behind the link to the
row with the assigned key, and unbinds what hangs on links that are forgotten thereby.

It does for all joins but one kind.  A link may itself be a key: then the assigned key of the record
that is bound to another row is such a link, and rebinding passes over links that are assigned.
`assign_coherent_iff` says exactly when an assignment keeps a forest coherent, and what the joins
are like that are not: the link has the new key, and the child still has the old one.
-/

import LinkedRows.Proofs.Handles
import LinkedRows.Proofs.Relinking
import LinkedRows.Proofs.SelectionText

namespace LinkedRows

/-- Numbers that equal a third one are equal. -/
theorem Binary64.numericEq_trans {x y z : Binary64} (hxy : x.numericEq y = true)
    (hyz : y.numericEq z = true) : x.numericEq z = true := by
  simp only [numericEq, Bool.and_eq_true, Bool.or_eq_true, beq_iff_eq] at hxy hyz ⊢
  obtain ⟨⟨hx, -⟩, h⟩ := hxy
  obtain ⟨⟨-, hz⟩, h'⟩ := hyz
  refine ⟨⟨hx, hz⟩, ?_⟩
  rcases h with rfl | ⟨hx, hy⟩
  · exact h'
  · rcases h' with rfl | ⟨-, hz⟩
    · exact Or.inr ⟨hx, hy⟩
    · exact Or.inr ⟨hx, hz⟩

namespace Value

theorem isNull_eq_false_iff {x : Value} : x.isNull = false ↔ x ≠ .null := by
  cases x <;> simp [isNull]

/-- The values are the same, or agree as numbers. -/
def Same (x y : Value) : Prop := x = y ∨ x.agrees y = true

instance (x y : Value) : Decidable (x.Same y) := inferInstanceAs (Decidable (_ ∨ _))

/-- Values that agree are the same, or doubles that are equal as numbers. -/
theorem agrees_cases {x y : Value} (h : x.agrees y = true) :
    x = y ∨ ∃ a b, x = .double a ∧ y = .double b ∧ a.numericEq b = true := by
  cases x <;> cases y <;> simp_all [agrees]

theorem agrees_trans {x y z : Value} (hxy : x.agrees y = true) (hyz : y.agrees z = true) :
    x.agrees z = true := by
  rcases agrees_cases hxy with rfl | ⟨a, b, rfl, rfl, hab⟩
  · exact hyz
  · rcases agrees_cases hyz with rfl | ⟨b', c, hb, rfl, hbc⟩
    · exact hxy
    · obtain rfl := Value.double.inj hb
      exact Binary64.numericEq_trans hab hbc

theorem Same.trans_agrees {x y z : Value} (hxy : x.Same y) (hyz : y.agrees z = true) :
    x.Same z := by
  rcases hxy with rfl | hxy
  · exact Or.inr hyz
  · exact Or.inr (agrees_trans hxy hyz)

end Value

namespace Forest

variable {f g : Forest} {e : EdgeId} {d : CellId} {v : Value} {roots : List NodeId}

/-- The child of a join is new, or its key is the value of the link. -/
def CoherentAt (f : Forest) (e : EdgeId) : Prop :=
  f.isNew (f.edge e).child = true ∨ (f.keyValue (f.edge e).child).Same (f.linkValue e)

instance (f : Forest) (e : EdgeId) : Decidable (f.CoherentAt e) :=
  inferInstanceAs (Decidable (_ ∨ _))

/-- The children of all joins are new or have the values of their links for their keys. -/
def Coherent (f : Forest) : Prop := ∀ e, f.HasEdge e → f.CoherentAt e

instance (f : Forest) : Decidable f.Coherent :=
  decidable_of_iff (∀ i < f.edges.length, f.CoherentAt ⟨i⟩)
    ⟨fun h e he => h e.index he, fun h i hi => h ⟨i⟩ hi⟩

theorem coherentAt_iff : f.CoherentAt e ↔
    (f.childKey e).isDirty = false ∨ (f.childKey e).value.Same (f.linkValue e) := by
  rw [CoherentAt, isNew, Bool.not_eq_true']
  rfl

theorem Kept.coherentAt_iff (hk : Kept f g e) : g.CoherentAt e ↔ f.CoherentAt e := by
  rw [Forest.coherentAt_iff, Forest.coherentAt_iff, hk.1, hk.2]

/-- A child that follows its link is new or has its value for a key. -/
theorem Matched.coherentAt (hm : f.Matched e) : f.CoherentAt e := by
  rw [coherentAt_iff, Cell.isDirty, Cell.value, hm]
  split
  · exact Or.inl rfl
  · exact Or.inr (Or.inl rfl)

/-- The values of links that an assignment leaves alone stay the same, also if it changes nothing
but the sign of a zero. -/
theorem assign_of_agreeing (hf : Consistent f) (hd : f.HasCell d) (hk : (f.cell d).isKey = false)
    (h : (f.cell d).value.agrees v = true) (he : f.HasEdge e) :
    (f.linkValue e).Same ((f.assign d v).linkValue e) ∧
      (f.CoherentAt e → (f.assign d v).CoherentAt e) := by
  have hchild : (f.assign d v).childKey e = f.childKey e := by
    rw [assign_of_unchanged h, childKey, childKey, edge_modifyCell, node_modifyCell]
    exact cell_key_assignCell hf.toWellFormed hk (hf.hasChild he) v
  by_cases hl : (f.edge e).link = d
  · have hvalue : (f.assign d v).linkValue e = v := by
      rw [assign_of_unchanged h, linkValue, edge_modifyCell, hl, cell_modifyCell_self f hd]
      rfl
    have hold : f.linkValue e = (f.cell d).value := congrArg (fun d => (f.cell d).value) hl
    rw [hvalue, hold]
    refine ⟨Or.inr h, fun hc => ?_⟩
    rw [coherentAt_iff, hold] at hc
    rw [coherentAt_iff, hchild, hvalue]
    exact hc.imp_right fun hsame => hsame.trans_agrees h
  · have hvalue : (f.assign d v).linkValue e = f.linkValue e := by
      rw [assign_of_unchanged h, linkValue, edge_modifyCell, cell_modifyCell_of_ne f hl]
      rfl
    exact ⟨Or.inl hvalue.symm, (Kept.coherentAt_iff ⟨hvalue, hchild⟩).2⟩

/-- **When an assignment keeps a forest coherent.**  In a coherent forest, an assignment to a column
that is no key leads to a coherent one exactly if each record that hangs on the key of a record
bound to another row thereby has the new key already, or is new.  All other records whose links
changed have the values of their links for their keys then, or are new if these are null; but those
on a new key keep the keys that they had. -/
theorem assign_coherent_iff (hrun : Run roots f) (hf : f.Coherent) (hd : f.HasCell d)
    (hk : (f.cell d).isKey = false) (v : Value) :
    ((f.assign d v).Coherent ↔ ((f.cell d).value.agrees v = false → v ≠ .null →
      ∀ e, f.HasEdge e → f.ThroughKey (f.linkedBy d) e →
        f.isNew (f.edge e).child = true ∨ (f.keyValue (f.edge e).child).Same v)) ∧
    (∀ e, f.HasEdge e → ¬(f.linkValue e).Same ((f.assign d v).linkValue e) →
      (v ≠ .null → ¬f.ThroughKey (f.linkedBy d) e) → (f.assign d v).Matched e) ∧
    ((f.cell d).value.agrees v = false → v ≠ .null →
      ∀ e, f.HasEdge e → f.ThroughKey (f.linkedBy d) e →
        (f.assign d v).linkValue e = v ∧ (f.assign d v).childKey e = f.childKey e) := by
  have hconsistent := hrun.consistent
  have hs := sameShape_assign f d v
  cases hchanged : (f.cell d).value.agrees v with
  | true =>
    have hjoin {e : EdgeId} (he : f.HasEdge e) := assign_of_agreeing hconsistent hd hk hchanged he
    refine ⟨⟨nofun, fun _ e he => ?_⟩, fun e he hne => ?_, nofun⟩
    · have he := (hs.hasEdge e).1 he
      exact (hjoin he).2 (hf e he)
    · exact absurd (hjoin he).1 hne
  | false =>
    have hjoin {e : EdgeId} (he : f.HasEdge e) := assign_joins hconsistent hd hk hchanged he
    have hthrough (hnull : v ≠ .null) {e : EdgeId} (he : f.HasEdge e)
        (h : f.ThroughKey (f.linkedBy d) e) := (hjoin he).1 (Value.isNull_eq_false_iff.2 hnull) h
    have hothers {e : EdgeId} (he : f.HasEdge e)
        (h : v ≠ .null → ¬f.ThroughKey (f.linkedBy d) e) :=
      (hjoin he).2 fun hnull => h (Value.isNull_eq_false_iff.1 hnull)
    have hcoherentAt (hnull : v ≠ .null) {e : EdgeId} (he : f.HasEdge e)
        (h : f.ThroughKey (f.linkedBy d) e) : (f.assign d v).CoherentAt e ↔
          f.isNew (f.edge e).child = true ∨ (f.keyValue (f.edge e).child).Same v := by
      obtain ⟨hvalue, hchild⟩ := hthrough hnull he h
      rw [coherentAt_iff, hvalue, hchild, isNew, Bool.not_eq_true']
      rfl
    refine ⟨⟨fun hg _ hnull e he h => ?_, fun hkeys e he => ?_⟩, fun e he hne h => ?_,
      fun _ hnull e he h => hthrough hnull he h⟩
    · exact (hcoherentAt hnull he h).1 (hg e ((hs.hasEdge e).2 he))
    · have he := (hs.hasEdge e).1 he
      by_cases h : v ≠ .null ∧ f.ThroughKey (f.linkedBy d) e
      · exact (hcoherentAt h.1 he h.2).2 (hkeys rfl h.1 e he h.2)
      · rcases hothers he (fun hnull hkey => h ⟨hnull, hkey⟩) with hkept | hmatched
        · exact hkept.coherentAt_iff.2 (hf e he)
        · exact hmatched.coherentAt
    · rcases hothers he h with hkept | hmatched
      · exact absurd (Or.inl hkept.1.symm) hne
      · exact hmatched

/-! ### Links that are forgotten, and a link that is a key -/

/-- Row 7 of the first joined table links to row 8 of the second one. -/
def linkedTitles : RowsByText
  | "table1", "id", "7" => some fun _ => .int 8
  | "table2", "id", "8" => some fun _ => .text "Eight"
  | _, _, _ => none

/-- A title is read through two links, of which the second one was read from storage. -/
def readThroughLinks : List Operation :=
  let title : Path := .join "table2" "id" (.column "table2_id") (.column "title")
  [.addRoot "table0" "id" (.int 1), .ensureCell ⟨0⟩ "table1_id", .assign ⟨1⟩ (.int 7),
    .registerColumn ⟨0⟩ (.join "table1" "id" (.column "table1_id") title),
    .fetch (.ofRows .sqlite linkedTitles) () ⟨0⟩]

/-- Moving the first link forgets the second one, and the record behind it becomes new. -/
theorem assign_coherent_iff_forgotten :
    let f := readThroughLinks.foldl Operation.result Forest.empty
    Run [⟨0⟩] f ∧ f.Coherent ∧ f.linkValue ⟨1⟩ = .int 8 ∧ f.keyValue ⟨2⟩ = .int 8 ∧
      (f.assign ⟨1⟩ (.int 9)).Coherent ∧ (f.assign ⟨1⟩ (.int 9)).linkValue ⟨1⟩ = .null ∧
      (f.assign ⟨1⟩ (.int 9)).Matched ⟨1⟩ := by
  intro f
  have hroot := Run.empty.step (.addRoot "table0" "id" (.int 1)) trivial
  have hlink := hroot.step (readThroughLinks[1]) (by decide)
  have hassigned := hlink.step (readThroughLinks[2]) (by decide)
  have hregistered := hassigned.step (readThroughLinks[3]) (by decide +kernel)
  have hrun : Run [⟨0⟩] f := hregistered.step (readThroughLinks[4]) (by decide +kernel)
  have hstart : f.Coherent ∧ f.linkValue ⟨1⟩ = .int 8 ∧ f.keyValue ⟨2⟩ = .int 8 ∧
      f.HasCell ⟨1⟩ ∧ (f.cell ⟨1⟩).isKey = false ∧ f.HasEdge ⟨1⟩ ∧
      ∀ i < f.edges.length, ¬f.ThroughKey (f.linkedBy ⟨1⟩) ⟨i⟩ := by decide +kernel
  have hmoved : (f.assign ⟨1⟩ (.int 9)).linkValue ⟨1⟩ = .null ∧
      ¬(f.linkValue ⟨1⟩).Same ((f.assign ⟨1⟩ (.int 9)).linkValue ⟨1⟩) := by decide +kernel
  obtain ⟨hf, hvalue, hkey, hcell, hk, hedge, hkeyed⟩ := hstart
  obtain ⟨hcoherent, hmatched, -⟩ := assign_coherent_iff hrun hf hcell hk (.int 9)
  exact ⟨hrun, hf, hvalue, hkey, hcoherent.2 fun _ _ e he h => absurd h (hkeyed e.index he),
    hmoved.1, hmatched ⟨1⟩ hedge hmoved.2 fun _ => hkeyed 1 hedge⟩

/-- A title is joined through the key of a record that is joined through a link. -/
def joinedThroughKey : List Operation :=
  let link : Path := .join "table1" "id" (.column "table1_id") (.column "id")
  [.addRoot "table0" "id" (.int 1), .ensureCell ⟨0⟩ "table1_id", .assign ⟨1⟩ (.int 7),
    .registerColumn ⟨0⟩ (.join "table2" "id" link (.column "title"))]

/-- Moving the link moves the key, but not the record that is joined through the key. -/
theorem assign_leaves_joined_through_key :
    let f := joinedThroughKey.foldl Operation.result Forest.empty
    Run [⟨0⟩] f ∧ f.Coherent ∧ (f.cell ⟨1⟩).isKey = false ∧
      ¬(f.assign ⟨1⟩ (.int 9)).Coherent ∧
      (f.assign ⟨1⟩ (.int 9)).linkValue ⟨1⟩ = .int 9 ∧
      (f.assign ⟨1⟩ (.int 9)).keyValue ⟨2⟩ = .int 7 := by
  intro f
  have hroot := Run.empty.step (.addRoot "table0" "id" (.int 1)) trivial
  have hlink := hroot.step (joinedThroughKey[1]) (by decide)
  have hassigned := hlink.step (joinedThroughKey[2]) (by decide)
  have hrun : Run [⟨0⟩] f := hassigned.step (joinedThroughKey[3]) (by decide +kernel)
  exact ⟨hrun, by decide +kernel⟩

end Forest
end LinkedRows
