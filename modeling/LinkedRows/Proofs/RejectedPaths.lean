/-
# What a rejected path leaves behind

A path to a column whose end is a table, and a path to a table whose end is a column, are rejected
before anything is registered.  A path may end as it should and still hold a link that ends at a
table.  Then registering goes on until it comes to the end of that link, and stops there: it is
registering the way to that table, followed by a fault (`growColumn_of_deadEnd`,
`growTable_of_openLink`).

Registering a path whose links fit finds all of it and changes nothing, or adds a column
(`Finds`).  So a rejected path leaves a forest as it was exactly if its own end is refused, or if
the way to its first open link was registered already (`rejected_unchanged_iff`).
-/

import LinkedRows.Proofs.Forest.Registration

namespace LinkedRows

namespace Path

/-- The way to the first link that ends at a table: that link, behind the joins that come before
it. -/
def openLink? : Path → Option Path
  | .column _ => none
  | .table _ _ link => link.openLink?.or (if link.endsInColumn then none else some link)
  | .join name key link inner =>
    (link.openLink?.or (if link.endsInColumn then none else some link)).or
      (inner.openLink?.map (.join name key link))

/-- Where registering a path as one to a column stops: at its first open link, or at its end. -/
def deadEnd? (p : Path) : Option Path :=
  p.openLink?.or (if p.endsInColumn then none else some p)

/-- The last segment of a path. -/
def last : Path → Path
  | .join _ _ _ inner => inner.last
  | p => p

variable {p d link inner : Path} {name key : String}

theorem openLink?_table : (table name key link).openLink? = link.deadEnd? := rfl

theorem openLink?_join : (join name key link inner).openLink? =
    link.deadEnd?.or (inner.openLink?.map (.join name key link)) := rfl

theorem deadEnd?_table : (table name key link).deadEnd? =
    link.deadEnd?.or (some (.table name key link)) := rfl

theorem deadEnd?_join : (join name key link inner).deadEnd? =
    link.deadEnd?.or (inner.deadEnd?.map (.join name key link)) := by
  rw [deadEnd?, openLink?_join, Option.or_assoc, endsInColumn]
  unfold deadEnd?
  cases inner.openLink? <;> cases inner.endsInColumn <;> rfl

theorem deadEnd?_eq_none : p.deadEnd? = none ↔ p.openLink? = none ∧ p.endsInColumn = true := by
  unfold deadEnd?
  cases p.openLink? <;> cases p.endsInColumn <;> simp

/-- A path without open links fits. -/
theorem openLink?_eq_none : p.openLink? = none ↔ p.LinksFit := by
  induction p with
  | column name => simp [openLink?, LinksFit]
  | table name key link ih => rw [openLink?_table, deadEnd?_eq_none, ih, LinksFit]
  | join name key link inner ihLink ihInner =>
    rw [openLink?_join, Option.or_eq_none_iff, deadEnd?_eq_none, Option.map_eq_none_iff, ihLink,
      ihInner, LinksFit, and_assoc]

/-- The way to an open link is a path to a table that fits. -/
theorem linksFit_of_openLink (h : p.openLink? = some d) : d.LinksFit ∧ d.endsInColumn = false := by
  have hdead {q : Path} (ih : ∀ {d}, q.openLink? = some d → d.LinksFit ∧ d.endsInColumn = false)
      {d : Path} (h : q.deadEnd? = some d) : d.LinksFit ∧ d.endsInColumn = false := by
    rcases Option.or_eq_some_iff.1 h with h | ⟨hfits, h⟩
    · exact ih h
    · split at h
      · cases h
      · obtain rfl := Option.some.inj h
        exact ⟨openLink?_eq_none.1 hfits, Bool.not_eq_true _ ▸ ‹_›⟩
  induction p generalizing d with
  | column name => cases h
  | table name key link ih => exact hdead ih h
  | join name key link inner ihLink ihInner =>
    rcases Option.or_eq_some_iff.1 h with h | ⟨hlink, h⟩
    · exact hdead ihLink h
    · obtain ⟨d, hd, rfl⟩ := Option.map_eq_some_iff.1 h
      obtain ⟨hlink, hend⟩ := deadEnd?_eq_none.1 hlink
      obtain ⟨hfits, htable⟩ := ihInner hd
      exact ⟨⟨openLink?_eq_none.1 hlink, hend, hfits⟩, htable⟩

end Path

/-! ## Finding what is there -/

namespace Growth

variable {α β : Type} {m : Growth α} {found : Forest → Option α} {f : Forest}

/-- A registration that succeeds in every forest: what it gives was there and the forest stays as
it is, or it was not and the forest has more columns afterwards. -/
def Finds (m : Growth α) (found : Forest → Option α) : Prop :=
  ∀ f, ∃ a g, m.perform f = (.ok a, g) ∧
    (found f = some a ∧ g = f ∨ found f = none ∧ f.cells.length < g.cells.length)

theorem Finds.bind (hm : Finds m found) {k : α → Growth β} {next : α → Forest → Option β}
    (hk : ∀ a, Finds (k a) (next a)) :
    Finds (m >>= k) fun f => (found f).bind fun a => next a f := by
  intro f
  obtain ⟨a, g, hrun, hfirst⟩ := hm f
  obtain ⟨b, h, hrest, hsecond⟩ := hk a g
  refine ⟨b, h, by rw [perform_bind_ok hrun, hrest], ?_⟩
  dsimp only
  rcases hfirst with ⟨ha, rfl⟩ | ⟨ha, hlt⟩
  · rwa [ha, Option.bind_some]
  · refine Or.inr ⟨by rw [ha, Option.bind_none], ?_⟩
    rcases hsecond with ⟨-, rfl⟩ | ⟨-, hlater⟩
    · exact hlt
    · exact Nat.lt_trans hlt hlater

/-- A registration leaves a forest as it was exactly if it found what it gives. -/
theorem Finds.unchanged_iff (hm : Finds m found) {a : α} {g : Forest}
    (hrun : m.perform f = (.ok a, g)) : g = f ↔ ∃ b, found f = some b := by
  obtain ⟨a', g', hrun', hfound⟩ := hm f
  obtain ⟨-, rfl⟩ := Prod.mk.inj (hrun'.symm.trans hrun)
  rcases hfound with ⟨ha, rfl⟩ | ⟨ha, hlt⟩
  · exact iff_of_true rfl ⟨a', ha⟩
  · refine iff_of_false (fun hg => ?_) fun ⟨b, hb⟩ => ?_
    · rw [hg] at hlt
      exact Nat.lt_irrefl _ hlt
    · rw [ha] at hb
      cases hb

theorem finds_ensureCell (n : NodeId) (name : String) :
    Finds (ofForest fun f => f.ensureCell n name) fun f => f.findCell? n name := by
  intro f
  refine ⟨_, _, perform_ofForest _ f, ?_⟩
  dsimp only
  cases h : f.findCell? n name with
  | some c =>
    rw [Forest.ensureCell_of_some h]
    exact Or.inl ⟨rfl, rfl⟩
  | none =>
    rw [Forest.ensureCell_of_none h]
    exact Or.inr ⟨rfl, by simp [Forest.withCell, Forest.modifyNode]⟩

theorem finds_ensureJoin (link : CellId) (table key : String) :
    Finds (ofForest fun f => f.ensureJoin link table key) fun f => f.joined? link table key := by
  intro f
  refine ⟨_, _, perform_ofForest _ f, ?_⟩
  dsimp only
  cases h : f.findEdge? (f.cell link).owner ⟨table, key, (f.cell link).name⟩ with
  | some e =>
    rw [Forest.ensureJoin_of_some h, Forest.joined?, h]
    exact Or.inl ⟨rfl, rfl⟩
  | none =>
    rw [Forest.ensureJoin_of_none h, Forest.joined?, h]
    exact Or.inr ⟨rfl, by simp [Forest.withJoin, Forest.withChild, Forest.addNode,
      Forest.modifyNode]⟩

end Growth

namespace Path

variable {p d : Path}

theorem finds_growColumn (hp : p.LinksFit) (hend : p.endsInColumn = true) (n : NodeId) :
    Growth.Finds (p.growColumn n) fun f => f.lookupColumn? n p := by
  induction p generalizing n with
  | column name => exact Growth.finds_ensureCell n name
  | table => exact absurd hend Bool.false_ne_true
  | join name key link inner ihLink ihInner =>
    obtain ⟨hlink, hlinkEnd, hinner⟩ := hp
    exact (ihLink hlink hlinkEnd n).bind fun linkCell =>
      (Growth.finds_ensureJoin linkCell name key).bind fun child => ihInner hinner hend child

theorem finds_growTable (hp : p.LinksFit) (hend : p.endsInColumn = false) (n : NodeId) :
    Growth.Finds (p.growTable n) fun f => f.lookupTable? n p := by
  induction p generalizing n with
  | column name => exact absurd hend.symm Bool.false_ne_true
  | table name key link _ =>
    obtain ⟨hlink, hlinkEnd⟩ := hp
    exact (finds_growColumn hlink hlinkEnd n).bind fun linkCell =>
      Growth.finds_ensureJoin linkCell name key
  | join name key link inner _ ih =>
    obtain ⟨hlink, hlinkEnd, hinner⟩ := hp
    exact (finds_growColumn hlink hlinkEnd n).bind fun linkCell =>
      (Growth.finds_ensureJoin linkCell name key).bind fun child => ih hinner hend child

/-! ## Stopping at an open link -/

/-- Registering a path to a column stops behind the way to its dead end. -/
theorem growColumn_of_deadEnd (h : p.deadEnd? = some d) (n : NodeId) :
    p.growColumn n = d.growTable n >>= fun _ => throw d.last.endsAtTable := by
  induction p generalizing d n with
  | column name => cases h
  | table name key link ih =>
    rw [deadEnd?_table] at h
    rcases Option.or_eq_some_iff.1 h with h | ⟨-, h⟩
    · rw [growColumn, ih h, bind_assoc]
      rfl
    · obtain rfl := Option.some.inj h
      rw [growColumn, growTable, bind_assoc]
      rfl
  | join name key link inner ihLink ihInner =>
    rw [deadEnd?_join] at h
    rcases Option.or_eq_some_iff.1 h with h | ⟨-, h⟩
    · rw [growColumn, ihLink h, bind_assoc]
      rfl
    · obtain ⟨d, hd, rfl⟩ := Option.map_eq_some_iff.1 h
      simp only [growColumn, growTable, last, bind_assoc, ihInner hd]

/-- Registering a path to a table stops behind the way to its first open link. -/
theorem growTable_of_openLink (h : p.openLink? = some d) (n : NodeId) :
    p.growTable n = d.growTable n >>= fun _ => throw d.last.endsAtTable := by
  induction p generalizing d n with
  | column name => cases h
  | table name key link _ =>
    rw [openLink?_table] at h
    rw [growTable, growColumn_of_deadEnd h, bind_assoc]
    rfl
  | join name key link inner _ ih =>
    rw [openLink?_join] at h
    rcases Option.or_eq_some_iff.1 h with h | ⟨-, h⟩
    · rw [growTable, growColumn_of_deadEnd h, bind_assoc]
      rfl
    · obtain ⟨d, hd, rfl⟩ := Option.map_eq_some_iff.1 h
      simp only [growTable, last, bind_assoc, ih hd]

end Path

namespace Forest

variable {f : Forest} {n : NodeId} {p d : Path}

/-- How registering the path `p` from a record fails, where `refused` says that the end of the path
is not of the kind asked for. -/
structure Rejects {α : Type} (f : Forest) (n : NodeId) (p : Path) (refused : Bool)
    (m : Growth α) : Prop where
  /-- It fails at the end of the path or at an open link. -/
  rejected_iff : (∃ fault g, m.perform f = (.error fault, g)) ↔
    refused = true ∨ ∃ d, p.openLink? = some d
  /-- It leaves the forest as it was if the end is refused, or if the way to the first open link was
  registered before. -/
  unchanged_iff : ∀ {fault g}, m.perform f = (.error fault, g) →
    (g = f ↔ refused = true ∨ ∃ d child, p.openLink? = some d ∧ f.lookupTable? n d = some child)
  /-- Else it leaves what registering that way as a path to a table leaves. -/
  left : ∀ {fault g}, m.perform f = (.error fault, g) → refused = false →
    ∃ d child, p.openLink? = some d ∧ fault = d.last.endsAtTable ∧
      (registerTable n d).perform f = (.ok child, g)

theorem registerTable_of_end (h : p.endsInColumn = false) : registerTable n p = p.growTable n := by
  rw [Path.endsInColumn_eq_isSome_leaf?, Option.isSome_eq_false_iff, Option.isNone_iff_eq_none] at h
  rw [registerTable, h]

/-- A registration that is refused at once changes nothing. -/
theorem rejects_throw {α : Type} (f : Forest) (n : NodeId) (p : Path) (fault : Fault) :
    Rejects f n p true (throw fault : Growth α) where
  rejected_iff := iff_of_true ⟨fault, f, rfl⟩ (Or.inl rfl)
  unchanged_iff h := iff_of_true (Prod.mk.inj h).2.symm (Or.inl rfl)
  left _ h := by cases h

/-- A registration that is not refused stops at the first open link, if there is one. -/
theorem rejects_of_stop {α : Type} {m : Growth α}
    (hstop : ∀ d, p.openLink? = some d →
      m = d.growTable n >>= fun _ => throw d.last.endsAtTable)
    (hfits : p.openLink? = none → ∃ a g, m.perform f = (.ok a, g)) : Rejects f n p false m := by
  cases hopen : p.openLink? with
  | none =>
    obtain ⟨a, g, hrun⟩ := hfits hopen
    have hnot {fault : Fault} {g : Forest} (h : m.perform f = (.error fault, g)) : False := by
      rw [hrun] at h
      cases h
    exact
      { rejected_iff := iff_of_false (fun ⟨_, _, h⟩ => hnot h) (by simp [hopen])
        unchanged_iff := fun h => (hnot h).elim
        left := fun h => (hnot h).elim }
  | some d =>
    obtain ⟨hlinks, hend⟩ := Path.linksFit_of_openLink hopen
    have hfinds := Path.finds_growTable hlinks hend n
    obtain ⟨child, g, hrun, -⟩ := hfinds f
    have hperform : m.perform f = (.error d.last.endsAtTable, g) := by
      rw [hstop d hopen, Growth.perform_bind_ok hrun, Growth.perform_throw]
    refine
      { rejected_iff := iff_of_true ⟨_, _, hperform⟩ (Or.inr ⟨d, hopen⟩)
        unchanged_iff := fun {fault g'} h => ?_
        left := fun {fault g'} h _ => ?_ }
    · obtain ⟨-, rfl⟩ := Prod.mk.inj (hperform.symm.trans h)
      rw [hfinds.unchanged_iff hrun]
      constructor
      · rintro ⟨b, hb⟩
        exact Or.inr ⟨d, b, hopen, hb⟩
      · rintro (h | ⟨d', b, hd, hb⟩)
        · cases h
        · obtain rfl := Option.some.inj (hopen.symm.trans hd)
          exact ⟨b, hb⟩
    · obtain ⟨hfault, rfl⟩ := Prod.mk.inj (hperform.symm.trans h)
      exact ⟨d, child, hopen, (Except.error.inj hfault).symm,
        by rw [registerTable_of_end hend, hrun]⟩

/-- **A rejected path leaves a forest as it was exactly if its end is refused, or if the way to its
first open link was registered before.**  A path is rejected for nothing else, and what is left of
it is what registering that way leaves. -/
theorem rejected_unchanged_iff (f : Forest) (n : NodeId) (p : Path) :
    Rejects f n p (!p.endsInColumn) (registerColumn n p) ∧
      Rejects f n p p.endsInColumn (registerTable n p) := by
  cases hend : p.endsInColumn with
  | false =>
    refine ⟨?_, ?_⟩
    · rw [registerColumn, hend]
      exact rejects_throw f n p p.endsAtTable
    · rw [registerTable_of_end hend]
      refine rejects_of_stop (fun d h => Path.growTable_of_openLink h n) fun h => ?_
      obtain ⟨child, g, hrun, -⟩ := Path.finds_growTable (Path.openLink?_eq_none.1 h) hend n f
      exact ⟨child, g, hrun⟩
  | true =>
    refine ⟨?_, ?_⟩
    · rw [registerColumn, if_pos hend]
      refine rejects_of_stop (fun d h => Path.growColumn_of_deadEnd ?_ n) fun h => ?_
      · rw [Path.deadEnd?, h, Option.some_or]
      · obtain ⟨c, g, hrun, -⟩ := Path.finds_growColumn (Path.openLink?_eq_none.1 h) hend n f
        exact ⟨c, g, hrun⟩
    · have hleaf := Path.endsInColumn_eq_isSome_leaf? p
      rw [hend] at hleaf
      obtain ⟨name, hname⟩ := Option.isSome_iff_exists.1 hleaf.symm
      rw [registerTable, hname]
      exact rejects_throw f n p (p.endsInColumnFault name)

/-- A path to a column whose link ends at a table. -/
def openPath : Path :=
  .join "table2" "id" (.table "table1" "id" (.column "table1_id")) (.column "title")

/-- A record that the path was registered from before: the way to its open link is there, and the
path is rejected once more without a trace. -/
theorem rejected_unchanged_iff_again :
    let f := ((registerColumn ⟨0⟩ openPath).perform (Forest.empty.addRoot "table0" "id" .null).2).2
    ∃ fault g, (registerColumn ⟨0⟩ openPath).perform f = (.error fault, g) ∧ g = f := by
  intro f
  have hspec := (rejected_unchanged_iff f ⟨0⟩ openPath).1
  have hopen : openPath.openLink? = some (.table "table1" "id" (.column "table1_id")) := rfl
  obtain ⟨fault, g, hrun⟩ := hspec.rejected_iff.2 (Or.inr ⟨_, hopen⟩)
  exact ⟨fault, g, hrun, (hspec.unchanged_iff hrun).2 (Or.inr ⟨_, ⟨1⟩, hopen, by decide⟩)⟩

/-- From a record without any other column it is rejected as well, and leaves the record that its
link ends at. -/
theorem rejected_leaves_joined_record :
    let f := (Forest.empty.addRoot "table0" "id" .null).2
    ∃ fault g, (registerColumn ⟨0⟩ openPath).perform f = (.error fault, g) ∧
      f.nodes.length = 1 ∧ g.nodes.length = 2 ∧ g ≠ f :=
  ⟨_, _, rfl, rfl, rfl, by decide⟩

end Forest
end LinkedRows
