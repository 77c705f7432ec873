/-
# Fetches that succeed

What a fetch does when it returns no fault, as relations between the world before, the selections
that were answered, in order, and the world after: `FetchedNode` for one record, `FetchedBelow` for
what is behind joins.  Each is exactly the success of the action it describes (`fetchNode_ok_iff`,
`fetchBelow_ok_iff`).

A fetch comes to a record when it has come to the record above it and both are bound, so which
records it comes to depends on the links that it reads on the way.  Once it has left a record it
does not come back, so the forest afterwards says it all: `boundOrder` are the records that the
fetch has come to, and what it selected there are the columns that are still clean (`Answer.Reads`,
`fetchTree_answers`).
-/

import LinkedRows.Proofs.ReadAgain

namespace LinkedRows

open Forest

variable {σ : Type} {c : Connector σ} {w v u s : World σ Forest} {f g : Forest} {n m child : NodeId}
  {e : EdgeId} {b below next : Branches} {d : CellId}

/-! ## Bound records -/

namespace Forest

/-- The records behind joins that are bound and below bound records alone, parents first. -/
def boundOrder (f : Forest) : Branches → List NodeId
  | .nil => []
  | .cons _ child below next =>
    if f.isBound child then child :: f.boundOrder below ++ f.boundOrder next
    else f.boundOrder next

theorem boundOrder_unbound (h : f.isBound child = false) :
    f.boundOrder (.cons e child below next) = f.boundOrder next := by
  rw [boundOrder, h, if_neg Bool.false_ne_true]

theorem boundOrder_bound (h : f.isBound child = true) :
    f.boundOrder (.cons e child below next) =
      child :: f.boundOrder below ++ f.boundOrder next := by rw [boundOrder, if_pos h]

theorem boundOrder_sublist (f : Forest) (b : Branches) : (f.boundOrder b).Sublist b.preOrder := by
  induction b with
  | nil => exact List.Sublist.slnil
  | cons e child below next ihBelow ihNext =>
    rw [Branches.preOrder]
    cases hbound : f.isBound child with
    | false =>
      rw [boundOrder_unbound hbound]
      exact ihNext.trans (List.sublist_append_right _ _)
    | true =>
      rw [boundOrder_bound hbound]
      exact (ihBelow.cons_cons child).append ihNext

/-- On the way down to such a record all records are bound. -/
theorem mem_boundOrder_iff : m ∈ f.boundOrder b ↔
    ∃ way, b.Leads (way ++ [m]) ∧ ∀ k ∈ way ++ [m], f.isBound k = true := by
  induction b with
  | nil => exact iff_of_false List.not_mem_nil fun ⟨_, h, _⟩ => h
  | cons e child below next ihBelow ihNext =>
    have hsplit : (∃ way, (Branches.cons e child below next).Leads (way ++ [m]) ∧
        ∀ k ∈ way ++ [m], f.isBound k = true) ↔
          (f.isBound child = true ∧ (m = child ∨ m ∈ f.boundOrder below)) ∨
            m ∈ f.boundOrder next := by
      rw [ihBelow, ihNext]
      constructor
      · rintro ⟨way, hway, hbound⟩
        rcases Branches.leads_cons_iff.1 hway with ⟨rfl, rfl⟩ | ⟨deeper, rfl, hdeeper⟩ | hway
        · exact Or.inl ⟨hbound m (by simp), Or.inl rfl⟩
        · exact Or.inl ⟨hbound child (by simp),
            Or.inr ⟨deeper, hdeeper, fun k hk => hbound k (List.mem_cons_of_mem _ hk)⟩⟩
        · exact Or.inr ⟨way, hway, hbound⟩
      · rintro (⟨hchild, rfl | ⟨way, hway, hbound⟩⟩ | ⟨way, hway, hbound⟩)
        · exact ⟨[], Branches.leads_cons_iff.2 (Or.inl ⟨rfl, rfl⟩), by simpa using hchild⟩
        · refine ⟨child :: way, Branches.leads_cons_iff.2 (Or.inr (Or.inl ⟨way, rfl, hway⟩)), ?_⟩
          exact List.forall_mem_cons.2 ⟨hchild, hbound⟩
        · exact ⟨way, Branches.leads_cons_iff.2 (Or.inr (Or.inr hway)), hbound⟩
    rw [hsplit]
    cases hbound : f.isBound child with
    | false => simp [boundOrder_unbound hbound]
    | true => simp [boundOrder_bound hbound, or_assoc]

/-- The bound records that have something to read. -/
def readOrder (f : Forest) (records : List NodeId) : List NodeId :=
  records.filter fun m => !(f.cleanCells m).isEmpty

theorem mem_cells_of_cleanCells {i : Nat} (hd : (f.cleanCells n)[i]? = some d) :
    d ∈ (f.node n).cells := (List.mem_filter.1 (List.mem_of_getElem? hd)).1

/-! ## Records that stay -/

/-- A record and its columns are the same in both forests. -/
structure AgreesAt (n : NodeId) (f g : Forest) : Prop where
  node : g.node n = f.node n
  cell {d : CellId} : d ∈ (f.node n).cells → g.cell d = f.cell d

namespace AgreesAt

theorem cleanCells (h : AgreesAt n f g) : g.cleanCells n = f.cleanCells n := by
  rw [Forest.cleanCells, Forest.cleanCells, h.node]
  exact List.filter_congr fun d hd => by rw [h.cell hd]

theorem key (h : AgreesAt n f g) (hf : WellFormed f) (hn : f.HasNode n) :
    g.cell (g.node n).key = f.cell (f.node n).key := by rw [h.node, h.cell (hf.key_mem hn)]

theorem isBound (h : AgreesAt n f g) (hf : WellFormed f) (hn : f.HasNode n) :
    g.isBound n = f.isBound n := by
  rw [Forest.isBound, Forest.isBound, isNew, isNew, h.key hf hn, h.node]

theorem selection (h : AgreesAt n f g) (hf : WellFormed f) (hn : f.HasNode n) :
    g.selection n (g.cleanCells n) = f.selection n (f.cleanCells n) := by
  have hnames : (f.cleanCells n).map (fun d => (g.cell d).name) =
      (f.cleanCells n).map fun d => (f.cell d).name :=
    List.map_congr_left fun d hd => by rw [h.cell (List.mem_filter.1 hd).1]
  rw [Forest.selection, Forest.selection, rowKey, rowKey, keyName, keyName, keyValue, keyValue,
    h.key hf hn, h.node, h.cleanCells, hnames]

end AgreesAt

theorem boundOrder_congr (h : ∀ m ∈ b.preOrder, g.isBound m = f.isBound m) :
    g.boundOrder b = f.boundOrder b := by
  induction b with
  | nil => rfl
  | cons e child below next ihBelow ihNext =>
    rw [Branches.preOrder, List.cons_append, List.forall_mem_cons, List.forall_mem_append] at h
    rw [boundOrder, boundOrder, h.1, ihBelow h.2.1, ihNext h.2.2]

theorem readOrder_congr {records : List NodeId} (h : ∀ m ∈ records, AgreesAt m f g) :
    g.readOrder records = f.readOrder records :=
  List.filter_congr fun m hm => by rw [(h m hm).cleanCells]

end Forest

theorem Consults.agreesAt {records : List NodeId} (h : Consults records w v)
    (hf : WellFormed w.state) (hout : n ∉ records) : AgreesAt n w.state v.state :=
  ⟨h.node hout, fun hd => h.cell (by rwa [hf.owner_of_mem hd])⟩

/-! ## Answers -/

/-- A selection that was made for a record, and the rows that came back. -/
structure Answer where
  node : NodeId
  statement : Prepared
  rows : List Row

namespace Answer

/-- The call that brought the answer. -/
def exchange (a : Answer) : Exchange := .query a.statement (.ok a.rows)

/-- What the first row holds at a position. -/
def value? (a : Answer) (i : Nat) : Option Value := a.rows.head?.bind (·.get? i)

/-- From the first forest to the second the answer was read: it was asked for the columns of the
record that are still clean, and each of them took its value from the first row or kept the one that
it had. -/
structure Reads (c : Connector σ) (f g : Forest) (a : Answer) : Prop where
  statement : (g.selection a.node (g.cleanCells a.node)).prepare c.dialect = .ok a.statement
  stored {i d} : (g.cleanCells a.node)[i]? = some d →
    (g.cell d).stored = (a.value? i).getD (f.cell d).stored

variable {a : Answer}

/-- What happens to other records later does not matter. -/
theorem Reads.later {h : Forest} (hreads : a.Reads c f g) (hagrees : AgreesAt a.node g h)
    (hg : WellFormed g) (hn : g.HasNode a.node) : a.Reads c f h where
  statement := by rw [hagrees.selection hg hn, hreads.statement]
  stored hd := by
    rw [hagrees.cleanCells] at hd
    rw [hagrees.cell (mem_cells_of_cleanCells hd)]
    exact hreads.stored hd

/-- Nor does what happened before, if it gave no value from storage to columns of the record. -/
theorem Reads.earlier {h : Forest} (hreads : a.Reads c f g)
    (hstored : ∀ d ∈ (g.node a.node).cells, (f.cell d).stored = (h.cell d).stored) :
    a.Reads c h g where
  statement := hreads.statement
  stored hd := by
    rw [← hstored _ (mem_cells_of_cleanCells hd)]
    exact hreads.stored hd

end Answer

/-! ## One record -/

/-- A record was fetched: without a call if all its columns are assigned, and else the answer was
loaded. -/
inductive FetchedNode (c : Connector σ) (n : NodeId) (w : World σ Forest) :
    List Answer → World σ Forest → Prop
  | assigned : w.state.cleanCells n = [] →
      FetchedNode c n w [] (w.withState (w.state.setCurrent n true))
  | read {p : Prepared} {rows : List Row} : w.state.cleanCells n ≠ [] →
      (w.state.selection n (w.state.cleanCells n)).prepare c.dialect = .ok p →
      (c.query p w.store).1 = .ok rows →
      FetchedNode c n w [⟨n, p, rows⟩] ((w.asked c p).withState ((rows.head?.elim w.state
        fun row => w.state.load (w.state.cleanCells n) row.values).setCurrent n true))

theorem fetchNode_ok_iff : (fetchNode c n).perform w = (.ok (), v) ↔
    ∃ answers, FetchedNode c n w answers v := by
  rw [fetchNode, Action.perform_state_bind]
  constructor
  · intro h
    obtain ⟨⟨⟩, s, hread, hupdate⟩ := Action.perform_bind_eq_ok.1 h
    obtain rfl : s.withState (s.state.setCurrent n true) = v := congrArg Prod.snd hupdate
    by_cases hcells : w.state.cleanCells n = []
    · rw [hcells, readCells_nil] at hread
      obtain ⟨-, rfl⟩ := Prod.mk.inj hread
      exact ⟨[], .assigned hcells⟩
    cases hp : (w.state.selection n (w.state.cleanCells n)).prepare c.dialect with
    | error fault =>
      rw [readCells_of_unprepared hcells hp] at hread
      cases hread
    | ok p =>
      cases hq : (c.query p w.store).1 with
      | error fault =>
        rw [readCells_of_refused hcells hp hq] at hread
        cases hread
      | ok rows =>
        rw [readCells_of_answered hcells hp hq] at hread
        obtain ⟨-, rfl⟩ := Prod.mk.inj hread
        exact ⟨_, .read hcells hp hq⟩
  · rintro ⟨answers, h⟩
    cases h with
    | assigned hcells =>
      rw [hcells, Action.perform_bind_ok (readCells_nil c n w)]
      rfl
    | read hcells hp hq =>
      rw [Action.perform_bind_ok (readCells_of_answered hcells hp hq)]
      rfl

theorem FetchedNode.log {answers : List Answer} (h : FetchedNode c n w answers v) :
    v.log = w.log ++ answers.map Answer.exchange := by
  cases h with
  | assigned => exact (List.append_nil _).symm
  | @read p rows _ _ hq =>
    show w.log ++ [.query p (c.query p w.store).1] = _
    rw [hq]
    rfl

namespace Forest

/-- The columns that a fetch loads are those that are clean afterwards. -/
theorem cleanCells_loaded (f : Forest) (n : NodeId) (cells : List CellId) (values : List Value) :
    ((f.load cells values).setCurrent n true).cleanCells n = f.cleanCells n := by
  rw [cleanCells, cleanCells, (sameShape_setCurrent _ n true).cells, node_load]
  refine List.filter_congr fun d _ => ?_
  show (!((f.load cells values).cell d).isDirty) = _
  rcases cell_load f cells values d with h | ⟨-, v, h⟩ <;> rw [h]
  rfl

end Forest

/-- The values that an answer brings. -/
def Answer.values (a : Answer) : List Value := a.rows.head?.elim [] Row.values

theorem Answer.value?_eq (a : Answer) (i : Nat) : a.value? i = a.values[i]? := by
  unfold value? values
  cases a.rows.head? <;> rfl

/-- A bound record was read with one selection if it has clean columns, and with none if it has no
such column. -/
theorem FetchedNode.spec (hf : WellFormed w.state) (hn : w.state.HasNode n)
    (hbound : w.state.isNew n = false) {answers : List Answer}
    (h : FetchedNode c n w answers v) :
    answers.map Answer.node = v.state.readOrder [n] ∧
      ∀ a ∈ answers, a.Reads c w.state v.state := by
  cases h with
  | assigned hcells =>
    have hclean : (w.state.setCurrent n true).cleanCells n = [] :=
      (cleanCells_loaded w.state n [] []).trans hcells
    refine ⟨?_, nofun⟩
    show [] = (w.state.setCurrent n true).readOrder [n]
    rw [readOrder, List.filter_cons_of_neg (by simp [hclean]), List.filter_nil]
  | @read p rows hcells hp hq =>
    have hload : rows.head?.elim w.state
        (fun row => w.state.load (w.state.cleanCells n) row.values) =
          w.state.load (w.state.cleanCells n) (Answer.values ⟨n, p, rows⟩) := by
      cases rows with
      | nil => cases w.state.cleanCells n <;> rfl
      | cons row rest => rfl
    rw [hload]
    have hclean := cleanCells_loaded w.state n (w.state.cleanCells n)
      (Answer.values ⟨n, p, rows⟩)
    have hlearns : Learns w.state ((w.state.load (w.state.cleanCells n)
        (Answer.values ⟨n, p, rows⟩)).setCurrent n true) :=
      (Learns.refl.load _ fun d hd => mem_cleanCells hf hbound hd).setCurrent n true
    refine ⟨?_, List.forall_mem_singleton.2 ⟨?_, fun {i d} hd => ?_⟩⟩
    · show [n] = Forest.readOrder _ [n]
      rw [readOrder, List.filter_cons_of_pos, List.filter_nil]
      rw [Bool.not_eq_true', List.isEmpty_eq_false_iff]
      exact hclean.symm ▸ hcells
    · exact (congrArg (fun s : Statement => s.prepare c.dialect)
        ((hlearns.selection hf hn hbound _).trans (congrArg _ hclean))).trans hp
    · have hd := hclean ▸ hd
      rw [Answer.value?_eq]
      exact stored_load w.state _ ((hf.nodup_cells n).filter _) hd
        (hf.hasCell (mem_cells_of_cleanCells hd))

/-! ## What is behind joins -/

/-- What is behind joins was fetched: deleted and unbound records were passed over with all below
them. -/
inductive FetchedBelow (c : Connector σ) : Branches → World σ Forest → List Answer →
    World σ Forest → Prop
  | nil {w : World σ Forest} : FetchedBelow c .nil w [] w
  | deleted {w v : World σ Forest} {e : EdgeId} {child : NodeId} {below next : Branches}
      {answers : List Answer} : (w.state.node child).deleted = true →
      FetchedBelow c next w answers v → FetchedBelow c (.cons e child below next) w answers v
  | unbound {w v : World σ Forest} {e : EdgeId} {child : NodeId} {below next : Branches}
      {answers : List Answer} : (w.state.node child).deleted = false →
      (w.state.seedChild e).isBound child = false →
      FetchedBelow c next (w.withState (w.state.seedChild e)) answers v →
      FetchedBelow c (.cons e child below next) w answers v
  | bound {w v s u : World σ Forest} {e : EdgeId} {child : NodeId} {below next : Branches}
      {own deeper later : List Answer} : (w.state.node child).deleted = false →
      (w.state.seedChild e).isBound child = true →
      FetchedNode c child (w.withState (w.state.seedChild e)) own s →
      FetchedBelow c below s deeper u → FetchedBelow c next u later v →
      FetchedBelow c (.cons e child below next) w (own ++ deeper ++ later) v

theorem fetchBelow_ok_iff : (fetchBelow c b).perform w = (.ok (), v) ↔
    ∃ answers, FetchedBelow c b w answers v := by
  constructor
  · induction b generalizing w v with
    | nil =>
      intro h
      obtain ⟨-, rfl⟩ := Prod.mk.inj h
      exact ⟨[], .nil⟩
    | cons e child below next ihBelow ihNext =>
      intro h
      cases hdel : (w.state.node child).deleted with
      | true =>
        rw [perform_fetchBelow_deleted hdel] at h
        obtain ⟨answers, h⟩ := ihNext h
        exact ⟨answers, .deleted hdel h⟩
      | false =>
        cases hbound : (w.state.seedChild e).isBound child with
        | false =>
          rw [perform_fetchBelow_unbound hdel hbound] at h
          obtain ⟨answers, h⟩ := ihNext h
          exact ⟨answers, .unbound hdel hbound h⟩
        | true =>
          rw [perform_fetchBelow_bound hdel hbound] at h
          obtain ⟨⟨⟩, s, hnode, h⟩ := Action.perform_bind_eq_ok.1 h
          obtain ⟨⟨⟩, u, hbelow, hnext⟩ := Action.perform_bind_eq_ok.1 h
          obtain ⟨own, hown⟩ := fetchNode_ok_iff.1 hnode
          obtain ⟨deeper, hdeeper⟩ := ihBelow hbelow
          obtain ⟨later, hlater⟩ := ihNext hnext
          exact ⟨_, .bound hdel hbound hown hdeeper hlater⟩
  · rintro ⟨answers, h⟩
    induction h with
    | nil => rfl
    | deleted hdel _ ih => rw [perform_fetchBelow_deleted hdel, ih]
    | unbound hdel hbound _ ih => rw [perform_fetchBelow_unbound hdel hbound, ih]
    | bound hdel hbound hown _ _ ihBelow ihNext =>
      rw [perform_fetchBelow_bound hdel hbound,
        Action.perform_bind_ok (fetchNode_ok_iff.2 ⟨_, hown⟩), Action.perform_bind_ok ihBelow]
      exact ihNext

namespace FetchedBelow

variable {answers : List Answer}

theorem log (h : FetchedBelow c b w answers v) :
    v.log = w.log ++ answers.map Answer.exchange := by
  induction h with
  | nil => exact (List.append_nil _).symm
  | deleted _ _ ih => exact ih
  | unbound _ _ _ ih => exact ih
  | bound _ _ hown _ _ ihBelow ihNext =>
    rw [ihNext, ihBelow, hown.log]
    simp only [World.withState, List.map_append, List.append_assoc]

theorem consults (h : FetchedBelow c b w answers v) (hf : WellFormed w.state)
    (hb : w.state.Hangs n b) : Consults b.preOrder w v :=
  (consults_fetchBelow c b hf hb).of_perform (fetchBelow_ok_iff.2 ⟨_, h⟩)

end FetchedBelow

/-! ## Which records were read, and what was read of them -/

/-- From the first world to the second, the answers were read one after the other, one for each of
these records that has something to read. -/
structure ReadsAll (c : Connector σ) (records : List NodeId) (w v : World σ Forest)
    (answers : List Answer) : Prop where
  nodes : answers.map Answer.node = v.state.readOrder records
  reads : ∀ a ∈ answers, a.Reads c w.state v.state

namespace ReadsAll

variable {answers own deeper : List Answer} {records later first second : List NodeId}

theorem nil (c : Connector σ) (w v : World σ Forest) : ReadsAll c [] w v [] := ⟨rfl, nofun⟩

theorem node_mem (h : ReadsAll c records w v answers) {a : Answer} (ha : a ∈ answers) :
    a.node ∈ records :=
  (List.mem_filter.1 (h.nodes ▸ List.mem_map_of_mem ha)).1

/-- Records that are not reached by each other's reading are read one after the other. -/
theorem append (hf : WellFormed w.state) (hu : Consults first w u) (hv : Consults second u v)
    (h : ReadsAll c records w u own) (h' : ReadsAll c later u v deeper)
    (hrecords : ∀ m ∈ records, w.state.HasNode m ∧ m ∉ second)
    (hlater : ∀ m ∈ later, m ∉ first) : ReadsAll c (records ++ later) w v (own ++ deeper) where
  nodes := by
    have hfu := hu.learns.steady.wellFormed hf
    rw [List.map_append, h.nodes, h'.nodes, readOrder, readOrder, readOrder, List.filter_append,
      ← readOrder, ← readOrder, ← readOrder,
      readOrder_congr fun m hm => hv.agreesAt hfu (hrecords m hm).2]
  reads := by
    have hs := hu.learns.steady
    have hfu := hs.wellFormed hf
    refine List.forall_mem_append.2 ⟨fun a ha => ?_, fun a ha => ?_⟩
    · obtain ⟨hn, hout⟩ := hrecords _ (h.node_mem ha)
      exact (h.reads a ha).later (hv.agreesAt hfu hout) hfu ((hs.shape.hasNode _).2 hn)
    · refine (h'.reads a ha).earlier fun d hd => ?_
      rw [hv.learns.steady.shape.cells, hs.shape.cells] at hd
      rw [(hu.agreesAt hf (hlater _ (h'.node_mem ha))).cell hd]

/-- A record is read, and then what is below it. -/
theorem down (hf : WellFormed w.state) (hn : w.state.HasNode n) (hb : w.state.Hangs n b)
    (hs : Consults [n] w s) (hu : Consults b.preOrder s u) (h : ReadsAll c [n] w s own)
    (h' : ReadsAll c (u.state.boundOrder b) s u deeper) :
    ReadsAll c (n :: u.state.boundOrder b) w u (own ++ deeper) := by
  have hout := not_mem_of_hangs hf hb
  refine .append hf hs hu h h' (List.forall_mem_singleton.2 ⟨hn, hout⟩) fun m hm hmn => hout ?_
  exact List.mem_singleton.1 hmn ▸ (boundOrder_sublist _ _).subset hm

/-- A child is read with all below it, and then what is behind the later joins. -/
theorem cons (hf : WellFormed w.state) (hb : w.state.Hangs n (.cons e child below next))
    (hjoins : (Branches.cons e child below next).joins.Nodup)
    (hu : Consults (child :: below.preOrder) w u) (hv : Consults next.preOrder u v)
    (hbound : u.state.isBound child = true)
    (h : ReadsAll c (child :: u.state.boundOrder below) w u own)
    (h' : ReadsAll c (v.state.boundOrder next) u v deeper) :
    ReadsAll c (v.state.boundOrder (.cons e child below next)) w v (own ++ deeper) := by
  have hs := hu.learns.steady
  have hnode {m : NodeId} (hm : m ∈ child :: below.preOrder) : w.state.HasNode m :=
    hasNode_of_mem_first hf hb hm
  have hout {m : NodeId} (hm : m ∈ child :: below.preOrder) : m ∉ next.preOrder :=
    not_mem_next_of_first hf hb hjoins hm
  have hkeeps {m : NodeId} (hm : m ∈ child :: below.preOrder) :
      v.state.isBound m = u.state.isBound m :=
    hv.isBound_eq (hs.wellFormed hf) ((hs.shape.hasNode m).2 (hnode hm)) (hout hm)
  rw [boundOrder_bound ((hkeeps (List.mem_cons_self ..)).trans hbound),
    boundOrder_congr fun m hm => hkeeps (List.mem_cons_of_mem _ hm)]
  refine .append hf hu hv h h' (fun m hm => ?_) fun m hm hfirst => ?_
  · have hm := (boundOrder_sublist u.state below).cons_cons child |>.subset hm
    exact ⟨hnode hm, hout hm⟩
  · exact hout hfirst ((boundOrder_sublist _ _).subset hm)

/-- Giving a child its key gives no value from storage. -/
theorem of_seeded (h : ReadsAll c records (w.withState (w.state.seedChild e)) v answers) :
    ReadsAll c records w v answers where
  nodes := h.nodes
  reads a ha := (h.reads a ha).earlier fun d _ => stored_seedChild w.state e d

end ReadsAll

theorem FetchedNode.readsAll {answers : List Answer} (hf : WellFormed w.state)
    (hn : w.state.HasNode n) (hbound : w.state.isBound n = true)
    (h : FetchedNode c n w answers v) :
    Consults [n] w v ∧ v.state.isBound n = true ∧ ReadsAll c [n] w v answers := by
  have hnew := isNew_of_isBound hbound
  have hconsults := (consults_fetchNode c hf hnew).of_perform (fetchNode_ok_iff.2 ⟨_, h⟩)
  obtain ⟨hnodes, hreads⟩ := h.spec hf hn hnew
  exact ⟨hconsults, hconsults.isBound hf hn hbound, hnodes, hreads⟩

/-- **The order of a fetch.**  What is behind joins is read in the order of the joins, and of each
record what is still clean afterwards. -/
theorem FetchedBelow.readsAll {answers : List Answer} (hf : WellFormed w.state)
    (hb : w.state.Hangs n b) (hjoins : b.joins.Nodup) (h : FetchedBelow c b w answers v) :
    ReadsAll c (v.state.boundOrder b) w v answers := by
  induction h generalizing n with
  | nil => exact .nil c _ _
  | @deleted w v e child below next answers hdel h ih =>
    obtain ⟨he, hchild, -, -, hnext⟩ := id hb
    have hn : w.state.HasNode child := hchild ▸ hf.hasChild (hf.hasEdge he)
    have hunbound : v.state.isBound child = false := by
      rw [(h.consults hf hnext).isBound_eq hf hn (child_not_mem_next hf hb hjoins),
        isBound_eq_false_of_deleted hdel]
    rw [boundOrder_unbound hunbound]
    exact ih hf hnext (List.nodup_cons.1 hjoins).2
  | @unbound w v e child below next answers _ hbound h ih =>
    obtain ⟨he, hchild, -, -, hnext⟩ := id hb
    have hs := (consults_seedChild hf (hf.hasEdge he) hchild).learns.steady
    have hfs := hs.wellFormed hf
    have hn := (hs.shape.hasNode child).2 (hchild ▸ hf.hasChild (hf.hasEdge he))
    have hunbound : v.state.isBound child = false := by
      rw [(h.consults hfs (hs.shape.hangs hnext)).isBound_eq hfs hn
        (child_not_mem_next hf hb hjoins)]
      exact hbound
    rw [boundOrder_unbound hunbound]
    exact .of_seeded (ih hfs (hs.shape.hangs hnext) (List.nodup_cons.1 hjoins).2)
  | @bound w v s u e child below next own deeper later _ hbound hown hdeeper hlater ihBelow
      ihNext =>
    obtain ⟨he, hchild, hbelowEq, hbelow, hnext⟩ := id hb
    have hn : w.state.HasNode child := hchild ▸ hf.hasChild (hf.hasEdge he)
    have hseed := consults_seedChild hf (hf.hasEdge he) hchild
    have hss := hseed.learns.steady
    obtain ⟨hread, hboundS, hreads⟩ :=
      hown.readsAll (hss.wellFormed hf) ((hss.shape.hasNode child).2 hn) hbound
    have hs := hseed.trans hread
    have hfs := hs.learns.steady.wellFormed hf
    have hbelowS := hs.learns.steady.shape.hangs hbelow
    have hu := hdeeper.consults hfs hbelowS
    have hdown := hreads.of_seeded.down hf hn hbelow hs hu
      (ihBelow hfs hbelowS (hbelowEq ▸ nodup_joins_below hf child))
    have hwu : Consults (child :: below.preOrder) w u :=
      (hs.mono (by simp)).trans (hu.mono fun m hm => List.mem_cons_of_mem _ hm)
    have hfu := hwu.learns.steady.wellFormed hf
    have hnextU := hwu.learns.steady.shape.hangs hnext
    have hboundU : u.state.isBound child = true :=
      hu.isBound hfs ((hs.learns.steady.shape.hasNode child).2 hn) hboundS
    exact .cons hf hb hjoins hwu (hlater.consults hfu hnextU) hboundU hdown
      (ihNext hfu hnextU (List.nodup_cons.1 hjoins).2)

/-- A fetch that succeeds reads the record, and then the bound records below it. -/
theorem fetchTree_answers (hf : WellFormed w.state) (hn : w.state.HasNode n)
    (hbound : w.state.isBound n = true) (h : (fetchTree c n).perform w = (.ok (), v)) :
    ∃ answers, v.log = w.log ++ answers.map Answer.exchange ∧
      ReadsAll c (n :: v.state.boundOrder (w.state.below n)) w v answers := by
  rw [fetchTree, Action.perform_state_bind] at h
  obtain ⟨⟨⟩, s, hnode, hbelow⟩ := Action.perform_bind_eq_ok.1 h
  obtain ⟨own, hown⟩ := fetchNode_ok_iff.1 hnode
  obtain ⟨deeper, hdeeper⟩ := fetchBelow_ok_iff.1 hbelow
  obtain ⟨hs, -, hreads⟩ := hown.readsAll hf hn hbound
  have hfs := hs.learns.steady.wellFormed hf
  have hb := hangs_below hf n
  have hbs := hs.learns.steady.shape.hangs hb
  refine ⟨own ++ deeper, ?_, ?_⟩
  · rw [hdeeper.log, hown.log, List.map_append, List.append_assoc]
  · exact hreads.down hf hn hb hs (hdeeper.consults hfs hbs)
      (hdeeper.readsAll hfs hbs (nodup_joins_below hf n))

end LinkedRows
