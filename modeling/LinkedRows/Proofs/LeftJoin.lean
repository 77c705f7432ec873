/-
# Reads are left joins

Over a database that does not change, a record that is only read shows what its paths denote: a path
leads from the row of the record through its joins, and a row that is not there has a null in every
column.  It does not matter in which order paths were registered and read before, nor whether a join
was added before its link was read or afterwards (`read_eq_leftJoin`).

In the forest of such a record nothing but keys is assigned, and no column holds anything but what
storage holds (`Unwritten`).  Such a forest keeps following the database while it grows, and what a
column shall hold is what the path to it denotes (`effective_of_lookup`).
-/

import LinkedRows.Proofs.Following
import LinkedRows.Proofs.Forest.Lone
import LinkedRows.Proofs.SelectionText
import LinkedRows.Table

namespace LinkedRows

open Forest

variable {σ : Type} {c : Connector σ} {db : Database} {still : σ → Prop} {r : Record} {p : Place}
  {f g : Forest} {w v : World σ Forest} {keys : NodeId → Value}

namespace Forest

/-- The forest of a record that was only read. -/
structure Unwritten (c : Connector σ) (db : Database) (f : Forest) (keys : NodeId → Value) : Prop
    extends Follows c db f keys where
  untouched : Untouched f
  honest {d} : f.HasCell d → f.Honest db keys d
  seeded : LinksSeeded f keys

/-! ## What paths denote -/

/-- Where nothing but keys is assigned, columns shall hold what storage holds. -/
theorem effective_eq_truth (hu : Untouched f) (d : CellId) :
    f.effective db keys d = f.truth db keys d := by
  cases hk : (f.cell d).isKey with
  | true => rw [effective, if_pos hk]
  | false =>
    have hclean := hu.clean hk
    rw [Cell.isDirty, Option.isSome_eq_false_iff, Option.isNone_iff_eq_none] at hclean
    rw [effective_of_column hk, hclean]
    rfl

/-- The record behind a join stands where the join leads. -/
theorem place_of_joined? (hm : Mirrors db f keys) {link : CellId} (hl : f.HasCell link)
    {table key : String} {child : NodeId} (h : f.joined? link table key = some child) :
    f.place keys child = ⟨table, key, f.effective db keys link⟩ := by
  have hf := hm.toWellFormed
  obtain ⟨e, he, rfl⟩ := Option.map_eq_some_iff.1 h
  obtain ⟨hmem, hlabel⟩ := (findEdge?_eq_some_iff hf).1 he
  have hedge := hf.hasEdge hmem
  rw [hf.label_eq hedge, Label.mk.injEq] at hlabel
  obtain ⟨htable, hkey, hname⟩ := hlabel
  have howner := hf.owner_of_edge hmem
  have hlink : (f.edge e).link = link :=
    hf.name_inj (howner ▸ hf.link_mem hedge) (hf.mem_owner hl) hname
  rw [place, htable, hkey, hm.child hedge, hlink]

/-- What the column of a path shall hold is what the path denotes. -/
theorem effective_of_lookup (hm : Mirrors db f keys) (hu : Untouched f) {q : Path} {n : NodeId}
    {d : CellId} (h : f.lookupColumn? n q = some d) :
    f.effective db keys d = q.value db (f.place keys n) := by
  have hf := hm.toWellFormed
  induction q generalizing n d with
  | column name =>
    obtain ⟨hmem, hname⟩ := (findCell?_eq_some_iff hf).1 h
    rw [effective_eq_truth hu, truth, hf.owner_of_mem hmem, hname]
    rfl
  | table => exact absurd h (by simp [lookupColumn?])
  | join name key link inner ihLink ihInner =>
    simp only [lookupColumn?, Option.bind_eq_bind, Option.bind_eq_some_iff] at h
    obtain ⟨linkCell, hlink, child, hchild, h⟩ := h
    rw [ihInner h, place_of_joined? hm (hasCell_of_lookupColumn? hf hlink) hchild, ihLink hlink]
    rfl

/-! ## Growing -/

theorem LinksSeeded.withCell (hf : WellFormed f) (h : LinksSeeded f keys) {name : String}
    {n : NodeId} (hn : f.HasNode n) : LinksSeeded (f.withCell n name) keys := by
  intro e he howner hcurrent hkey
  have hx := extends_withCell name hn
  have he : f.HasEdge e := he
  have hhas := hf.hasEdgeOwner he
  rw [hx.edge he] at howner hcurrent hkey ⊢
  rw [hx.isNew hf hhas] at howner
  rw [hx.isNew hf (hf.hasChild he)]
  exact h e he howner (hx.current hhas hcurrent) hkey

theorem LinksSeeded.withJoin (hm : Mirrors db f keys) (h : LinksSeeded f keys) {link : CellId}
    {table key : String} (hl : f.HasCell link) :
    LinksSeeded (f.withJoin link table key) (f.joinedKeys db keys link) := by
  intro e he howner hcurrent hkey
  have hf := hm.toWellFormed
  have ho := hf.hasOwner hl
  have hx : Extends f (f.withJoin link table key) := extends_withJoin ho
  rcases (hasEdge_withJoin e).1 he with he | rfl
  · have hhas := hf.hasEdgeOwner he
    rw [hx.edge he] at howner hcurrent hkey ⊢
    rw [hx.isNew hf hhas] at howner
    rw [joinedKeys_of_hasNode (hf.hasChild he)] at hkey
    rw [hx.isNew hf (hf.hasChild he)]
    exact h e he howner (hx.current hhas hcurrent) hkey
  · rw [edge_newJoin, newEdge] at howner hcurrent hkey ⊢
    rw [hx.isNew hf ho] at howner
    have hvalue := hm.value_of_current hl howner (hx.current ho hcurrent)
    rw [joinedKeys, if_pos rfl] at hkey
    rw [isNew_newChild ho, hvalue]
    cases heq : f.effective db keys link <;> first | rfl | exact absurd heq hkey

namespace Unwritten

/-- Behind a link of a record that stands for no row there is no row either. -/
theorem keys_child_of_null (hm : Mirrors db f keys) (hu : Untouched f) {e : EdgeId}
    (he : f.HasEdge e) (h : keys (f.edge e).owner = .null) : keys (f.edge e).child = .null := by
  rw [hm.child he, effective_eq_truth hu, truth, hm.owner_link he]
  exact db.value_of_null h _

theorem withCell (hf : Unwritten c db f keys) {n : NodeId} {name : String} (hn : f.HasNode n)
    (hname : f.findCell? n name = none) : Unwritten c db (f.withCell n name) keys := by
  have hx := extends_withCell name hn
  have hm := hf.toMirrors.withCell hn hname
  have hu := hf.untouched.withCell hn hname
  exact
    { toMirrors := hm
      grounded := keys_child_of_null hm hu
      writes := fun hm => hf.writes ((hasNode_withCell _ _).1 hm)
      root := fun {m} hm hroot => by
        have hm := (hasNode_withCell n m).1 hm
        rw [hx.parent hm] at hroot
        rw [hx.isNew hf.toWellFormed hm]
        exact hf.root hm hroot
      untouched := hu
      honest := fun {d} hd => by
        rcases (hasCell_withCell n d).1 hd with hd | rfl
        · exact honest_of_extends hf.toWellFormed hx (fun _ _ => rfl) hd (hf.honest hd)
        · refine honest_of_stored_null ?_
          rw [cell_newCell]
          rfl
      seeded := hf.seeded.withCell hf.toWellFormed hn }

theorem withJoin (hserves : Serves c db still) (hf : Unwritten c db f keys) {link : CellId}
    {table key : String} (hl : f.HasCell link)
    (hlabel : f.findEdge? (f.cell link).owner ⟨table, key, (f.cell link).name⟩ = none) :
    Unwritten c db (f.withJoin link table key) (f.joinedKeys db keys link) := by
  have hwf := hf.toWellFormed
  have ho := hf.hasOwner hl
  have hx : Extends f (f.withJoin link table key) := extends_withJoin ho
  have hm := hf.toMirrors.withJoin hl (hf.honest hl) hlabel
  have hu := hf.untouched.withJoin hl hlabel
  exact
    { toMirrors := hm
      grounded := keys_child_of_null hm hu
      writes := fun {m} hm => by
        rcases (hasNode_withJoin m).1 hm with hm | rfl
        · rw [joinedKeys_of_hasNode hm]
          exact hf.writes hm
        · rw [joinedKeys, if_pos rfl, effective_eq_truth hf.untouched]
          exact hserves.writes_value (hf.writes ho) _
      root := fun {m} hm hroot => by
        rcases (hasNode_withJoin m).1 hm with hm | rfl
        · rw [hx.parent hm] at hroot
          rw [hx.isNew hwf hm]
          exact hf.root hm hroot
        · rw [node_newChild ho] at hroot
          cases hroot
      untouched := hu
      honest := fun {d} hd => by
        rcases (hasCell_withJoin d).1 hd with hd | rfl
        · exact honest_of_extends hwf hx (fun _ => joinedKeys_of_hasNode) hd (hf.honest hd)
        · refine honest_of_stored_null ?_
          rw [cell_newChild]
          rfl
      seeded := LinksSeeded.withJoin hf.toMirrors hf.seeded hl }

/-- Growth leaves a forest unwritten, and keeps the keys of the records that were there. -/
theorem grows (hserves : Serves c db still) (hf : Unwritten c db f keys) (hg : Grows f g) :
    ∃ keys', (∀ n, f.HasNode n → keys' n = keys n) ∧ Unwritten c db g keys' := by
  induction hg with
  | refl => exact ⟨keys, fun _ _ => rfl, hf⟩
  | cell _ hn hname ih =>
    obtain ⟨keys', hkeys, hf'⟩ := ih
    exact ⟨keys', hkeys, hf'.withCell hn hname⟩
  | @join g link table key hfg hl hlabel ih =>
    obtain ⟨keys', hkeys, hf'⟩ := ih
    refine ⟨g.joinedKeys db keys' link, fun n hn => ?_, hf'.withJoin hserves hl hlabel⟩
    have hx := hfg.extends hf.toWellFormed
    rw [joinedKeys_of_hasNode (hx.hasNode hn), hkeys n hn]

/-- What is fetched is what storage holds. -/
theorem fetched (hf : Unwritten c db w.state keys) (h : Fetched c db still keys w v)
    (hseeded : LinksSeeded v.state keys) : Unwritten c db v.state keys where
  toFollows := h.follows
  untouched := hf.untouched.learns h.learns
  honest {d} hd hk := by
    have hs := h.learns.steady.shape
    have hd := (hs.hasCell d).1 hd
    have hloaded := (h.loaded hd ((hs.isKey d).symm.trans hk)).imp_right And.right
    exact honest_of_sameShape hs hloaded (hf.honest hd) hk
  seeded := hseeded

end Unwritten
end Forest

namespace Record

/-- A record that stands at a place and was only read. -/
structure Shows (c : Connector σ) (db : Database) (still : σ → Prop) (r : Record) (p : Place)
    (w : World σ Forest) (keys : NodeId → Value) : Prop where
  still : still w.store
  unwritten : Unwritten c db w.state keys
  hasRoot : w.state.HasNode r.root
  isRoot : (w.state.node r.root).parent = none
  place : w.state.place keys r.root = p

/-- A record alone in its forest stands at the place of its row, if its columns hold nothing but
what storage holds. -/
theorem shows_of_lone (hlone : Lone r.root p.key w.state) (hstill : still w.store)
    (hkey : p.key ≠ .null) (hwrites : c.dialect.Writes p.key)
    (htable : (w.state.node r.root).table = p.table) (hname : w.state.keyName r.root = p.keyName)
    (hhonest : ∀ d, w.state.HasCell d → (w.state.cell d).isKey = false →
      (w.state.cell d).stored = .null ∨
        (w.state.cell d).stored = db.value p (w.state.cell d).name) :
    Shows c db still r p w fun _ => p.key := by
  have hplace : w.state.place (fun _ => p.key) r.root = p := by
    rw [Forest.place, htable, hname]
  have hhonest {d : CellId} (hd : w.state.HasCell d) : w.state.Honest db (fun _ => p.key) d := by
    intro hk
    rw [truth, hlone.owner hd, hplace]
    exact hhonest d hd hk
  have hmem {n : NodeId} {d : CellId} (hd : d ∈ (w.state.node n).cells) : n = r.root :=
    hlone.only (hasNode_of_mem_cells hd)
  refine ⟨hstill, ?_, hlone.hasRoot, hlone.isRoot, hplace⟩
  exact
    { toIntact := hlone.toIntact
      untouched := hlone.toUntouched
      seeded := fun e he => absurd he (hlone.noEdge e)
      honest := hhonest
      bound := fun hn _ => by
        rw [hlone.only hn]
        exact ⟨hlone.keyed, hkey⟩
      child := fun he => absurd he (hlone.noEdge _)
      link := fun he => absurd he (hlone.noEdge _)
      linked := fun he => absurd he (hlone.noEdge _)
      grounded := fun he => absurd he (hlone.noEdge _)
      absent := fun hd _ => hhonest (hlone.hasCell hd)
      current := fun hcurrent hd => by
        rw [hmem hd, hlone.stale] at hcurrent
        cases hcurrent
      writes := fun _ => hwrites
      root := fun hn _ => by
        rw [hlone.only hn]
        exact hlone.bound hkey }

/-- A record with a key stands at the place of its row. -/
theorem shows_create {key : Value} (hkey : key ≠ .null) (hwrites : c.dialect.Writes key)
    (table : String) (keyName : Option String) (options : Options) {store : σ}
    (hstill : still store) (log : List Exchange) :
    Shows c db still (create table keyName (some key) options).1
      ⟨table, keyName.getD options.naming.key, key⟩
      ⟨store, log, (create table keyName (some key) options).2⟩ fun _ => key := by
  refine shows_of_lone (p := ⟨table, keyName.getD options.naming.key, key⟩)
    (lone_addRoot table _ key) hstill hkey hwrites rfl rfl fun d hd hk => ?_
  cases hk.symm.trans (isKey_addRoot_empty hd)

/-! ## Requests -/

theorem Shows.grown (hserves : Serves c db still) (h : Shows c db still r p w keys)
    (hgrown : Grown w v) : ∃ keys', Shows c db still r p v keys' := by
  have hwf := h.unwritten.toWellFormed
  obtain ⟨keys', hkeys, hunwritten⟩ := h.unwritten.grows hserves hgrown.grows
  have hx := hgrown.grows.extends hwf
  refine ⟨keys', hgrown.store ▸ h.still, hunwritten, hx.hasNode h.hasRoot,
    (hx.parent h.hasRoot).trans h.isRoot, ?_⟩
  rw [← h.place, Forest.place, Forest.place, hx.table h.hasRoot, hx.keyName hwf h.hasRoot,
    hkeys _ h.hasRoot]

theorem Shows.fetched (h : Shows c db still r p w keys) (hfetched : Fetched c db still keys w v)
    (hseeded : LinksSeeded v.state keys) : Shows c db still r p v keys := by
  have hs := hfetched.learns.steady.shape
  refine ⟨hfetched.still, h.unwritten.fetched hfetched hseeded, (hs.hasNode _).2 h.hasRoot,
    (hs.parent _).trans h.isRoot, ?_⟩
  rw [← h.place, Forest.place, Forest.place, hs.table, hs.keyName]

/-- A read of a path keeps showing, and results in what the path denotes if its column is found. -/
theorem Shows.get (hserves : Serves c db still) (h : Shows c db still r p w keys) (path : String) :
    (r.get c path).Ensures w fun result v => (∃ keys', Shows c db still r p v keys') ∧
      ∀ q, r.columnPath path = .ok q → (r.options.registerOnAccess = true ∨
        ∃ d, w.state.lookupColumn? r.root q = some d) → result = .ok (q.value db p) := by
  obtain ⟨hgrown, hresolved⟩ := resolve_spec h.unwritten.toWellFormed h.hasRoot path
  rcases hresolve : (r.resolve path).perform w with ⟨e | d, u⟩ <;> rw [hresolve] at hgrown hresolved
  · rw [Record.get, Action.Ensures, Action.perform_bind_error hresolve]
    refine ⟨h.grown hserves hgrown, fun q hq hreg => ?_⟩
    obtain ⟨d, v, hok⟩ := exists_resolve hq hreg
    cases hresolve.symm.trans hok
  · obtain ⟨q, hq, hd⟩ := hresolved d rfl
    obtain ⟨keys', hu⟩ := h.grown hserves hgrown
    have hf := hu.unwritten
    obtain ⟨v, hget, hfetched, hseeded⟩ := get_of_resolved hserves hu.still hresolve
      hf.toFollows hf.seeded (hasCell_of_lookupColumn? hf.toWellFormed hd)
    rw [Action.Ensures, hget]
    refine ⟨⟨keys', hu.fetched hfetched hseeded⟩, fun q' hq' _ => ?_⟩
    rw [effective_of_lookup hf.toMirrors hf.untouched hd, hu.place,
      Except.ok.inj (hq.symm.trans hq')]

/-- The root has a key, so it is fetched without a fault. -/
theorem Shows.fetch (hserves : Serves c db still) (h : Shows c db still r p w keys) :
    (r.fetch c).Ensures w fun _ v => Shows c db still r p v keys := by
  obtain ⟨v, hfetch, hfetched, hseeded, -⟩ := fetch_known hserves h.still
    h.unwritten.toFollows h.unwritten.seeded h.hasRoot (h.unwritten.root h.hasRoot h.isRoot)
  rw [Record.fetch, Action.Ensures, hfetch]
  exact h.fetched hfetched hseeded

theorem Shows.serve (hserves : Serves c db still) (h : Shows c db still r p w keys) {q : Request}
    (hq : q.isReading = true) : ∃ keys', Shows c db still r p (r.serve c w q) keys' := by
  have hwf := h.unwritten.toWellFormed
  cases q with
  | register path => exact h.grown hserves (register_spec hwf h.hasRoot path).1
  | registerTable path => exact h.grown hserves (registerTable_spec hwf h.hasRoot path)
  | get path => exact (h.get hserves path).1
  | fetch => exact ⟨keys, h.fetch hserves⟩
  | _ => exact absurd hq Bool.false_ne_true

/-- A run of reading requests keeps showing, and what was registered before or is registered in the
run is registered at its end. -/
theorem Shows.after (hserves : Serves c db still) (h : Shows c db still r p w keys)
    (requests : List Request) (hreads : ∀ q ∈ requests, q.isReading = true) :
    (∃ keys', Shows c db still r p (r.after c requests w) keys') ∧
      ∀ path q, r.columnPath path = .ok q →
        (∃ d, w.state.lookupColumn? r.root q = some d) ∨ .register path ∈ requests →
          ∃ d, (r.after c requests w).state.lookupColumn? r.root q = some d := by
  induction requests generalizing w keys with
  | nil => exact ⟨⟨keys, h⟩, fun path q _ hreg => hreg.resolve_right List.not_mem_nil⟩
  | cons request rest ih =>
    have hwf := h.unwritten.toWellFormed
    have hrequest := hreads request (List.mem_cons_self ..)
    obtain ⟨keys', h'⟩ := h.serve hserves hrequest
    obtain ⟨hshows, hlater⟩ := ih h' fun q hq => hreads q (List.mem_cons_of_mem _ hq)
    rw [after_cons]
    refine ⟨hshows, fun path q hq hreg => hlater path q hq ?_⟩
    rcases hreg with ⟨d, hd⟩ | hmem
    · exact Or.inl ⟨d, (browses_serve hwf h.hasRoot hrequest).lookupColumn? hwf hd⟩
    rcases List.mem_cons.1 hmem with rfl | hmem
    · obtain ⟨d, v, hregister⟩ := exists_register hq w
      obtain ⟨-, hfound⟩ := register_spec hwf h.hasRoot path
      rw [hregister] at hfound
      obtain ⟨q', hq', hd⟩ := hfound d rfl
      obtain rfl := Except.ok.inj (hq.symm.trans hq')
      refine Or.inl ⟨d, ?_⟩
      rwa [Record.serve, hregister]
    · exact Or.inr hmem

/-! ## All paths of a selection -/

/-- Paths that can be read are all registered. -/
theorem Shows.registerAll (hserves : Serves c db still) (h : Shows c db still r p w keys)
    {paths : List String} {ps : List Path}
    (hps : List.Forall₂ (fun path q => r.columnPath path = .ok q) paths ps) :
    ∃ cells v, (r.registerAll paths).perform w = (.ok cells, v) ∧ Grown w v ∧
      ∀ q ∈ ps, ∃ d, v.state.lookupColumn? r.root q = some d := by
  induction hps generalizing w keys with
  | nil => exact ⟨[], w, rfl, Grown.refl w, fun q hq => absurd hq List.not_mem_nil⟩
  | @cons path q paths ps hq _ ih =>
    have hwf := h.unwritten.toWellFormed
    obtain ⟨d, u, hregister⟩ := exists_register hq w
    obtain ⟨hgrown, hfound⟩ := (register_spec hwf h.hasRoot path).of_perform hregister
    obtain ⟨q', hq', hd⟩ := hfound d rfl
    obtain rfl := Except.ok.inj (hq.symm.trans hq')
    obtain ⟨keys', hu⟩ := h.grown hserves hgrown
    obtain ⟨cells, v, hrest, hlater, hall⟩ := ih hu
    refine ⟨d :: cells, v, ?_, hgrown.trans hlater, List.forall_mem_cons.2 ⟨⟨d, ?_⟩, hall⟩⟩
    · rw [Record.registerAll, Action.perform_bind_ok hregister, Action.perform_bind_ok hrest]
      rfl
    · exact hlater.browses.lookupColumn? hu.unwritten.toWellFormed hd

/-- Paths that are registered are all read, in order. -/
theorem Shows.getAll (hserves : Serves c db still) (h : Shows c db still r p w keys)
    {paths : List String} {ps : List Path}
    (hps : List.Forall₂ (fun path q => r.columnPath path = .ok q) paths ps)
    (hreg : ∀ q ∈ ps, ∃ d, w.state.lookupColumn? r.root q = some d) :
    ∃ v, (r.getAll c paths).perform w = (.ok (ps.map fun q => q.value db p), v) := by
  induction hps generalizing w keys with
  | nil => exact ⟨w, rfl⟩
  | @cons path q paths ps hq _ ih =>
    have hwf := h.unwritten.toWellFormed
    obtain ⟨hfirst, hrest⟩ := List.forall_mem_cons.1 hreg
    obtain ⟨⟨keys', hu⟩, hvalue⟩ := h.get hserves path
    have hbrowses := browses_get (c := c) hwf h.hasRoot path
    rcases hget : (r.get c path).perform w with ⟨result, u⟩
    rw [hget] at hu hvalue hbrowses
    obtain rfl : result = _ := hvalue q hq (Or.inr hfirst)
    obtain ⟨v, hall⟩ := ih hu fun q hq => by
      obtain ⟨d, hd⟩ := hrest q hq
      exact ⟨d, hbrowses.lookupColumn? hwf hd⟩
    refine ⟨v, ?_⟩
    rw [Record.getAll, Action.perform_bind_ok hget, Action.perform_bind_ok hall]
    rfl

end Record

/-- **Reads are left joins.**  A connector serves a database that does not change, and a record is
opened by a key that is not null and can be written.  After any run of requests to register, read
and fetch, reading a path that is registered by then, or is registered on access, results in what
the path denotes at the row of the record; and a selection of paths results in what they denote, in
order. -/
theorem read_eq_leftJoin (τ : Type) (hserves : Serves c db still) (store : σ)
    (hstill : still store) (table : String) (keyName : Option String) (key : Value)
    (hkey : key ≠ .null) (hwrites : c.dialect.Writes key) (options : Options) :
    let opened := Record.create table keyName (some key) options
    let r := opened.1
    let p : Place := ⟨table, keyName.getD options.naming.key, key⟩
    (∀ requests path q, (∀ request ∈ requests, request.isReading = true) →
      r.columnPath path = .ok q →
      (.register path ∈ requests ∨ options.registerOnAccess = true ∨
        ∃ d, (r.after c requests ⟨store, [], opened.2⟩).state.lookupColumn? r.root q = some d) →
      ((r.get c path).perform (r.after c requests ⟨store, [], opened.2⟩)).1 =
        .ok (q.value db p)) ∧
    (∀ paths ps (w : World σ τ),
      List.Forall₂ (fun path q => r.columnPath path = .ok q) paths ps → w.store = store →
      ((Table.select ⟨table, options⟩ c paths ⟨keyName, key⟩).perform w).1 =
        .ok (ps.map fun q => q.value db p)) := by
  intro opened r p
  have hshows (log : List Exchange) :
      Record.Shows c db still r p ⟨store, log, opened.2⟩ fun _ => key :=
    Record.shows_create hkey hwrites table keyName options hstill log
  constructor
  · intro requests path q hreads hq hreg
    obtain ⟨⟨keys, hafter⟩, hregistered⟩ := (hshows []).after hserves requests hreads
    refine (hafter.get hserves path).2 q hq ?_
    rcases hreg with hmem | hreg
    · exact Or.inr (hregistered path q hq (Or.inr hmem))
    · exact hreg
  · rintro paths ps w hps rfl
    obtain ⟨cells, v, hregister, hgrown, hreg⟩ := (hshows w.log).registerAll hserves hps
    obtain ⟨keys, hv⟩ := (hshows w.log).grown hserves hgrown
    obtain ⟨u, hall⟩ := hv.getAll hserves hps hreg
    have hrun := (Action.perform_bind_ok hregister fun _ => r.getAll c paths).trans hall
    exact congrArg Prod.fst hrun

/-- A row that links to another one. -/
def twoRows : RowsByText
  | "table0", "id", "1" =>
    some fun column => if column = "table1_id" then .int 7 else .text "first"
  | "table1", "id", "7" => some fun _ => .text "second"
  | _, _, _ => none

theorem writes_twoRows (table keyName literal : String) (row : String → Value)
    (h : twoRows table keyName literal = some row) (column : String) :
    Dialect.sqlite.Writes (row column) := by
  unfold twoRows at h
  split at h
  · obtain rfl := Option.some.inj h
    dsimp only
    split <;> exact ⟨_, rfl⟩
  · obtain rfl := Option.some.inj h
    exact ⟨_, rfl⟩
  · cases h

/-- The join is registered after the row that links to it was read. -/
theorem read_eq_leftJoin_twoRows :
    let opened := Record.create "table0" none (some (.int 1)) .standard
    let c := Connector.ofRows .sqlite twoRows
    let requests := [.register "name", .get "name", .register "table1.title"]
    let w : World Unit Unit := ⟨(), [], ()⟩
    ((opened.1.get c "table1.title").perform
        (opened.1.after c requests ⟨(), [], opened.2⟩)).1 = .ok (.text "second") ∧
      ((Table.select ⟨"table0", .standard⟩ c ["table1.title", "id"] ⟨none, .int 1⟩).perform w).1 =
        .ok [.text "second", .int 1] := by
  intro opened c requests w
  obtain ⟨hget, hselect⟩ := read_eq_leftJoin Unit (serves_ofRows writes_twoRows) () trivial "table0"
    none (.int 1) nofun ⟨"1", rfl⟩ .standard
  have hpath : opened.1.columnPath "table1.title" =
      .ok (.join "table1" "id" (.column "table1_id") (.column "title")) := by decide +kernel
  have hkey : opened.1.columnPath "id" = .ok (.column "id") := by decide +kernel
  constructor
  · rw [hget requests "table1.title" _ (by decide) hpath (Or.inl (by decide))]
    decide +kernel
  · rw [hselect _ _ w (.cons hpath (.cons hkey .nil)) rfl]
    decide +kernel

end LinkedRows
