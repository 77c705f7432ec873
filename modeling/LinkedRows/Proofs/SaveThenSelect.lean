/-
# Saving a value by a path and selecting it by the same path

A call that saves one value by a path works on a record for which that path alone was registered,
and so does a call that selects by it: both work on a line (`exists_register_line`).  Saving leads
the chain of the path to the value, over whatever rows were there and the rows that were inserted
(`save_of_line`); selecting follows the chain from the same row (`get_of_line`).  So what is
selected is what was saved (`save_then_select`), as the literal of the value is read.
-/

import LinkedRows.Proofs.LineSaving
import LinkedRows.Proofs.StoredRows
import LinkedRows.Table

namespace LinkedRows

open Forest Tables

variable {σ τ ρ : Type} {c : Connector σ} {keyName : String → String} {tables : σ → Tables ρ}
  {w v : World σ Forest} {f : Forest} {n : NodeId} {d : CellId} {r : Record} {path : String}
  {p : Path} {value key : Value} {x : ρ} {x? : Option ρ} {rows met : List ρ}

/-- The record is the root of the line of a path. -/
structure Record.Line (r : Record) (keyName : String → String) (p : Path) (a : Option Value)
    (d : CellId) (f : Forest) : Prop extends Intact f where
  unread : f.Unread p.chain.leaf a d r.root p.chain.joins
  inPlace : f.InPlace keyName p.chain.leaf r.root p.chain.joins
  isRoot : (f.node r.root).parent = none
  found : f.column? r.root p.chain = some d

/-! ## Opening a record for a path -/

/-- Registering one path for a record that was just created leads to a line. -/
theorem exists_register_line {table : String} {keyColumn : Option String} (key? : Option Value)
    {options : Options} (hp : Path.readColumn options.naming path = .ok p)
    (hkeyName : keyColumn.getD options.naming.key = keyName table)
    (haddr : Addressed keyName p.chain.leaf table p.chain.joins) (store : σ)
    (log : List Exchange) :
    let opened := Record.create table keyColumn key? options
    ∃ d f, (opened.1.register path).perform (⟨store, log, opened.2⟩ : World σ Forest) =
        (.ok d, ⟨store, log, f⟩) ∧ opened.1.Line keyName p none d f ∧
      (f.node opened.1.root).table = table ∧ f.keyValue opened.1.root = key?.getD .null ∧
      f.isNew opened.1.root = (key?.getD .null).isNull := by
  intro opened
  obtain ⟨hfits, hends⟩ := Path.linksFit_read hp
  have hend := hends.2 rfl
  have hlone : Lone opened.1.root (key?.getD .null) opened.2 := lone_addRoot _ _ _
  have hwf := hlone.toWellFormed
  have hcolumn : opened.1.columnPath path = .ok p := hp
  obtain ⟨d, hd⟩ := exists_registerColumn hfits hend opened.1.root opened.2
  rcases hr : (registerColumn opened.1.root p).perform opened.2 with ⟨result, f⟩
  have hlookup := (registerColumn_spec hwf p hlone.hasRoot).2 d hd
  have hadds := growColumn_adds hwf hfits hend hlone.hasRoot
  have hgrown : (p.growColumn opened.1.root).perform opened.2 = (result, f) := by
    rw [← hr, registerColumn, if_pos hend]
  rw [hr] at hd hlookup
  obtain rfl : result = .ok d := hd
  rw [hgrown] at hadds
  have hx := hadds.grows.extends hwf
  have hg := hwf.grows hadds.grows
  rw [lookupColumn?_eq hg hfits hend] at hlookup
  have htable : (f.node opened.1.root).table = table := hx.table hlone.hasRoot
  have hkey : f.keyName opened.1.root = keyName (f.node opened.1.root).table := by
    rw [htable, hx.keyName hwf hlone.hasRoot, ← hkeyName]
    rfl
  have haddr : Addressed keyName p.chain.leaf (f.node opened.1.root).table p.chain.joins := by
    rwa [htable]
  refine ⟨d, f, ?_, ⟨hlone.toIntact.grows hadds.grows, ?_, ⟨hkey, haddr⟩, ?_, hlookup⟩, htable, ?_,
    ?_⟩
  · rw [Record.register, hcolumn, Action.perform_bind_ok (Action.perform_ofExcept _ _)]
    show (((registerColumn opened.1.root p).perform opened.2).1,
      World.mk store log ((registerColumn opened.1.root p).perform opened.2).2) = _
    rw [hr]
  · exact unread_of_adds hlone (fun _ => isKey_addRoot_empty) hadds hlookup hkey haddr
  · rw [hx.parent hlone.hasRoot]
    exact hlone.isRoot
  · rw [hx.keyValue hwf hlone.hasRoot, hlone.keyed]
  · rw [hx.isNew hwf hlone.hasRoot]
    show (!(if (key?.getD .null).isNull then none else some (key?.getD .null)).isSome) = _
    cases (key?.getD .null).isNull <;> rfl

/-- On a line, the column of its path is found. -/
theorem Record.Line.resolve {a : Option Value} (h : r.Line keyName p a d w.state)
    (hp : r.columnPath path = .ok p) : (r.resolve path).perform w = (.ok d, w) := by
  obtain ⟨hfits, hends⟩ := Path.linksFit_read hp
  have hlookup : w.state.lookupColumn? r.root p = some d := by
    rw [lookupColumn?_eq h.toWellFormed hfits (hends.2 rfl), h.found]
  rw [Record.resolve, hp, Action.perform_bind_ok (Action.perform_ofExcept _ _),
    Action.perform_state_bind, hlookup]
  rfl

/-! ## Saving -/

/-- A save of a record resolves what is below it first. -/
theorem perform_save_of_resolve {u : World σ Forest} (hdel : (w.state.node n).deleted = false)
    (hresolve : (resolve c n (w.state.below n)).perform w = (.ok (), u))
    (hsave : (saveFrom c n (w.state.below n) true).perform u = (.ok (), v)) :
    (LinkedRows.save c n).perform w = (.ok (), v) := by
  obtain ⟨⟨⟩, s, hread, hbelow⟩ := Action.perform_bind_eq_ok.1 hresolve
  rw [LinkedRows.save, Action.perform_state_bind, hdel]
  show (readLinks c n >>= fun _ => resolveBelow c (w.state.below n) >>= fun _ =>
    saveFrom c n (w.state.below n) true).perform w = _
  rw [Action.perform_bind_ok hread, Action.perform_bind_ok hbelow, hsave]

/-- **Assigning the column of a line and saving the record leads the chain to the value.** -/
theorem save_of_line (hc : Faithful c keyName tables) (h : r.Line keyName p none d w.state)
    (hp : r.columnPath path = .ok p) (hvalue : c.dialect.Writes value)
    (hx : Stands (tables w.store) w.state r.root x?)
    (hmet : (tables w.store).MeetsFrom p.chain.joins x? met) (hnodup : met.Nodup) :
    ∃ key v x rows, (r.set path value >>= fun _ => r.save c).perform w = (.ok key, v) ∧
      (tables v.store).row? (w.state.node r.root).table key = some x ∧
      (w.state.isNew r.root = false → key = w.state.keyValue r.root) ∧
      (tables v.store).Leads p.chain.leaf (c.dialect.known value) x p.chain.joins rows ∧
      ∀ y ∈ rows, (tables w.store).Has y → y ∈ met := by
  have hwf := h.toWellFormed
  obtain ⟨hunread, hassign⟩ := h.unread.assign hwf value
  have hk := (h.unread.atEnd hwf).1.isKey
  have hroot := h.unread.hasNode
  have hassignSteady := steady_assignCell w.state d value
  have hstands := stands_assignCell hwf hk hroot value hx
  have hnew := isNew_assignCell hwf hk hroot value
  have hkey := keyValue_assignCell hwf hk hroot value
  rw [← hassign] at hassignSteady hstands hnew hkey
  have hplace := h.inPlace.of_sameShape hassignSteady.shape
  have hset : (r.set path value).perform w = (.ok (), w.withState (w.state.assign d value)) := by
    rw [Record.set, Action.perform_bind_ok (h.resolve hp)]
    rfl
  have hf := h.toIntact.steady hassignSteady
  obtain ⟨u, hresolve, hstore, hresolved⟩ := exists_resolved hc
    (w := w.withState (w.state.assign d value)) hunread hf hplace hstands hmet
  have hlearns := ((consults_resolve c hf.toWellFormed r.root).of_perform hresolve).learns
  have hs := hassignSteady.trans hlearns.steady
  rw [← hstore] at hresolved
  obtain ⟨v, x, rows, hsave, hxAfter, hkept, -, hleads, hrows⟩ := save_line hc hresolved
    (h.toIntact.steady hs) (hplace.of_sameShape hlearns.steady.shape) hvalue hnodup true
  have hreach := reaches_saveFrom (h.toIntact.steady hs).toWellFormed
    ((hs.shape.hasNode _).2 hroot) hsave
  rw [hlearns.steady.shape.below] at hsave
  refine ⟨v.state.keyValue r.root, v, x, rows, ?_, ?_, fun hbound => ?_, hleads, ?_⟩
  · rw [Action.perform_bind_ok hset, Record.save,
      Action.perform_bind_ok (perform_save_of_resolve (hf.undeleted _) hresolve hsave)]
    rfl
  · rw [← hs.shape.table, ← hreach.shape.table]
    exact hxAfter.2
  · have hbound := hnew.trans hbound
    rw [hkept (hlearns.steady.isNew hf.toWellFormed ((hassignSteady.shape.hasNode _).2 hroot)
      hbound), hlearns.keyValue hf.toWellFormed ((hassignSteady.shape.hasNode _).2 hroot) hbound]
    exact hkey
  · rwa [hstore] at hrows

/-! ## Selecting -/

/-- Reading the column of a line of a record with a row results in what the chain leads to. -/
theorem get_of_line (hc : Faithful c keyName tables) (h : r.Line keyName p none d w.state)
    (hp : r.columnPath path = .ok p) (hx : Stands (tables w.store) w.state r.root (some x))
    (hleads : (tables w.store).Leads p.chain.leaf value x p.chain.joins rows) :
    ∃ v, (r.get c path).perform w = (.ok value, v) := by
  have hwf := h.toWellFormed
  obtain ⟨-, hwalk, -⟩ := (column?_eq_some_iff hwf).1 h.found
  obtain ⟨rest, hchain⟩ := chain_of_walk? hwf h.isRoot hwalk
  have hbound : w.state.isBound r.root = true := by
    rw [isBound, hx.1, h.undeleted]
    rfl
  have hstale : w.state.isStale r.root = true := by
    rw [isStale, hbound, h.unread.notCurrent]
    rfl
  have hanchor : w.state.staleAnchor? (w.state.cell d).owner = some r.root := by
    rw [staleAnchor?, hchain, List.find?_cons_of_pos hstale]
  obtain ⟨v, hfetch, hread⟩ := fetch_line hc h.unread h.toIntact h.inPlace hx hleads
  refine ⟨v, ?_⟩
  have hrun : (LinkedRows.fetch c r.root).perform w = (.ok (), v) := by
    rw [LinkedRows.fetch, Action.perform_state_bind, hbound]
    show (fetchTree c r.root).perform w = _
    rw [fetchTree, Action.perform_state_bind, hfetch]
  rw [Record.get, Action.perform_bind_ok (h.resolve hp), Action.perform_state_bind, hanchor]
  dsimp only
  rw [Action.perform_bind_ok hrun, Action.perform_state_bind, hread]
  rfl

/-! ## One call after the other -/

namespace Table

variable {t : Table} {τ : Type}

/-- A call that saves one value works on a record for which its path was registered. -/
theorem perform_save_one {key? : Option TableKey} {w : World σ τ} {u v : World σ Forest}
    {d : CellId} :
    let opened := Record.create t.name (key?.bind (·.name)) (key?.map (·.value)) t.options
    (opened.1.register path).perform ⟨w.store, w.log, opened.2⟩ = (.ok d, u) →
    (opened.1.set path value >>= fun _ => opened.1.save c).perform u = (.ok key, v) →
    (t.save c [(path, value)] key?).perform w = (.ok key, ⟨v.store, v.log, w.state⟩) := by
  intro opened hregister hrun
  obtain ⟨⟨⟩, s, hset, hsave⟩ := Action.perform_bind_eq_ok.1 hrun
  have hassign : (assignAll opened.1 [(path, value)]).perform ⟨w.store, w.log, opened.2⟩ =
      (.ok (), s) := by
    rw [assignAll, Action.perform_bind_ok hregister, Action.perform_bind_ok hset]
    rfl
  have hwork : (assignAll opened.1 [(path, value)] >>= fun _ => opened.1.save c).perform
      ⟨w.store, w.log, opened.2⟩ = (.ok key, v) := by
    rw [Action.perform_bind_ok hassign, hsave]
  show (let (result, v) := (assignAll opened.1 [(path, value)] >>= fun _ =>
    opened.1.save c).perform ⟨w.store, w.log, opened.2⟩; (result, World.mk v.store v.log w.state)) =
      _
  rw [hwork]

/-- A call that selects by one path works on a record for which it was registered. -/
theorem perform_select_one {k : TableKey} {w : World σ τ} {u v : World σ Forest} {d : CellId} :
    let opened := Record.create t.name k.name (some k.value) t.options
    (opened.1.register path).perform ⟨w.store, w.log, opened.2⟩ = (.ok d, u) →
    (opened.1.get c path).perform u = (.ok value, v) →
    ((t.select c [path] k).perform w).1 = .ok [value] := by
  intro opened hregister hget
  have hregisters : (opened.1.registerAll [path]).perform ⟨w.store, w.log, opened.2⟩ =
      (.ok [d], u) := by
    rw [Record.registerAll, Action.perform_bind_ok hregister]
    rfl
  show ((opened.1.registerAll [path] >>= fun _ => opened.1.getAll c [path]).perform
    ⟨w.store, w.log, opened.2⟩).1 = _
  rw [Action.perform_bind_ok hregisters, Record.getAll, Action.perform_bind_ok hget]
  rfl

end Table

/-- **What is saved by a path is selected by it.**  Over a connector that is faithful to tables, for
a path whose joins enter tables by their key columns and whose links and leaf are no key columns: a
call that saves a value by the path, for a row from which the chain leads over different rows as far
as its links go, or for no row, returns the key of that row, or of a new one.  A call that selects
by the path and that key afterwards returns the value, as its literal is read. -/
theorem save_then_select (hc : Faithful c keyName tables) (t : Table)
    (hp : Path.readColumn t.options.naming path = .ok p)
    (haddr : Addressed keyName p.chain.leaf t.name p.chain.joins)
    (hvalue : c.dialect.Writes value) (key? : Option TableKey)
    (hkeyName : (key?.bind (·.name)).getD t.options.naming.key = keyName t.name)
    (w : World σ τ)
    (hrow : ∀ key ∈ key?, ∃ x met, (tables w.store).row? t.name key.value = some x ∧
      (tables w.store).Meets x p.chain.joins met ∧ met.Nodup) :
    ∃ key v x, (t.save c [(path, value)] key?).perform w = (.ok key, v) ∧
      (tables v.store).row? t.name key = some x ∧
      (∀ k ∈ key?, key = k.value) ∧ (key? = none → ¬(tables w.store).Has x) ∧
      ((t.select c [path] ⟨key?.bind (·.name), key⟩).perform v).1 =
        .ok [c.dialect.known value] := by
  obtain ⟨d, f, hregister, hline, htable, hkeyValue, hnew⟩ := exists_register_line
    (key?.map (·.value)) hp hkeyName haddr w.store w.log
  obtain ⟨x?, met, hx, hmet, hnodup, hnone⟩ : ∃ x? met, Stands (tables w.store) f
      (Record.create t.name (key?.bind (·.name)) (key?.map (·.value)) t.options).1.root x? ∧
      (tables w.store).MeetsFrom p.chain.joins x? met ∧ met.Nodup ∧ (key? = none → met = []) := by
    cases key? with
    | none => exact ⟨none, [], hnew, rfl, List.nodup_nil, fun _ => rfl⟩
    | some k =>
      obtain ⟨x, met, hx, hmet, hnodup⟩ := hrow k rfl
      refine ⟨some x, met, ⟨hnew.trans (hc.isNull hx), ?_⟩, hmet, hnodup, fun h => by cases h⟩
      rw [htable, hkeyValue]
      exact hx
  obtain ⟨key, v, x, rows, hsave, hkey, hkept, hleads, hrows⟩ :=
    save_of_line hc (w := ⟨w.store, w.log, f⟩) hline hp hvalue hx hmet hnodup
  rw [htable] at hkey
  obtain ⟨d', g, hregister', hline', htable', hkeyValue', hnew'⟩ := exists_register_line
    (some key) hp hkeyName haddr v.store v.log
  have hx' : Stands (tables v.store) g _ (some x) := ⟨hnew'.trans (hc.isNull hkey), by
    rw [htable', hkeyValue']
    exact hkey⟩
  obtain ⟨u, hget⟩ := get_of_line hc (w := ⟨v.store, v.log, g⟩) hline' hp hx' hleads
  refine ⟨key, _, x, Table.perform_save_one hregister hsave, hkey, fun k hk => ?_, fun h hhas => ?_,
    Table.perform_select_one hregister' hget⟩
  · cases hk
    obtain ⟨y, -, hy, -⟩ := hrow k rfl
    exact (hkept (hnew.trans (hc.isNull hy))).trans hkeyValue
  · have hmem := hrows x hleads.head_mem hhas
    rw [hnone h] at hmem
    exact List.not_mem_nil hmem

/-- From a row over a link to another one, whose link is null: the row that the path leads to is
inserted. -/
theorem save_then_select_inserts :
    let c := Connector.stored .postgres fun _ => "id"
    let t : Table := ⟨"table0", .standard⟩
    let rows : StoredRows :=
      [⟨"table0", fun column => if column = "table1_id" then .text "1" else .null⟩,
        ⟨"table1", fun _ => .null⟩]
    ∃ v x, (t.save c [("table1.table2.title", .text "First")] (some ⟨none, .text "0"⟩)).perform
        (⟨rows, [], ()⟩ : World StoredRows Unit) = (.ok (.text "0"), v) ∧
      v.store.position? "table0" (.text "0") = some x ∧
      ((t.select c ["table1.table2.title"] ⟨none, .text "0"⟩).perform v).1 =
        .ok [.text "First"] := by
  intro c t rows
  have hc := StoredRows.faithful_stored .postgres fun _ => "id"
  have hp : Path.readColumn t.options.naming "table1.table2.title" =
      .ok (.join "table1" "id" (.column "table1_id")
        (.join "table2" "id" (.column "table2_id") (.column "title"))) := rfl
  have hvalue : c.dialect.Writes (.text "First") := ⟨_, rfl⟩
  obtain ⟨key, v, x, hsave, hrow, hkey, -, hselect⟩ := save_then_select hc t hp
    ⟨by decide, rfl, by decide, rfl, (by decide : "title" ≠ "id")⟩ hvalue
    (some ⟨none, .text "0"⟩) rfl (⟨rows, [], ()⟩ : World StoredRows Unit) <| by
      rintro _ ⟨⟩
      refine ⟨0, [0, 1], by decide +kernel, .goes (y := 1) ?_ ?_ (.stops ?_), by decide⟩
      all_goals decide +kernel
  obtain rfl := hkey _ rfl
  exact ⟨v, x, hsave, hrow, hselect⟩

/-- SQLite has no literals for truth values: one that is saved there comes back as a number. -/
theorem save_then_select_truth :
    let c := Connector.stored .sqlite fun _ => "id"
    let t : Table := ⟨"table0", .standard⟩
    let saved := (t.save c [("flag", .bool true)] none).perform
      (⟨[], [], ()⟩ : World StoredRows Unit)
    let selected := (t.select c ["flag"] ⟨none, .text "0"⟩).perform saved.2
    Faithful c (fun _ => "id") StoredRows.tables ∧
      Path.readColumn t.options.naming "flag" = .ok (.column "flag") ∧
      Addressed (fun _ => "id") "flag" "table0" [] ∧ c.dialect.Writes (.bool true) ∧
      saved.1 = .ok (.text "0") ∧ selected.1 = .ok [.int 1] ∧ selected.1 ≠ .ok [.bool true] := by
  intro c t saved selected
  have hsaved : saved.1 = .ok (.text "0") := by decide +kernel
  have hselected : selected.1 = .ok [.int 1] := by decide +kernel
  refine ⟨StoredRows.faithful_stored _ _, rfl, (by decide : "flag" ≠ "id"), ⟨"1", rfl⟩, hsaved,
    hselected, ?_⟩
  rw [hselected]
  decide

end LinkedRows
