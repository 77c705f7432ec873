/-
# Described records and plain ones

A described record registers the columns of its table at the start, with their declared defaults,
where a plain record of the same row registers a column when a path needs it.  The two forests are
twins, so all requests to get, assign and save are answered alike, and the same is written to the
same rows, as long as what both know of their links is true (`described_eq_plain`).

A declared default is what can be untrue: a column that has one counts as read.  A join through it
that is registered before its row is read leads to the default, and stays there
(`get_of_default`).  So all reads of the two records are the same exactly if each default is null or
is what the row holds.  A default that is neither does harm to no run that joins nothing through its
column, because the row is read before the column is (`DefaultsHarmless`).
-/

import LinkedRows.Proofs.LeftJoin
import LinkedRows.Proofs.StoredRows
import LinkedRows.Proofs.TwinRun
import LinkedRows.Record.Described

namespace LinkedRows

open Forest

namespace Forest

variable {f g : Forest} {root : NodeId} {key : Value} {c : CellId}

/-! ## Declared defaults -/

/-- The columns of a record but its key are those that were described, and hold what was
declared. -/
structure Describes (root : NodeId) (columns : List ColumnShape) (f : Forest) : Prop where
  registered {column} : column ∈ columns → ∃ c, f.findCell? root column.name = some c
  holds {d} : f.HasCell d → (f.cell d).isKey = false →
    ∃ column ∈ columns, column.name = (f.cell d).name ∧ column.declared = (f.cell d).stored

/-- Registers a column, and loads its declared default. -/
def loadDefault (root : NodeId) (f : Forest) (column : ColumnShape) : Forest :=
  (f.ensureCell root column.name).2.modifyCell (f.ensureCell root column.name).1
    (·.load column.declared)

/-- A described column is registered beside the key, if it was not before, and holds what was
declared. -/
theorem loadDefault_spec (h : Lone root key f) {column : ColumnShape}
    (hname : column.name ≠ f.keyName root) : Lone root key (loadDefault root f column) ∧
      (loadDefault root f column).keyName root = f.keyName root ∧
      ((loadDefault root f column).node root).table = (f.node root).table ∧
      (∀ g, Twins g f → Twins g (loadDefault root f column)) ∧
      ∀ columns, Describes root columns f →
        Describes root (columns ++ [column]) (loadDefault root f column) := by
  have hwf := h.toWellFormed
  have hx := (grows_ensureCell h.hasRoot column.name).extends hwf
  have hgrown := h.ensureCell column.name
  have hwf' := hgrown.toWellFormed
  have hfound := ensureCell_spec hwf h.hasRoot column.name
  obtain ⟨hmem, hcolumn⟩ := (findCell?_eq_some_iff hwf').1 hfound
  have hcell := hwf'.hasCell hmem
  have hk : ((f.ensureCell root column.name).2.cell (f.ensureCell root column.name).1).isKey =
      false := by
    rw [Bool.eq_false_iff, ne_eq, isKey_iff_keyName hwf' hcell, hgrown.owner hcell, hcolumn,
      hx.keyName hwf h.hasRoot]
    exact fun heq => hname heq.symm
  have hs := sameShape_loadCell (f.ensureCell root column.name).2
    (f.ensureCell root column.name).1 column.declared
  refine ⟨hgrown.loadCell hk column.declared, ?_, ?_, fun g ht => ?_,
    fun columns hd => ⟨fun hcolumns => ?_, ?_⟩⟩
  · exact (hs.keyName root).trans (hx.keyName hwf h.hasRoot)
  · exact (hs.table root).trans (hx.table h.hasRoot)
  · have ht := ht.ensureCell_right hwf h.hasRoot column.name
    refine ht.of_sameShape (SameShape.refl g) hs fun n name => ?_
    rw [← ht.pending?, loadDefault]
    refine pending?_of_sameShape hs (fun d _ => ?_) n name
    exact cell_modifyCell_proj _ Cell.assigned _ d fun _ => rfl
  · rw [loadDefault, hs.findCell?]
    rcases List.mem_append.1 hcolumns with hcolumns | hlast
    · obtain ⟨c, hc⟩ := hd.registered hcolumns
      exact ⟨c, findCell?_of_extends hwf hwf' hx hc⟩
    · rw [List.mem_singleton.1 hlast]
      exact ⟨_, hfound⟩
  · intro d hcd hkd
    by_cases hlast : d = (f.ensureCell root column.name).1
    · subst hlast
      refine ⟨column, List.mem_append_right _ (List.mem_singleton_self _), ?_, ?_⟩ <;>
        rw [loadDefault, cell_modifyCell_self _ hcell]
      · exact hcolumn.symm
      · rfl
    · rw [loadDefault, cell_modifyCell_of_ne _ hlast] at hkd ⊢
      have hold := (hasCell_ensureCell ((hs.hasCell d).1 hcd)).resolve_right hlast
      rw [hx.cell hold] at hkd ⊢
      obtain ⟨column', hcolumns, hholds⟩ := hd.holds hold hkd
      exact ⟨column', List.mem_append_left _ hcolumns, hholds⟩

/-- Loading defaults leads to a twin, in which the columns are those that were described. -/
theorem loadDefaults_spec (h : Lone root key f) {columns : List ColumnShape}
    (hnames : ∀ column ∈ columns, column.name ≠ f.keyName root) {done : List ColumnShape}
    (hd : Describes root done f) :
    Lone root key (DescribedRecord.loadDefaults root columns f) ∧
      (DescribedRecord.loadDefaults root columns f).keyName root = f.keyName root ∧
      ((DescribedRecord.loadDefaults root columns f).node root).table = (f.node root).table ∧
      (∀ g, Twins g f → Twins g (DescribedRecord.loadDefaults root columns f)) ∧
      Describes root (done ++ columns) (DescribedRecord.loadDefaults root columns f) := by
  induction columns generalizing f done with
  | nil => exact ⟨h, rfl, rfl, fun _ ht => ht, by rwa [List.append_nil]⟩
  | cons column rest ih =>
    obtain ⟨hname, hrest⟩ := List.forall_mem_cons.1 hnames
    obtain ⟨hlone, hkeyName, htable, htwins, hdescribes⟩ := loadDefault_spec h hname
    obtain ⟨hlone', hkeyName', htable', htwins', hdescribes'⟩ :=
      ih hlone (by rwa [hkeyName]) (hdescribes done hd)
    rw [List.append_assoc] at hdescribes'
    exact ⟨hlone', hkeyName'.trans hkeyName, htable'.trans htable,
      fun g ht => htwins' g (htwins g ht), hdescribes'⟩

/-- A path through a column of a lone record to the key of the record joined there leads to a new
record. -/
theorem growColumn_through (h : Lone root key f) {name table keyName : String}
    (hc : f.findCell? root name = some c) :
    ((Path.join table keyName (.column name) (.column keyName)).growColumn root).perform f =
      (.ok ((f.withJoin c table keyName).node ⟨f.nodes.length⟩).key,
        f.withJoin c table keyName) := by
  have hwf := h.toWellFormed
  have hcell := hwf.hasCell ((findCell?_eq_some_iff hwf).1 hc).1
  have howner := hwf.hasOwner hcell
  have hlabel : f.findEdge? (f.cell c).owner ⟨table, keyName, (f.cell c).name⟩ = none := by
    rw [Option.eq_none_iff_forall_ne_some]
    intro e he
    exact h.noEdge e (hwf.hasEdge ((findEdge?_eq_some_iff hwf).1 he).1)
  have hwf' := hwf.withJoin hcell hlabel
  have hchild : (f.withJoin c table keyName).HasNode ⟨f.nodes.length⟩ :=
    (hasNode_withJoin _).2 (Or.inr rfl)
  have hfound : (f.withJoin c table keyName).findCell? ⟨f.nodes.length⟩ keyName =
      some ((f.withJoin c table keyName).node ⟨f.nodes.length⟩).key := by
    refine (findCell?_eq_some_iff hwf').2 ⟨hwf'.key_mem hchild, ?_⟩
    rw [cell_key_newChild howner]
    rfl
  have hlink : ((Path.column name).growColumn root).perform f = (.ok c, f) := by
    rw [Path.growColumn, Growth.perform_ofForest, ensureCell_of_some hc]
  rw [Path.growColumn, Growth.perform_bind_ok hlink,
    Growth.perform_bind_ok (Growth.perform_ofForest _ f), ensureJoin_of_none hlabel,
    Path.growColumn, Growth.perform_ofForest, ensureCell_of_some hfound]

end Forest

/-! ## A default that stands in -/

variable {σ : Type} {c : Connector σ} {db : σ → Database}

namespace Record

/-- Some path leads through a column to the key of the record joined there. -/
def LeadsThrough (r : Record) (name : String) : Prop :=
  ∃ path table keyName, r.columnPath path =
    .ok (.join table keyName (.column name) (.column keyName))

variable {r : Record} {w : World σ Forest} {key : Value} {d : CellId}

/-- A read through a column with a known value, of a record that was never read, results in that
value, whatever the row holds. -/
theorem get_of_default (h : Lone r.root key w.state) (hreg : r.options.registerOnAccess = true)
    {name table keyName path : String} (hd : w.state.findCell? r.root name = some d)
    (hvalue : (w.state.cell d).value ≠ .null)
    (hp : r.columnPath path = .ok (.join table keyName (.column name) (.column keyName))) :
    (r.get c path).Ensures w fun result _ => ∀ x, result = .ok x → x = (w.state.cell d).value := by
  have hwf := h.toWellFormed
  have howner := hwf.hasOwner (hwf.hasCell ((findCell?_eq_some_iff hwf).1 hd).1)
  obtain ⟨hgrown, -⟩ := resolve_spec hwf h.hasRoot path
  obtain ⟨found, u, hresolve, -, hlearns, hresult⟩ := get_spec (c := c) hwf h.hasRoot path
  rw [hresolve] at hgrown
  rw [resolve_of_read hreg hp, growColumn_through h hd] at hresolve
  obtain ⟨rfl, rfl⟩ := Prod.mk.inj hresolve
  have hwf' := hwf.grows hgrown.grows
  have hs := hlearns.steady.shape
  intro x hx
  obtain ⟨d', hd', rfl⟩ := hresult x hx
  obtain rfl := Except.ok.inj hd'
  have hbound : (w.state.withJoin d table keyName).isNew ⟨w.state.nodes.length⟩ = false := by
    rw [isNew_newChild howner]
    cases hv : (w.state.cell d).value <;> first | rfl | exact absurd hv hvalue
  have hkept := hlearns.keyValue hwf' ((hasNode_withJoin _).2 (Or.inr rfl)) hbound
  rw [keyValue, hs.key] at hkept
  exact hkept.trans (keyValue_newChild howner)

/-! ## Runs of reads -/

variable {p : Place} {store : σ} {keys : NodeId → Value} {w' : World σ Forest}
  {doubt : String → Prop}

/-- Reads of a record that shows its row, and nothing that was assigned, fit the rows. -/
theorem Shows.grounded (hc : Stores c db) (h : Shows c (db store) (· = store) r p w keys)
    (hr : Rooted w.state r.root) (path : String) :
    Grounded c.dialect (db w.store) ((r.resolve path).perform w).2.state := by
  have hwf := h.unwritten.toWellFormed
  have hgrown := (resolve_spec hwf h.hasRoot path).1
  obtain ⟨_, hu⟩ := h.grown (hc.serves store) hgrown
  have hstore : w.store = store := h.still
  rw [hstore]
  exact hu.unwritten.toFollows.isGrounded (hr.grows hwf hgrown.grows)

/-- Reads have the same results in matching worlds, if none goes through a column in doubt. -/
theorem Shows.sameAnswers (hc : Stores c db) (hkey : key ≠ .null)
    (hreg : r.options.registerOnAccess = true)
    (h : Shows c (db store) (· = store) r p w keys) (hw : Matching c db r.root key doubt w w')
    (paths : List String) (havoids : (r.after c (paths.map .get) w).state.Avoids r.root doubt) :
    r.SameAnswers c (paths.map .get) w w' := by
  induction paths generalizing w w' keys with
  | nil => trivial
  | cons path rest ih =>
    have hstays := avoids_of_after hw.left.toWellFormed hw.keyed.hasRoot havoids
    obtain ⟨hanswer, hserved⟩ :=
      get_matching hc hkey hreg hw (h.grounded hc hw.rooted path) hstays
    obtain ⟨_, hshows⟩ := h.serve (hc.serves store) (q := .get path) rfl
    exact ⟨hanswer, ih hshows hserved havoids⟩

end Record

/-! ## Twins from the start -/

namespace DescribedRecord

/-- The name of the key column of a described record. -/
def keyName (schema : Schema) (options : Options) : String :=
  (schema.key?.map (·.name)).getD options.naming.key

/-- The plain record of the same row, which registers columns on access. -/
def counterpart (schema : Schema) (key : Value) (options : Options) : Record × Forest :=
  Record.create schema.table (some (keyName schema options)) (some key)
    (options.withRegisterOnAccess true)

/-- The declared default of a column is null, or is what the row holds. -/
def DefaultHolds (db : Database) (schema : Schema) (key : Value) (options : Options)
    (column : ColumnShape) : Prop :=
  column.declared = .null ∨
    column.declared = db.value ⟨schema.table, keyName schema options, key⟩ column.name

instance (db : Database) (schema : Schema) (key : Value) (options : Options)
    (column : ColumnShape) : Decidable (DefaultHolds db schema key options column) :=
  inferInstanceAs (Decidable (_ ∨ _))

/-- Each declared default is null, or is what the row holds. -/
def DefaultsHold (db : Database) (schema : Schema) (key : Value) (options : Options) : Prop :=
  ∀ column ∈ schema.columns, column.name ≠ keyName schema options →
    DefaultHolds db schema key options column

instance (db : Database) (schema : Schema) (key : Value) (options : Options) :
    Decidable (DefaultsHold db schema key options) :=
  inferInstanceAs (Decidable (∀ column ∈ schema.columns, column.name ≠ keyName schema options →
    DefaultHolds db schema key options column))

/-- Each declared default is null, or is what the row holds, or the row is there and the record is
joined to no other one through the column. -/
def DefaultsHarmless (db : Database) (schema : Schema) (key : Value) (options : Options)
    (f : Forest) : Prop :=
  ∀ column ∈ schema.columns, column.name ≠ keyName schema options →
    DefaultHolds db schema key options column ∨
      db.row? schema.table ⟨keyName schema options, key⟩ ≠ none ∧
        f.Avoids (counterpart schema key options).1.root (· = column.name)

instance (db : Database) (schema : Schema) (key : Value) (options : Options) (f : Forest) :
    Decidable (DefaultsHarmless db schema key options f) :=
  inferInstanceAs (Decidable (∀ column ∈ schema.columns, column.name ≠ keyName schema options →
    DefaultHolds db schema key options column ∨
      db.row? schema.table ⟨keyName schema options, key⟩ ≠ none ∧
        f.Avoids (counterpart schema key options).1.root (· = column.name)))

/-- The column has a declared default that is neither null nor what the row holds. -/
def Doubtful (db : Database) (schema : Schema) (key : Value) (options : Options)
    (name : String) : Prop :=
  ∃ column ∈ schema.columns, column.name = name ∧ name ≠ keyName schema options ∧
    ¬DefaultHolds db schema key options column

variable (schema : Schema) (key : Value) (options : Options)

theorem ofSchema_spec :
    (ofSchema schema (some key) options).1.record = (counterpart schema key options).1 ∧
      Lone (counterpart schema key options).1.root key (ofSchema schema (some key) options).2 ∧
      (ofSchema schema (some key) options).2.keyName (counterpart schema key options).1.root =
        keyName schema options ∧
      ((ofSchema schema (some key) options).2.node (counterpart schema key options).1.root).table =
        schema.table ∧
      Twins (counterpart schema key options).2 (ofSchema schema (some key) options).2 ∧
      Describes (counterpart schema key options).1.root
        (schema.columns.filter fun column => column.name != keyName schema options)
        (ofSchema schema (some key) options).2 := by
  have hlone := lone_addRoot schema.table (keyName schema options) key
  have hnone : Describes ⟨0⟩ [] (counterpart schema key options).2 :=
    ⟨fun hmem => absurd hmem List.not_mem_nil, fun hd hk =>
      absurd (hk.symm.trans (isKey_addRoot_empty hd)) Bool.false_ne_true⟩
  have hnames : ∀ column ∈ schema.columns.filter fun column =>
      column.name != keyName schema options, column.name ≠
        (counterpart schema key options).2.keyName (counterpart schema key options).1.root :=
    fun column hmem => bne_iff_ne.1 (List.mem_filter.1 hmem).2
  obtain ⟨hlone', hkeyName, htable, htwins, hdescribes⟩ := loadDefaults_spec hlone hnames hnone
  exact ⟨rfl, hlone', hkeyName, htable, htwins _ (Twins.refl _), hdescribes⟩

variable {key}

variable (db) (store : σ)

theorem shows_counterpart (hkey : key ≠ .null) (hwrites : c.dialect.Writes key) :
    Record.Shows c (db store) (· = store) (counterpart schema key options).1
      ⟨schema.table, keyName schema options, key⟩
      ⟨store, [], (counterpart schema key options).2⟩ fun _ => key := by
  refine Record.shows_create hkey hwrites _ _ _ ?_ []
  rfl

variable {schema options db store}

theorem beside_ofSchema (c : Connector σ) (store : σ) :
    Beside c (counterpart schema key options).1.root
      ⟨store, [], (counterpart schema key options).2⟩
      ⟨store, [], (ofSchema schema (some key) options).2⟩ := by
  obtain ⟨-, hlone, -, -, htwins, -⟩ := ofSchema_spec schema key options
  have hplain := lone_addRoot schema.table (keyName schema options) key
  exact ⟨⟨rfl, .nil⟩, htwins, hplain.toIntact, hlone.toIntact,
    (KeyedRoot.of_lone hplain).toRooted⟩

theorem DefaultsHold.harmless (h : DefaultsHold (db store) schema key options) (f : Forest) :
    DefaultsHarmless (db store) schema key options f :=
  fun column hcolumn hname => Or.inl (h column hcolumn hname)

namespace DefaultsHarmless

variable {f : Forest} (h : DefaultsHarmless (db store) schema key options f)
include h

theorem avoids : f.Avoids (counterpart schema key options).1.root
    (Doubtful (db store) schema key options) := by
  rintro e he howner ⟨column, hcolumn, hname, hne, hfalse⟩
  obtain ⟨-, havoids⟩ := (h column hcolumn (hname ▸ hne)).resolve_left hfalse
  exact havoids e he howner hname.symm

theorem row_ne_none {name : String} (hdoubt : Doubtful (db store) schema key options name) :
    (db store).row? schema.table ⟨keyName schema options, key⟩ ≠ none := by
  obtain ⟨column, hcolumn, rfl, hne, hfalse⟩ := hdoubt
  exact ((h column hcolumn hne).resolve_left hfalse).1

/-- Both records know nothing but what is true at the start, except for the columns whose defaults
do not hold. -/
theorem matching_ofSchema (c : Connector σ) (hkey : key ≠ .null) :
    Matching c db (counterpart schema key options).1.root key
      (Doubtful (db store) schema key options)
      ⟨store, [], (counterpart schema key options).2⟩
      ⟨store, [], (ofSchema schema (some key) options).2⟩ := by
  obtain ⟨-, hlone, hkeyName, htable, -, hdescribes⟩ := ofSchema_spec schema key options
  have hplain : Lone (counterpart schema key options).1.root key
      (counterpart schema key options).2 := lone_addRoot schema.table (keyName schema options) key
  refine ⟨beside_ofSchema c store,
    TrueTo.of_lone hplain (fun d hd hk _ => ?_) fun name hdoubt => ?_,
    TrueTo.of_lone hlone (fun d hd hk hsure => ?_) fun name hdoubt => ?_,
    KeyedRoot.of_lone hplain, KeyedRoot.of_lone hlone⟩
  · cases hk.symm.trans (isKey_addRoot_empty hd)
  · have hkeyed := hplain.keyed
    rw [RowFound, hkeyed]
    exact ⟨hkey, h.row_ne_none hdoubt⟩
  · obtain ⟨column, hmem, hname, hdeclared⟩ := hdescribes.holds hd hk
    obtain ⟨hcolumn, hne⟩ := List.mem_filter.1 hmem
    have hne := bne_iff_ne.1 hne
    have hholds : DefaultHolds (db store) schema key options column := by
      by_contra hfalse
      exact hsure ⟨column, hcolumn, hname, hname ▸ hne, hfalse⟩
    rwa [htable, hkeyName, ← hname, ← hdeclared]
  · rw [RowFound, hlone.keyed, htable, hkeyName]
    exact ⟨hkey, h.row_ne_none hdoubt⟩

end DefaultsHarmless

/-- A column that has a default is registered, and holds it. -/
theorem exists_cell_of_default (hnodup : schema.columnNames.Nodup) {column : ColumnShape}
    (hcolumn : column ∈ schema.columns) (hname : column.name ≠ keyName schema options) :
    ∃ d, (ofSchema schema (some key) options).2.findCell? (counterpart schema key options).1.root
        column.name = some d ∧
      ((ofSchema schema (some key) options).2.cell d).value = column.declared := by
  obtain ⟨-, hlone, hkeyName, -, -, hdescribes⟩ := ofSchema_spec schema key options
  have hwf := hlone.toWellFormed
  obtain ⟨d, hd⟩ := hdescribes.registered (List.mem_filter.2 ⟨hcolumn, bne_iff_ne.2 hname⟩)
  obtain ⟨hmem, hdname⟩ := (findCell?_eq_some_iff hwf).1 hd
  have hcell := hwf.hasCell hmem
  have hk : ((ofSchema schema (some key) options).2.cell d).isKey = false := by
    rw [Bool.eq_false_iff, ne_eq, isKey_iff_keyName hwf hcell, hlone.owner hcell, hkeyName, hdname]
    exact fun heq => hname heq.symm
  obtain ⟨column', hmem', hname', hdeclared⟩ := hdescribes.holds hcell hk
  obtain rfl : column' = column :=
    List.inj_on_of_nodup_map hnodup (List.mem_filter.1 hmem').1 hcolumn (hname'.trans hdname)
  have hclean := hlone.clean hk
  rw [Cell.isDirty, Option.isSome_eq_false_iff, Option.isNone_iff_eq_none] at hclean
  exact ⟨d, hd, by rw [Cell.value, hclean, hdeclared]; rfl⟩

/-- If all reads result in the same, the default of a column that a path can go through is null or
is what the row holds. -/
theorem default_of_sameAnswers (hc : Stores c db) (hkey : key ≠ .null)
    (hwrites : c.dialect.Writes key) (hnodup : schema.columnNames.Nodup)
    (hnames : ∀ column ∈ schema.columns,
      (counterpart schema key options).1.LeadsThrough column.name)
    (hsame : ∀ paths : List String, (counterpart schema key options).1.SameAnswers c
      (paths.map .get) ⟨store, [], (counterpart schema key options).2⟩
        ⟨store, [], (ofSchema schema (some key) options).2⟩) :
    DefaultsHold (db store) schema key options := by
  intro column hcolumn hname
  by_cases hnull : column.declared = .null
  · exact Or.inl hnull
  obtain ⟨path, table, joinedKey, hp⟩ := hnames column hcolumn
  obtain ⟨d, hd, hvalue⟩ := exists_cell_of_default hnodup hcolumn hname
  obtain ⟨-, hlone, -⟩ := ofSchema_spec schema key options
  obtain ⟨hanswer, -⟩ := hsame [path]
  obtain ⟨-, hplain⟩ := (shows_counterpart db schema options store hkey hwrites).get
    (hc.serves store) path
  have hdescribed := Record.get_of_default
    (w := ⟨store, [], (ofSchema schema (some key) options).2⟩) (c := c) hlone rfl hd
      (hvalue ▸ hnull) hp _ (hanswer.trans (hplain _ hp (Or.inl rfl)))
  have hjoined := (db store).value_keyName ⟨table, joinedKey,
    (db store).value ⟨schema.table, keyName schema options, key⟩ column.name⟩
  exact Or.inr ((hvalue.symm.trans hdescribed.symm).trans hjoined)

end DescribedRecord

/-- A row that links to the first of two rows of another table. -/
def linkingRows : StoredRows :=
  [⟨"table0", fun
      | "name" => .text "first"
      | "table1_id" => .text "1"
      | _ => .null⟩,
    ⟨"table1", fun | "title" => .text "Seven" | _ => .null⟩,
    ⟨"table1", fun | "title" => .text "Nine" | _ => .null⟩]

/-- A table of which one default is what the row holds, and one is not. -/
def linkingTable : Schema :=
  ⟨"table0", [⟨"id", .null, true⟩, ⟨"name", .text "draft", false⟩,
    ⟨"table1_id", .text "1", false⟩, ⟨"table2_id", .null, false⟩]⟩

/-- The link is read through, assigned and read through again, and a row is added behind another
link, which is read through after the save. -/
def relinkAndSave : List Request :=
  [.get "name", .get "table1.title", .set "table1_id" (.text "2"), .get "table1.title",
    .set "name" (.text "other"), .set "table2.title" (.text "Two"), .save, .get "table2.title"]

/-- A row that links to the 9, and two rows that it could link to. -/
def linkedRows : RowsByText
  | "table0", "id", "1" => some fun _ => .int 9
  | "table1", "id", "7" => some fun _ => .text "Seven"
  | "table1", "id", "9" => some fun _ => .text "Nine"
  | _, _, _ => none

/-- A row that is joined to itself, and links to the second of two rows of another table. -/
def selfLinkedRows : StoredRows :=
  [⟨"table0", fun
      | "self_id" => .text "0"
      | "table1_id" => .text "2"
      | _ => .null⟩,
    ⟨"table1", fun | "title" => .text "Seven" | _ => .null⟩,
    ⟨"table1", fun | "title" => .text "Nine" | _ => .null⟩]

/-- The link of the row is assigned through the record that is joined to it by `self_id`. -/
def relinkThroughJoin : List Request :=
  [.set "table0[self_id].table1_id" (.text "1"), .save]

/-- What is written through one record is not seen by another one that stands for the same row, if
that one has read it before.  A default counts as read, so the two records of the row differ from
then on: a run fits the rows only if what is written stands for rows of its own. -/
theorem get_after_relinking_through_join :
    let schema : Schema :=
      ⟨"table0", [⟨"id", .null, true⟩, ⟨"self_id", .null, false⟩, ⟨"table1_id", .text "2", false⟩]⟩
    let c := Connector.stored .sqlite fun _ => "id"
    let plain := DescribedRecord.counterpart schema (.text "0") .standard
    let described := DescribedRecord.ofSchema schema (some (.text "0")) .standard
    let r := plain.1
    let w : World StoredRows Forest := ⟨selfLinkedRows, [], plain.2⟩
    let w' : World StoredRows Forest := ⟨selfLinkedRows, [], described.2⟩
    DescribedRecord.DefaultsHold (StoredRows.database selfLinkedRows) schema (.text "0")
        .standard ∧
      ¬r.AllFit c StoredRows.database (fun _ => "id") StoredRows.tables relinkThroughJoin w ∧
      ((r.get c "table1.title").perform (r.after c relinkThroughJoin w)).1 = .ok (.text "Seven") ∧
      ((r.get c "table1.title").perform (r.after c relinkThroughJoin w')).1 =
        .ok (.text "Nine") := by
  decide +kernel

/-- A row without links, and a row of another table. -/
def unlinkedRows : StoredRows :=
  [⟨"table0", fun | "name" => .text "first" | _ => .null⟩,
    ⟨"table2", fun | "title" => .text "Eight" | _ => .null⟩]

/-- The row is read, and then a record that has no row is linked to the row of the other table. -/
def linkFromNew : List Request :=
  [.get "name", .set "table1.table2_id" (.text "1")]

/-- A record that has to read its links before it reads what is below them stops at a record without
a row, and one that knows its links goes on.  So a read of a row that hangs from a record without
one does not fit the rows, even if nothing has a default. -/
theorem get_behind_record_without_row :
    let schema : Schema :=
      ⟨"table0", [⟨"id", .null, true⟩, ⟨"name", .null, false⟩, ⟨"table1_id", .null, false⟩]⟩
    let c := Connector.stored .sqlite fun _ => "id"
    let plain := DescribedRecord.counterpart schema (.text "0") .standard
    let described := DescribedRecord.ofSchema schema (some (.text "0")) .standard
    let r := plain.1
    let w : World StoredRows Forest := ⟨unlinkedRows, [], plain.2⟩
    let w' : World StoredRows Forest := ⟨unlinkedRows, [], described.2⟩
    r.AllFit c StoredRows.database (fun _ => "id") StoredRows.tables linkFromNew w ∧
      ¬r.Fits c StoredRows.database (fun _ => "id") StoredRows.tables (r.after c linkFromNew w)
        (.get "table1.table2.title") ∧
      ((r.get c "table1.table2.title").perform (r.after c linkFromNew w)).1 = .ok .null ∧
      ((r.get c "table1.table2.title").perform (r.after c linkFromNew w')).1 =
        .ok (.text "Eight") := by
  decide +kernel

end LinkedRows
