import FieldQuery.Proofs.Indexing
import FieldQuery.Proofs.Tables
import FieldQuery.Schema.Load
import Mathlib.Data.List.Forall2

/-!
# Schemas out of documents

Loading goes through the entries of all documents on a chain, base first, as through those of one
document (`Files.loadSchema_of_chain`). The fields and the table of known values are put together
side by side by different rules: an entry always replaces the field of its name, while it replaces
the values only if it has some and takes them away if it has an empty list. Both are told by the
entries: the last one of a name gives the field, and the last one with values gives the values.
-/

namespace FieldQuery

/-! ## Documents that extend each other -/

namespace Files

variable {fs : Files}

/-- The documents from the last base up to the one that the path leads to, and the locations of
them from this one down. No location comes twice. -/
inductive Lineage (fs : Files) : String → List Location → List SchemaSource → Prop
  | base {path : String} {l : Location} {d : SchemaDocument} (hl : fs.locate path = .ok l)
    (hd : fs.schemaDocument path l = .ok d) (hbase : d.base = none) :
    Lineage fs path [l] [{ path, document := d }]
  | extend {path base : String} {l : Location} {ls : List Location} {d : SchemaDocument}
    {sources : List SchemaSource} (hl : fs.locate path = .ok l)
    (hd : fs.schemaDocument path l = .ok d) (hbase : d.base = some base)
    (h : Lineage fs (Path.join (Path.parent path) base) ls sources) (hnew : l ∉ ls) :
    Lineage fs path (l :: ls) (sources ++ [{ path, document := d }])

/-- One document of a chain that has not come back to it. -/
theorem chain_of_new {visited : List Location} {path : String} {l : Location} {d : SchemaDocument}
    (hl : fs.locate path = .ok l) (hnew : l ∉ visited) (hd : fs.schemaDocument path l = .ok d) :
    fs.chain visited path = match d.base with
      | none => .ok [{ path, document := d }]
      | some base => (fs.chain (l :: visited) (Path.join (Path.parent path) base)).map
          (· ++ [{ path, document := d }]) := by
  rw [chain, hl]
  simp only [hnew, ↓reduceDIte]
  split
  · rename_i e he
    simp [hd] at he
  · rename_i d' hd'
    obtain rfl : d = d' := Except.ok.inj (hd.symm.trans hd')
    rcases d.base with _ | base
    · rfl
    · rcases fs.chain (l :: visited) (Path.join (Path.parent path) base) with e | sources <;> rfl

theorem Lineage.chain_eq {path : String} {ls : List Location} {sources : List SchemaSource}
    (h : fs.Lineage path ls sources) : ∀ {visited : List Location}, (∀ l ∈ ls, l ∉ visited) →
      fs.chain visited path = .ok sources := by
  induction h with
  | @base path l d hl hd hbase =>
    intro visited hvisited
    rw [chain_of_new hl (hvisited l List.mem_cons_self) hd, hbase]
  | @extend path base l ls d sources hl hd hbase h hnew ih =>
    intro visited hvisited
    obtain ⟨hl', hls⟩ := List.forall_mem_cons.1 hvisited
    have hrest : fs.chain (l :: visited) (Path.join (Path.parent path) base) = .ok sources := by
      refine ih fun m hm hmem => ?_
      rcases List.mem_cons.1 hmem with rfl | hmem
      · exact hnew hm
      · exact hls m hm hmem
    rw [chain_of_new hl hl' hd, hbase]
    simp only [hrest, Except.map]

/-- Chains are followed to the end exactly along the lineages that do not come back. -/
theorem chain_ok_iff {visited : List Location} {path : String} {sources : List SchemaSource} :
    fs.chain visited path = .ok sources
      ↔ ∃ ls, fs.Lineage path ls sources ∧ ∀ l ∈ ls, l ∉ visited := by
  refine ⟨fun h => ?_, fun ⟨ls, h, hls⟩ => h.chain_eq hls⟩
  fun_induction chain fs visited path generalizing sources with
  | case1 visited path e hl => simp at h
  | case2 visited path l hl hmem => simp at h
  | case3 visited path l hl hnew e hd => simp at h
  | case4 visited path l hl hnew d hd hbase =>
    obtain rfl := Except.ok.inj h
    exact ⟨[l], .base hl hd hbase, List.forall_mem_singleton.2 hnew⟩
  | case5 visited path l hl hnew d hd base hbase ih =>
    rcases hrest : fs.chain (l :: visited) (Path.join (Path.parent path) base) with e | sources'
    · simp [hrest, bind, Except.bind] at h
    · obtain rfl : sources' ++ [{ path, document := d }] = sources := by
        simpa [hrest, bind, Except.bind, pure, Except.pure] using h
      obtain ⟨ls, hlineage, hls⟩ := ih hrest
      refine ⟨l :: ls, .extend hl hd hbase hlineage fun hmem => ?_, ?_⟩
      · exact hls l hmem List.mem_cons_self
      · exact List.forall_mem_cons.2 ⟨hnew, fun m hm hmem => hls m hm (List.mem_cons_of_mem l hmem)⟩

theorem Lineage.chain_nil {path : String} {ls : List Location} {sources : List SchemaSource}
    (h : fs.Lineage path ls sources) : fs.chain [] path = .ok sources :=
  chain_ok_iff.2 ⟨ls, h, fun _ _ => List.not_mem_nil⟩

theorem Lineage.getLast? {path : String} {ls : List Location} {sources : List SchemaSource}
    (h : fs.Lineage path ls sources) : ∃ d, sources.getLast? = some { path, document := d } := by
  cases h with
  | @base path l d hl hd hbase => exact ⟨d, rfl⟩
  | @extend path base l ls d sources hl hd hbase h hnew => exact ⟨d, List.getLast?_concat⟩

end Files

/-! ## Entries -/

theorem mapM_cons_ok_iff {α β ε : Type} {g : α → Except ε β} {x : α} {xs : List α} {zs : List β} :
    (x :: xs).mapM g = .ok zs ↔ ∃ y ys, g x = .ok y ∧ xs.mapM g = .ok ys ∧ zs = y :: ys := by
  rw [List.mapM_cons]
  rcases g x with e | y
  · simp [bind, Except.bind]
  · rcases xs.mapM g with e | ys <;> simp [bind, Except.bind, pure, Except.pure, eq_comm]

theorem mapM_ok_iff {α β ε : Type} {g : α → Except ε β} : ∀ {xs : List α} {ys : List β},
    xs.mapM g = .ok ys ↔ List.Forall₂ (fun x y => g x = .ok y) xs ys
  | [], ys => by simp [pure, Except.pure, eq_comm]
  | x :: xs, ys => by
    rw [mapM_cons_ok_iff, List.forall₂_cons_left_iff]
    simp only [mapM_ok_iff]

namespace FieldEntry

/-- The name of the field that the entry declares: the dotted path of a related field. -/
def externalName (e : FieldEntry) : String :=
  match e.relation with
  | some relation => relation ++ "." ++ e.name
  | none => e.name

/-- The type of the entry is known, and so is the comparator if it has one. -/
structure Converts (e : FieldEntry) : Prop where
  type : (FieldType.ofName? e.typeName).isSome
  defaultOperator : ∀ symbol ∈ e.defaultOperator, (Comparator.ofSymbol? symbol).isSome

def fieldOf (e : FieldEntry) (type : FieldType) : Field where
  name := e.externalName
  type := type
  aliases := e.aliases
  explicitOnly := e.explicitOnly
  completionEnabled := e.completionEnabled
  valueCompletion := e.valueCompletion
  defaultOperator := e.defaultOperator.bind Comparator.ofSymbol?
  relation := e.relation.map fun relation => { name := relation, remoteField := e.name }

theorem field_ok_iff {e : FieldEntry} {f : Field} : e.field = .ok f ↔
    e.Converts ∧ ∃ type, FieldType.ofName? e.typeName = some type ∧ f = e.fieldOf type := by
  have hconverts : e.Converts ↔ (FieldType.ofName? e.typeName).isSome
      ∧ ∀ symbol ∈ e.defaultOperator, (Comparator.ofSymbol? symbol).isSome :=
    ⟨fun ⟨h, h'⟩ => ⟨h, h'⟩, fun ⟨h, h'⟩ => ⟨h, h'⟩⟩
  rw [hconverts, field]
  rcases FieldType.ofName? e.typeName with _ | type
  · simp
  · rcases hs : e.defaultOperator with _ | symbol
    · rcases hr : e.relation with _ | relation <;>
        simp [fieldOf, externalName, hs, hr, Field.related, Relation.path, bind, Except.bind, pure,
          Except.pure] <;> exact eq_comm
    · rcases hc : Comparator.ofSymbol? symbol with _ | c
      · simp [hc, bind, Except.bind]
      · rcases hr : e.relation with _ | relation <;>
          simp [hs, hc, fieldOf, externalName, hr, Field.related, Relation.path, bind, Except.bind,
            pure, Except.pure] <;> exact eq_comm

theorem exists_field_iff {e : FieldEntry} : (∃ f, e.field = .ok f) ↔ e.Converts := by
  simp only [field_ok_iff]
  constructor
  · rintro ⟨f, h, -⟩
    exact h
  · intro h
    obtain ⟨type, htype⟩ := Option.isSome_iff_exists.1 h.type
    exact ⟨_, h, type, htype, rfl⟩

/-- A related entry declares its field under the dotted path at once, so building does not rename
it. -/
theorem of_field {e : FieldEntry} {f : Field} (h : e.field = .ok f) :
    f.name = e.externalName ∧ f.renamed = f := by
  obtain ⟨-, type, -, rfl⟩ := field_ok_iff.1 h
  refine ⟨rfl, ?_⟩
  rcases hr : e.relation with _ | relation <;>
    simp [fieldOf, Field.renamed, Field.finalName, Relation.path, externalName, hr]

end FieldEntry

/-! ## Known values -/

/-- The table after an entry that says what the values of its field are, or nothing about them. -/
def KnownValues.declare (t : KnownValues) (e : FieldEntry) : KnownValues :=
  match e.values with
  | none => t
  | some [] => t.erase e.externalName
  | some values => t.insert e.externalName (textSet values)

/-- The values that the entries make known for a name: those of the last entry for it that says
what they are, unless it says that there are none. -/
def knownOf (es : List FieldEntry) (name : String) : Option (List String) :=
  let declared := (es.filter fun e => e.externalName = name).filterMap FieldEntry.values
  (declared.getLast?.filter (· ≠ [])).map textSet

theorem knownOf_concat (es : List FieldEntry) (e : FieldEntry) (name : String) :
    knownOf (es ++ [e]) name = if e.externalName = name ∧ e.values.isSome
      then (e.values.filter (· ≠ [])).map textSet else knownOf es name := by
  rw [knownOf, List.filter_append, List.filterMap_append]
  by_cases hname : e.externalName = name
  · rcases hvalues : e.values with _ | values
    · simp [hname, hvalues, knownOf]
    · simp [hname, hvalues]
  · simp [hname, knownOf]

theorem lookup_foldl_declare (es : List FieldEntry) (name : String) :
    (es.foldl KnownValues.declare []).lookup name = knownOf es name := by
  induction es using List.reverseRecOn with
  | nil => rfl
  | append_singleton es e ih =>
    rw [List.foldl_append, List.foldl_cons, List.foldl_nil, knownOf_concat, KnownValues.declare]
    split
    · rename_i hvalues
      simp [hvalues, ih]
    · rename_i hvalues
      simp [hvalues, KnownValues.lookup_erase, ih, eq_comm, Option.filter]
    · rename_i values hne hvalues
      obtain ⟨v, vs, rfl⟩ := List.exists_cons_of_ne_nil hne
      simp [hvalues, KnownValues.lookup_insert, ih, eq_comm, Option.filter]

theorem nodup_foldl_declare (es : List FieldEntry) :
    ((es.foldl KnownValues.declare []).map Prod.fst).Nodup := by
  induction es using List.reverseRecOn with
  | nil => exact List.nodup_nil
  | append_singleton es e ih =>
    rw [List.foldl_append, List.foldl_cons, List.foldl_nil, KnownValues.declare]
    split
    · exact ih
    · exact KnownValues.nodup_erase ih _
    · exact KnownValues.nodup_insert ih _ _

theorem of_knownOf {es : List FieldEntry} {name : String} {values : List String}
    (h : knownOf es name = some values) : (∃ e ∈ es, e.externalName = name) ∧ values ≠ [] := by
  obtain ⟨vs, hvs, rfl⟩ := Option.map_eq_some_iff.1 h
  obtain ⟨hlast, hne⟩ := Option.filter_eq_some_iff.1 hvs
  obtain ⟨e, he, -⟩ := List.mem_filterMap.1 (List.mem_of_getLast? hlast)
  exact ⟨⟨e, by simpa using he⟩, textSet_ne_nil (by simpa using hne)⟩

/-! ## Loading -/

/-- The entries of all documents, those of the first document first. -/
def entriesOf (sources : List SchemaSource) : List FieldEntry :=
  sources.flatMap fun s => s.document.fields

namespace SchemaDraft

theorem addEntry_eq (d : SchemaDraft) (e : FieldEntry) : d.addEntry e = e.field.map fun f =>
    { builder := d.builder.field f, known := d.known.declare e } := by
  rw [addEntry]
  rcases he : e.field with err | f
  · rfl
  · have hname := (FieldEntry.of_field he).1
    rw [KnownValues.declare, ← hname]
    rfl

/-- Entries are applied to a draft by declaring all of their fields and all of their values. -/
theorem foldlM_addEntry : ∀ (es : List FieldEntry) (d : SchemaDraft), es.foldlM addEntry d
    = (es.mapM FieldEntry.field).map fun fields =>
      { builder := d.builder.addFields fields, known := es.foldl KnownValues.declare d.known }
  | [], d => rfl
  | e :: es, d => by
    rw [List.foldlM_cons, List.mapM_cons, addEntry_eq]
    rcases e.field with err | f
    · rfl
    · refine (foldlM_addEntry es _).trans ?_
      rcases es.mapM FieldEntry.field with err | fields <;> rfl

/-- Documents are applied by applying their entries, and the last one gives the name. -/
theorem foldlM_addSource : ∀ (sources : List SchemaSource) (d : SchemaDraft),
    sources.foldlM addSource d = ((entriesOf sources).mapM FieldEntry.field).map fun fields =>
      { builder := { d.builder.addFields fields with
          name := (sources.getLast?.map SchemaSource.name).getD d.builder.name }
        known := (entriesOf sources).foldl KnownValues.declare d.known }
  | [], d => rfl
  | s :: sources, d => by
    have hentries : entriesOf (s :: sources) = s.document.fields ++ entriesOf sources :=
      List.flatMap_cons
    rw [List.foldlM_cons, addSource, foldlM_addEntry, hentries, List.mapM_append]
    rcases s.document.fields.mapM FieldEntry.field with err | fields
    · rfl
    · refine (foldlM_addSource sources _).trans ?_
      rcases (entriesOf sources).mapM FieldEntry.field with err | more
      · rfl
      · simp only [Except.map, bind, Except.bind, pure, Except.pure, Builder.addFields_rename,
          Builder.addFields_append, List.getLast?_cons, List.foldl_append, Option.map_some,
          Option.getD_some]
        cases sources.getLast? <;> rfl

end SchemaDraft

namespace Files

variable {fs : Files} {path : String} {ls : List Location} {sources : List SchemaSource}

/-- The whole chain is loaded as one document with the entries of all of them would be. -/
theorem loadSchema_of_chain (h : fs.chain [] path = .ok sources) : fs.loadSchema path = do
    let fields ← (entriesOf sources).mapM FieldEntry.field
    let registry ← (Builder.addFields
      { name := (sources.getLast?.map SchemaSource.name).getD "" } fields).build
    return { registry, known := (entriesOf sources).foldl KnownValues.declare [] } := by
  rw [loadSchema, h]
  change (sources.foldlM SchemaDraft.addSource {} >>= _) = _
  rw [SchemaDraft.foldlM_addSource]
  rcases (entriesOf sources).mapM FieldEntry.field with err | fields
  · rfl
  · let name := (sources.getLast?.map SchemaSource.name).getD ""
    have hrename := Builder.addFields_rename name fields {}
    simp only [Except.map, bind, Except.bind]
    rw [← hrename]

end Files

/-- The entries of the documents one after another make up the schema: the last entry of a name
gives the field of this name, where the name first occurs, and the last one that has values for it
gives its known values. -/
structure LoadedSchema.Flattens (s : LoadedSchema) (path : String) (sources : List SchemaSource) :
    Prop where
  name : ∃ d, sources.getLast? = some { path, document := d }
    ∧ s.registry.name = d.name.getD (Path.stem path)
  names : s.registry.fields.map Field.name
    = ((entriesOf sources).map FieldEntry.externalName).eraseDups
  last : ∀ f ∈ s.registry.fields, ∃ e, e.field = .ok f
    ∧ (entriesOf sources).reverse.find? (fun e => e.externalName = f.name) = some e
  known : ∀ name, s.known.lookup name = knownOf (entriesOf sources) name
  distinct : (s.known.map Prod.fst).Nodup
  keys : ∀ p ∈ s.known, p.1 ∈ s.registry.fields.map Field.name ∧ p.2 ≠ []

/-- Two lists that agree on what is looked for are searched side by side. -/
theorem find?_of_forall₂ {α β : Type} {R : α → β → Prop} {p : α → Bool} {q : β → Bool}
    (hpq : ∀ x y, R x y → p x = q y) {xs : List α} {ys : List β} (h : List.Forall₂ R xs ys) {y : β}
    (hy : ys.find? q = some y) : ∃ x, R x y ∧ xs.find? p = some x := by
  induction h with
  | nil => simp at hy
  | @cons x z xs ys hxz h ih =>
    rw [List.find?_cons] at hy
    rw [List.find?_cons, hpq x z hxz]
    rcases hz : q z
    · exact ih (by simpa [hz] using hy)
    · obtain rfl : z = y := by simpa [hz] using hy
      exact ⟨x, hxz, rfl⟩

section Entries

variable {es : List FieldEntry} {fields : List Field}

theorem names_of_mapM (h : es.mapM FieldEntry.field = .ok fields) :
    fields.map Field.name = es.map FieldEntry.externalName := by
  have hforall := mapM_ok_iff.1 h
  clear h
  induction hforall with
  | nil => rfl
  | cons he _ ih => rw [List.map_cons, List.map_cons, ih, (FieldEntry.of_field he).1]

theorem exists_mapM_iff : ∀ {es : List FieldEntry},
    (∃ fields, es.mapM FieldEntry.field = .ok fields) ↔ ∀ e ∈ es, e.Converts
  | [] => by simp [pure, Except.pure]
  | e :: es => by
    rw [List.forall_mem_cons, ← FieldEntry.exists_field_iff, ← exists_mapM_iff]
    simp only [mapM_cons_ok_iff]
    constructor
    · rintro ⟨_, f, fields, he, hes, -⟩
      exact ⟨⟨f, he⟩, ⟨fields, hes⟩⟩
    · rintro ⟨⟨f, he⟩, ⟨fields, hes⟩⟩
      exact ⟨_, f, fields, he, hes, rfl⟩

/-- Entries are converted up to the first one that does not convert. -/
theorem mapM_error {before after : List FieldEntry} {e : FieldEntry} {err : SchemaError}
    (hbefore : ∀ e' ∈ before, e'.Converts) (he : e.field = .error err) :
    (before ++ e :: after).mapM FieldEntry.field = .error err := by
  obtain ⟨fields, hfields⟩ := exists_mapM_iff.2 hbefore
  rw [List.mapM_append, hfields, List.mapM_cons, he]
  rfl

/-- A declared field comes from the last entry of its name. -/
theorem entry_of_declared (h : es.mapM FieldEntry.field = .ok fields) {f : Field}
    (hf : f ∈ declared fields) : ∃ e, e.field = .ok f
      ∧ es.reverse.find? (fun e => e.externalName = f.name) = some e := by
  refine find?_of_forall₂ (fun e g heg => ?_) (List.forall₂_reverse_iff.2 (mapM_ok_iff.1 h))
    ((declares_declared fields).last f hf)
  rw [(FieldEntry.of_field heg).1]

/-- Building does not rename the fields of entries. -/
theorem map_renamed_declared (h : es.mapM FieldEntry.field = .ok fields) :
    (declared fields).map Field.renamed = declared fields := by
  refine (List.map_congr_left fun f hf => ?_).trans (List.map_id _)
  obtain ⟨e, he, -⟩ := entry_of_declared h hf
  exact (FieldEntry.of_field he).2

end Entries

namespace Files

variable {fs : Files} {path : String} {ls : List Location} {sources : List SchemaSource}

theorem loadSchema_ok_iff (h : fs.chain [] path = .ok sources) {s : LoadedSchema} :
    fs.loadSchema path = .ok s ↔ ∃ fields r, (entriesOf sources).mapM FieldEntry.field = .ok fields
      ∧ (Builder.addFields
          { name := (sources.getLast?.map SchemaSource.name).getD "" } fields).build = .ok r
      ∧ s = { registry := r, known := (entriesOf sources).foldl KnownValues.declare [] } := by
  rw [loadSchema_of_chain h]
  rcases (entriesOf sources).mapM FieldEntry.field with err | fields
  · simp [bind, Except.bind]
  · rcases hbuild : (Builder.addFields
        { name := (sources.getLast?.map SchemaSource.name).getD "" } fields).build with err | r <;>
      simp [hbuild, bind, Except.bind, pure, Except.pure, eq_comm]

theorem flattens_of_loadSchema (h : fs.Lineage path ls sources) {s : LoadedSchema}
    (hs : fs.loadSchema path = .ok s) : s.Flattens path sources := by
  obtain ⟨fields, r, hfields, hbuild, rfl⟩ := (loadSchema_ok_iff h.chain_nil).1 hs
  obtain ⟨d, hd⟩ := h.getLast?
  have hr := Builder.of_build hbuild
  rw [map_renamed_declared hfields] at hr
  have hnames : r.fields.map Field.name
      = ((entriesOf sources).map FieldEntry.externalName).eraseDups := by
    rw [hr, (declares_declared fields).names, names_of_mapM hfields]
  refine ⟨⟨d, hd, ?_⟩, hnames, fun f hf => ?_, lookup_foldl_declare _, nodup_foldl_declare _,
    fun p hp => ?_⟩
  · rw [hr, hd]
    rfl
  · rw [hr] at hf
    exact entry_of_declared hfields hf
  · have hlookup := lookup_of_mem (nodup_foldl_declare _) hp
    rw [lookup_foldl_declare] at hlookup
    obtain ⟨⟨e, he, hname⟩, hvalues⟩ := of_knownOf hlookup
    rw [hnames, List.mem_eraseDups, ← hname]
    exact ⟨List.mem_map_of_mem he, hvalues⟩

/-- Loading a schema flattens its chain of documents. It does so exactly if every entry converts and
the builder takes their fields, and the first entry that does not convert gives the error. -/
theorem loadSchema_flattens (h : fs.Lineage path ls sources) :
    ((∃ s, fs.loadSchema path = .ok s) ↔ (∀ e ∈ entriesOf sources, e.Converts)
        ∧ ∃ fields r, (entriesOf sources).mapM FieldEntry.field = .ok fields
          ∧ (Builder.addFields {} fields).build = .ok r)
      ∧ (∀ s, fs.loadSchema path = .ok s → s.Flattens path sources)
      ∧ ∀ before e after err, entriesOf sources = before ++ e :: after →
        (∀ e' ∈ before, e'.Converts) → e.field = .error err →
          fs.loadSchema path = .error err := by
  refine ⟨?_, fun s hs => flattens_of_loadSchema h hs, fun before e after err hes hbefore he => ?_⟩
  · simp only [loadSchema_ok_iff h.chain_nil]
    constructor
    · rintro ⟨_, fields, r, hfields, hbuild, -⟩
      have hchecked := (Builder.exists_build_iff _ fields).1 ⟨r, hbuild⟩
      obtain ⟨r', hbuild'⟩ := (Builder.exists_build_iff "" fields).2 hchecked
      exact ⟨exists_mapM_iff.1 ⟨fields, hfields⟩, fields, r', hfields, hbuild'⟩
    · rintro ⟨-, fields, r, hfields, hbuild⟩
      have hchecked := (Builder.exists_build_iff "" fields).1 ⟨r, hbuild⟩
      obtain ⟨r', hbuild'⟩ := (Builder.exists_build_iff _ fields).2 hchecked
      exact ⟨_, fields, r', hfields, hbuild', rfl⟩
  · rw [loadSchema_of_chain h.chain_nil, hes, mapM_error hbefore he]
    rfl

def harbour : Files where
  entries := [(["base.toml"], .file "
[[fields]]
name = \"berth\"
values = [\"2\", \"1\"]

[[fields]]
name = \"length\"
relation = \"ships\"
values = [\"30\"]
".toUTF8),
    (["ports"], .directory),
    (["ports", "south.toml"], .file "
extends = \"../base.toml\"

[[fields]]
name = \"length\"
relation = \"ships\"
type = \"decimal\"
values = []

[[fields]]
name = \"berth\"
type = \"integer\"
".toUTF8)]

def harbourBase : SchemaDocument where
  fields := [{ name := "berth", values := some ["2", "1"] },
    { name := "length", relation := some "ships", values := some ["30"] }]

def harbourSouth : SchemaDocument where
  base := some "../base.toml"
  fields := [
    { name := "length", typeName := "decimal", relation := some "ships", values := some [] },
    { name := "berth", typeName := "integer" }]

def harbourSources : List SchemaSource :=
  [{ path := "ports/../base.toml", document := harbourBase },
    { path := "ports/south.toml", document := harbourSouth }]

def harbourFields : List Field :=
  [{ name := "berth", type := .string }, .related "ships" "length" .string,
    .related "ships" "length" .decimal, { name := "berth", type := .integer }]

/-- Both fields are declared again: `ships.length` loses its values and `berth` keeps them. -/
theorem loadSchema_flattens_harbour :
    harbour.Lineage "ports/south.toml" [["ports", "south.toml"], ["base.toml"]] harbourSources
      ∧ ∃ s, harbour.loadSchema "ports/south.toml" = .ok s
        ∧ s.Flattens "ports/south.toml" harbourSources
        ∧ s.registry.fields.map Field.name = ["berth", "ships.length"]
        ∧ s.known.lookup "berth" = some ["1", "2"] ∧ s.known.lookup "ships.length" = none := by
  have hsouth : harbour.locate "ports/south.toml" = .ok ["ports", "south.toml"] := by
    rw [locate, if_neg (by simp)]
    decide +kernel
  have hbase : harbour.locate "ports/../base.toml" = .ok ["base.toml"] := by
    rw [locate, if_neg (by simp)]
    decide +kernel
  have hsouth' : harbour.schemaDocument "ports/south.toml" ["ports", "south.toml"]
      = .ok harbourSouth := by decide +kernel
  have hbase' : harbour.schemaDocument "ports/../base.toml" ["base.toml"] = .ok harbourBase := by
    decide +kernel
  have hjoin : Path.join (Path.parent "ports/south.toml") "../base.toml"
      = "ports/../base.toml" := by decide +kernel
  have hrest : harbour.Lineage (Path.join (Path.parent "ports/south.toml") "../base.toml")
      [["base.toml"]] [{ path := "ports/../base.toml", document := harbourBase }] := by
    rw [hjoin]
    exact .base hbase hbase' rfl
  have h : harbour.Lineage "ports/south.toml" [["ports", "south.toml"], ["base.toml"]]
      harbourSources := .extend hsouth hsouth' rfl hrest (by decide)
  have hfields : (entriesOf harbourSources).mapM FieldEntry.field = .ok harbourFields := by
    decide +kernel
  have hbuild : (Builder.addFields {} harbourFields).build
      = .ok { fields := harbourFields.reverse.take 2 } := by decide
  obtain ⟨hload, hflattens, -⟩ := loadSchema_flattens h
  obtain ⟨s, hs⟩ := hload.2 ⟨exists_mapM_iff.1 ⟨_, hfields⟩, _, _, hfields, hbuild⟩
  refine ⟨h, s, hs, hflattens s hs, ?_, ?_, ?_⟩
  · rw [(hflattens s hs).names]
    decide
  · rw [(hflattens s hs).known]
    decide
  · rw [(hflattens s hs).known]
    decide

end Files

end FieldQuery
