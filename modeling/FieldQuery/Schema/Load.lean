import FieldQuery.Files.Tree
import FieldQuery.Schema.Document

/-!
# Loading a schema

Loading follows the chain of documents that extend each other to its end, and then applies the
documents from the base on: fields are declared over those of the base, and known values replace
those of the same name. A chain that comes back to a document is a cycle, however the path to it
is spelled. The chain ends because no location occurs on it twice and only files are on it.
-/

namespace FieldQuery

/-- A document and the path by which it was reached. -/
structure SchemaSource where
  path : String
  document : SchemaDocument
deriving DecidableEq, Repr

/-- The name of the schema: the document's own, or the name of its file. -/
def SchemaSource.name (s : SchemaSource) : String :=
  s.document.name.getD (Path.stem s.path)

/-- The document at a location that the path leads to. -/
def Files.schemaDocument (fs : Files) (path : String) (l : Location) :
    Except SchemaError SchemaDocument := do
  let text ← (fs.textAt l).mapError (.unreadable path)
  (SchemaDocument.read text).mapError fun e => .malformed path e.message

def Files.unvisited (fs : Files) (visited : List Location) : List (Location × Entry) :=
  fs.entries.filter fun e => e.1 ∉ visited

/-- A text is read only from a location that has an entry. -/
theorem Files.entry_of_textAt {fs : Files} {l : Location} {text : String}
    (h : fs.textAt l = .ok text) : ∃ e ∈ fs.entries, e.1 = l := by
  unfold textAt entry? at h
  split at h
  · simp at h
  · simp at h
  · rename_i bytes he
    split at he
    · simp at he
    · rw [List.lookup_eq_some_iff] at he
      obtain ⟨before, after, hs, -⟩ := he
      exact ⟨(l, .file bytes), by simp [hs], rfl⟩

theorem Files.file_of_schemaDocument {fs : Files} {path : String} {l : Location}
    {d : SchemaDocument} (h : fs.schemaDocument path l = .ok d) : ∃ e ∈ fs.entries, e.1 = l := by
  cases ht : fs.textAt l with
  | ok text => exact entry_of_textAt ht
  | error e =>
    rw [schemaDocument, ht] at h
    cases h

/-- Visiting a file leaves fewer unvisited. -/
theorem Files.unvisited_cons_lt {fs : Files} {visited : List Location} {l : Location}
    (h : ∃ e ∈ fs.entries, e.1 = l) (hl : l ∉ visited) :
    (fs.unvisited (l :: visited)).length < (fs.unvisited visited).length := by
  obtain ⟨e, he, rfl⟩ := h
  have hfilter : fs.unvisited (e.1 :: visited) =
      (fs.unvisited visited).filter fun p => p.1 ≠ e.1 := by
    simp only [unvisited, List.filter_filter]
    congr 1
    funext p
    simp
  rw [hfilter, List.length_filter_lt_length_iff_exists]
  exact ⟨e, by simp [unvisited, he, hl], by simp⟩

/-- The documents from the last base up to the one that the path leads to, where `visited` are the
locations of those that extend it. -/
def Files.chain (fs : Files) (visited : List Location) (path : String) :
    Except SchemaError (List SchemaSource) :=
  match fs.locate path with
  | .error e => .error (.unreadable path e)
  | .ok l =>
    if _ : l ∈ visited then .error (.inheritanceCycle path)
    else
      match _ : fs.schemaDocument path l with
      | .error e => .error e
      | .ok document =>
        match document.base with
        | none => .ok [{ path, document }]
        | some base => do
          let sources ← chain fs (l :: visited) (Path.join (Path.parent path) base)
          return sources ++ [{ path, document }]
termination_by (fs.unvisited visited).length
decreasing_by
  exact Files.unvisited_cons_lt (Files.file_of_schemaDocument ‹_›) ‹_›

/-- What the documents of a chain add up to. -/
structure SchemaDraft where
  builder : Builder := {}
  known : KnownValues := []
deriving DecidableEq, Repr

namespace SchemaDraft

/-- An entry declares its field. An empty list of values takes the known values of the field away,
and no list leaves them as they are. -/
def addEntry (d : SchemaDraft) (e : FieldEntry) : Except SchemaError SchemaDraft := do
  let f ← e.field
  let known := match e.values with
    | none => d.known
    | some [] => d.known.erase f.name
    | some values => d.known.insert f.name (textSet values)
  return { builder := d.builder.field f, known }

def addSource (d : SchemaDraft) (s : SchemaSource) : Except SchemaError SchemaDraft :=
  s.document.fields.foldlM addEntry { d with builder := { d.builder with name := s.name } }

end SchemaDraft

structure LoadedSchema where
  registry : Registry := {}
  known : KnownValues := []
deriving DecidableEq, Repr

def Files.loadSchema (fs : Files) (path : String) : Except SchemaError LoadedSchema := do
  let sources ← fs.chain [] path
  let draft ← sources.foldlM SchemaDraft.addSource {}
  return { registry := ← draft.builder.build, known := draft.known }

end FieldQuery
