import FieldQuery.Completion.Known
import FieldQuery.Schema.Builder
import FieldQuery.Toml.Document
import FieldQuery.Toml.Fields

/-!
# Schema documents

A schema document declares fields, each with the values that are known for it, and may extend
another document. It has no other keys. Types and comparators are still words here: they are looked
up when the document is applied.
-/

namespace FieldQuery

open Toml

/-- A field as a document declares it. -/
structure FieldEntry where
  name : String
  typeName : String := "string"
  aliases : List String := []
  explicitOnly : Bool := false
  completionEnabled : Bool := true
  valueCompletion : Bool := false
  defaultOperator : Option String := none
  relation : Option String := none
  /-- The known values, if the entry says what they are. -/
  values : Option (List String) := none
deriving DecidableEq, Repr

namespace FieldEntry

def keys : List String :=
  ["name", "type", "aliases", "explicit_only", "complete_enabled", "complete_value",
    "default_operator", "relation", "values"]

/-- An entry that is given as an array has all of its values. -/
def complete (t : Toml) : Except TomlError Unit :=
  match t.items? with
  | some items =>
    if items.length < keys.length then .error (.wrongType "fields" "complete") else .ok ()
  | none => .ok ()

def ofToml (t : Toml) : Except TomlError FieldEntry := do
  complete t
  let es ← record "fields" keys t
  es.only keys
  return {
    name := ← es.required "name" "a string" Toml.string?
    typeName := ← es.withDefault "type" "a string" Toml.string? "string"
    aliases := ← es.withDefault "aliases" "a list of strings" Toml.strings? []
    explicitOnly := ← es.boolean "explicit_only" false
    completionEnabled := ← es.boolean "complete_enabled" true
    valueCompletion := ← es.boolean "complete_value" false
    defaultOperator := ← es.string? "default_operator"
    relation := ← es.string? "relation"
    values := ← es.strings? "values" }

/-- The field that the entry declares, if its type and its comparator exist. -/
def field (e : FieldEntry) : Except SchemaError Field := do
  let some type := FieldType.ofName? e.typeName
    | .error (.unknownType e.name e.typeName.toLower)
  let defaultOperator ← match e.defaultOperator with
    | none => pure none
    | some symbol =>
      match Comparator.ofSymbol? symbol with
      | some c => pure (some c)
      | none => .error (.unknownOperator e.name symbol)
  let base := match e.relation with
    | some relation => Field.related relation e.name type
    | none => { name := e.name, type }
  return { base with
    aliases := e.aliases
    explicitOnly := e.explicitOnly
    completionEnabled := e.completionEnabled
    valueCompletion := e.valueCompletion
    defaultOperator }

end FieldEntry

structure SchemaDocument where
  name : Option String := none
  /-- The path of the document that this one extends, from its own directory. -/
  base : Option String := none
  fields : List FieldEntry := []
deriving DecidableEq, Repr

namespace SchemaDocument

def ofToml (t : Toml) : Except TomlError SchemaDocument := do
  let es := t.entries
  es.only ["name", "extends", "fields"]
  return {
    name := ← es.string? "name"
    base := ← es.string? "extends"
    fields := ← (← es.withDefault "fields" "a list of tables" Toml.items? []).mapM
      FieldEntry.ofToml }

def read (text : String) : Except TomlError SchemaDocument := do
  ofToml (← Toml.read text)

end SchemaDocument

end FieldQuery
