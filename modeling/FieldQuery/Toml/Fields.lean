import FieldQuery.Toml.Error
import FieldQuery.Toml.Value

/-!
# Taking a table apart

The entries of a table are taken by their keys. A record with known keys may also be given as the
array of its values, in the order of the keys; what comes after the last of them is not looked at. A
date or a time is a record without any of its keys.
-/

namespace FieldQuery.Toml

abbrev Entries := List (String × Toml)

def entries : Toml → Entries
  | .table es => es
  | _ => []

namespace Entries

/-- The entries, if no number in them is out of range. -/
def inRange (es : Entries) : Except TomlError Entries :=
  match es.find? fun e => !e.2.isInRange with
  | some e => .error (.outOfRange e.1)
  | none => .ok es

def optional {α : Type} (es : Entries) (key shape : String) (decode : Toml → Option α) :
    Except TomlError (Option α) :=
  match es.lookup key with
  | none => .ok none
  | some t =>
    match decode t with
    | some a => .ok (some a)
    | none => .error (.wrongType key shape)

def withDefault {α : Type} (es : Entries) (key shape : String) (decode : Toml → Option α)
    (default : α) : Except TomlError α := do
  return (← es.optional key shape decode).getD default

def required {α : Type} (es : Entries) (key shape : String) (decode : Toml → Option α) :
    Except TomlError α := do
  match ← es.optional key shape decode with
  | some a => return a
  | none => .error (.missingKey key)

def string? (es : Entries) (key : String) : Except TomlError (Option String) :=
  es.optional key "a string" Toml.string?

def boolean (es : Entries) (key : String) (default : Bool) : Except TomlError Bool :=
  es.withDefault key "true or false" Toml.boolean? default

def natural (es : Entries) (key : String) (default : Nat) : Except TomlError Nat :=
  es.withDefault key "a number of 64 bits" Toml.natural? default

def strings? (es : Entries) (key : String) : Except TomlError (Option (List String)) :=
  es.optional key "a list of strings" Toml.strings?

def only (es : Entries) (keys : List String) : Except TomlError Unit :=
  match es.find? fun e => e.1 ∉ keys with
  | some e => .error (.unknownKey e.1)
  | none => .ok ()

end Entries

/-- The entries of a record with these keys. -/
def record (key : String) (keys : List String) : Toml → Except TomlError Entries
  | .table es => Entries.inRange es
  | .array ts => Entries.inRange (keys.zip ts)
  | .moment _ => .ok []
  | _ => .error (.wrongType key "a table")

end FieldQuery.Toml
