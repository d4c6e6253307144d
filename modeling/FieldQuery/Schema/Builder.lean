import FieldQuery.Schema.Registry

/-!
# Building a registry

Declarations are collected first and indexed at the end. A declaration replaces an earlier one of
the same name where that stood. Related fields get their dotted paths before they are indexed.
-/

namespace FieldQuery

/-- The declarations with `f` added: in the place of the one of its name, or at the end. -/
def declare (f : Field) : List Field → List Field
  | [] => [f]
  | g :: gs => if g.name = f.name then f :: gs else g :: declare f gs

structure Builder where
  name : String := ""
  fields : List Field := []
deriving DecidableEq, Repr

namespace Builder

def field (b : Builder) (f : Field) : Builder :=
  { b with fields := declare f b.fields }

def addFields (b : Builder) (fs : List Field) : Builder :=
  fs.foldl field b

def build (b : Builder) : Except SchemaError Registry :=
  let fields := b.fields.map Field.renamed
  match h : Index.fill fields with
  | .ok index => .ok { name := b.name, fields, index, index_eq := (Index.fill_ok_iff.1 h).2 }
  | .error e => .error e

end Builder

/-- A new schema that starts with the fields of this one. -/
def Registry.extend (r : Registry) (name : String) : Builder where
  name := name
  fields := r.fields

end FieldQuery
