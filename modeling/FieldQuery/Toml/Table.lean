import FieldQuery.Toml.Error
import FieldQuery.Toml.Value

/-!
# Tables in the making

A document grows line by line, and how a table has come about says what may still be added to it. A
table that a header defines takes further tables below it, but no second header and no dotted key. A
table on the way of a header may get a header of its own later. A table on the way of a dotted key
takes further dotted keys, and no header. Values, inline tables among them, take nothing.
-/

namespace FieldQuery.Toml

inductive Origin where
  | header
  /-- The table has been passed through by a header. -/
  | way
  | dottedKey
deriving DecidableEq, Repr

inductive Node where
  | value (t : Toml)
  | table (origin : Origin) (entries : List (String × Node))
  /-- The tables of an array that grows by headers, the last one first. -/
  | tables (last : List (String × Node)) (others : List (List (String × Node)))

/-- A table that is being filled. -/
abbrev Draft := List (String × Node)

namespace Node

mutual

/-- What the node stands for once nothing is added any more. -/
def close : Node → Toml
  | value t => t
  | table _ entries => .table (closeEntries entries)
  | tables last others => .array (.table (closeEntries last) :: closeTables others).reverse

def closeEntries : List (String × Node) → List (String × Toml)
  | [] => []
  | (key, n) :: es => (key, close n) :: closeEntries es

def closeTables : List (List (String × Node)) → List Toml
  | [] => []
  | es :: ts => .table (closeEntries es) :: closeTables ts

end

end Node

namespace Draft

def node? (d : Draft) (key : String) : Option Node :=
  d.lookup key

def put (d : Draft) (key : String) (n : Node) : Draft :=
  match d with
  | [] => [(key, n)]
  | e :: es => if e.1 = key then (key, n) :: es else e :: put es key n

/-- Adds a value under a key, which may be dotted. -/
def addValue (d : Draft) (way : List String) (key : String) (t : Toml) : Except TomlError Draft :=
  match way with
  | [] => if (d.node? key).isSome then .error (.duplicateKey key) else .ok (d.put key (.value t))
  | k :: way =>
    match d.node? k with
    | none => do
      let inner ← addValue [] way key t
      return d.put k (.table .dottedKey inner)
    | some (.table origin entries) =>
      if origin = .header || (way.isEmpty && origin = .way) then .error (.duplicateKey k)
      else do
        let inner ← addValue entries way key t
        return d.put k (.table origin inner)
    | some (.tables last others) =>
      if way.isEmpty then .error (.duplicateKey k)
      else do
        let inner ← addValue last way key t
        return d.put k (.tables inner others)
    | some (.value _) => .error (.closedKey k)

/-- Changes the table that the keys lead to. Tables that are missing on the way are made, and of an
array of tables it is the last. -/
def change (d : Draft) (way : List String) (f : Draft → Except TomlError Draft) :
    Except TomlError Draft :=
  match way with
  | [] => f d
  | k :: way =>
    match d.node? k with
    | none => do
      let inner ← change [] way f
      return d.put k (.table .way inner)
    | some (.table origin entries) => do
      let inner ← change entries way f
      return d.put k (.table origin inner)
    | some (.tables last others) => do
      let inner ← change last way f
      return d.put k (.tables inner others)
    | some (.value _) => .error (.closedKey k)

/-- The header of a table defines it, once. -/
def openTable (key : String) (d : Draft) : Except TomlError Draft :=
  match d.node? key with
  | none => .ok (d.put key (.table .header []))
  | some (.table .way entries) => .ok (d.put key (.table .header entries))
  | some _ => .error (.duplicateKey key)

/-- The header of an array of tables adds one to it. -/
def openElement (key : String) (d : Draft) : Except TomlError Draft :=
  match d.node? key with
  | none => .ok (d.put key (.tables [] []))
  | some (.tables last others) => .ok (d.put key (.tables [] (last :: others)))
  | some _ => .error (.duplicateKey key)

def close (d : Draft) : Toml :=
  .table (Node.closeEntries d)

end Draft

end FieldQuery.Toml
