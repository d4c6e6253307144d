import FieldQuery.Schema.Index

/-!
# Registries

A registry holds the fields of one schema in the order of their declaration, and their index.
Look-up goes by name or alias. There is one group for each relation, in the order in which relations
first occur. Both are read off the index, and a registry has no index but that of its fields: so a
look-up finds the first field that has the key (`Registry.resolve?_eq`), and a group has the fields
of its relation (`Registry.groups_eq`).
-/

namespace FieldQuery

structure Registry where
  name : String := ""
  fields : List Field := []
  index : Index := .of fields
  index_eq : index = .of fields := by rfl
deriving DecidableEq, Repr

/-- The fields that are reached through one relation. -/
structure RelationGroup where
  relation : String
  members : List Field
deriving DecidableEq, Repr

namespace Registry

/-- The field of this name or alias. -/
def resolve? (r : Registry) (key : String) : Option Field :=
  (r.index.keys.lookup key).bind fun i => r.fields[i]?

/-- The relations of the registry, each where it first occurs. -/
def relations (r : Registry) : List String :=
  relationsOf r.fields

def members (r : Registry) (relation : String) : List Field :=
  r.fields.filter fun f => f.relationName? = some relation

def groups (r : Registry) : List RelationGroup :=
  r.index.groups.map fun g => { relation := g.1, members := g.2.filterMap fun i => r.fields[i]? }

def group? (r : Registry) (relation : String) : Option RelationGroup :=
  r.groups.find? fun g => g.relation = relation

end Registry

/-! ## What is read off the index -/

theorem lookup_map_key (key : String) (i : Nat) : ∀ keys : List String,
    (keys.map (·, i)).lookup key = if key ∈ keys then some i else none
  | [] => rfl
  | k :: keys => by
    rw [List.map_cons, List.lookup_cons, lookup_map_key key i keys]
    by_cases h : key = k
    · simp [h]
    · have hne : (key == k) = false := by simpa using h
      simp [h, hne]

theorem lookup_zipIdx_keys (key : String) : ∀ (fs : List Field) (n : Nat),
    ((fs.zipIdx n).flatMap fun p => p.1.keys.map (·, p.2)).lookup key
      = (fs.findIdx? fun f => key ∈ f.keys).map (· + n)
  | [], _ => rfl
  | f :: fs, n => by
    rw [List.zipIdx_cons, List.flatMap_cons, List.lookup_append, lookup_map_key,
      lookup_zipIdx_keys key fs (n + 1), List.findIdx?_cons]
    by_cases h : key ∈ f.keys
    · simp [h]
    · simp [h, Function.comp_def, Nat.add_comm, Nat.add_left_comm]

theorem filterMap_zipIdx {p : Field → Bool} : ∀ (fs before : List Field),
    (((fs.zipIdx before.length).filter fun x => p x.1).map (·.2)).filterMap
      (fun i => (before ++ fs)[i]?) = fs.filter p
  | [], _ => rfl
  | f :: fs, before => by
    have ih := filterMap_zipIdx (p := p) fs (before ++ [f])
    rw [List.length_append, List.length_singleton, List.append_assoc, List.singleton_append] at ih
    rw [List.zipIdx_cons]
    by_cases h : p f
    · have hget : (before ++ f :: fs)[before.length]? = some f := by simp
      rw [List.filter_cons_of_pos h, List.filter_cons_of_pos (by exact h), List.map_cons,
        List.filterMap_cons_some hget, ih]
    · rw [List.filter_cons_of_neg h, List.filter_cons_of_neg (by exact h), ih]

namespace Registry

/-- There is one registry of a name with certain fields. -/
theorem eq_mk (r : Registry) : r = { name := r.name, fields := r.fields } := by
  obtain ⟨name, fields, index, rfl⟩ := r
  rfl

theorem lookup_index (r : Registry) (key : String) :
    r.index.keys.lookup key = r.fields.findIdx? fun f => key ∈ f.keys := by
  rw [r.index_eq, Index.of, lookup_zipIdx_keys key r.fields 0]
  simp

theorem resolve?_eq (r : Registry) (key : String) :
    r.resolve? key = r.fields.find? fun f => key ∈ f.keys := by
  rw [resolve?, lookup_index, List.find?_eq_bind_findIdx?_getElem?]

theorem groups_eq (r : Registry) : r.groups
    = r.relations.map fun relation => { relation, members := r.members relation } := by
  rw [groups, r.index_eq, Index.of, List.map_map, relations]
  refine List.map_congr_left fun relation _ => ?_
  have hmembers := filterMap_zipIdx (p := fun f => f.relationName? = some relation) r.fields []
  exact congrArg (RelationGroup.mk relation) hmembers

theorem mem_groups {r : Registry} {g : RelationGroup} :
    g ∈ r.groups ↔ ∃ relation ∈ r.relations, g = { relation, members := r.members relation } := by
  simp only [groups_eq, List.mem_map, eq_comm]

end Registry

end FieldQuery
