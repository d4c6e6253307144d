import FieldQuery.Completion.Engine
import FieldQuery.Proofs.Grouping
import Mathlib.Data.List.Flatten
import Mathlib.Data.List.Perm.Subperm

/-!
# Disabled fields

Completion looks at no field but those it may show: two built registries that show the same fields
complete every line alike (`Engine.complete_of_shown`). Without a field its relation may come later
or not at all, but only the relations with a member that may be listed count, and these may be
collapsed in any order (`foldl_collapse_of_shown`). What is left of a built registry after some of
its disabled fields are deleted builds again, and shows the same fields
(`Engine.complete_without_disabled`).
-/

namespace FieldQuery

theorem flatMap_filter {α β : Type} {p : α → Bool} {g : α → List β} :
    ∀ {xs : List α}, (∀ x ∈ xs, p x = false → g x = []) → (xs.filter p).flatMap g = xs.flatMap g
  | [], _ => rfl
  | x :: xs, h => by
    have ih := flatMap_filter fun y hy => h y (List.mem_cons_of_mem x hy)
    rcases hx : p x with _ | _
    · rw [List.filter_cons_of_neg (by simp [hx]), List.flatMap_cons, h x List.mem_cons_self hx, ih]
      rfl
    · rw [List.filter_cons_of_pos hx, List.flatMap_cons, List.flatMap_cons, ih]

theorem collapse_congr {typed relation : String} {scope : Scope} {members members' : List Field}
    (h : RelationGroup.listable { relation, members } scope
      = RelationGroup.listable { relation, members := members' } scope) (cs : List Candidate) :
    collapse typed scope cs { relation, members }
      = collapse typed scope cs { relation, members := members' } := by
  rw [collapse, h]
  rfl

namespace Registry

/-- The fields that completion may show. -/
def shown (r : Registry) : List Field :=
  r.fields.filter (·.completionEnabled)

/-- The names that a relation is collapsed by. -/
def listableNames (r : Registry) (scope : Scope) (relation : String) : List String :=
  RelationGroup.listable { relation, members := r.members relation } scope

/-- The relations with a member that may be listed. -/
def listableRelations (r : Registry) (scope : Scope) : List String :=
  r.relations.filter fun relation => !(r.listableNames scope relation).isEmpty

variable {r r' : Registry} {typed : String} {scope : Scope}

theorem listableNames_eq (relation : String) : r.listableNames scope relation =
    (r.shown.filter fun f => f.relationName? = some relation && f.listable scope).map (·.name) := by
  rw [listableNames, RelationGroup.listable, members, shown, List.filter_filter,
    List.filter_filter]
  congr 1
  refine List.filter_congr fun f _ => ?_
  cases hf : f.completionEnabled <;> simp [Field.listable, hf, Bool.and_comm]

theorem mem_listableRelations {relation : String} : relation ∈ r.listableRelations scope ↔
    ∃ f ∈ r.shown, f.relationName? = some relation ∧ f.listable scope := by
  have hne : r.listableNames scope relation ≠ [] ↔
      ∃ f ∈ r.shown, f.relationName? = some relation ∧ f.listable scope := by
    simp [listableNames_eq]
  simp only [listableRelations, List.mem_filter, Bool.not_eq_eq_eq_not, Bool.not_true,
    List.isEmpty_eq_false_iff, hne, relations, mem_relationsOf]
  constructor
  · exact And.right
  · rintro ⟨f, hf, hrelation, hlistable⟩
    exact ⟨⟨f, (List.mem_filter.1 hf).1, hrelation⟩, f, hf, hrelation, hlistable⟩

theorem nodup_listableRelations : (r.listableRelations scope).Nodup :=
  (nodup_eraseDups _).filter _

theorem foldl_collapse_eq (cs : List Candidate) : r.groups.foldl (collapse typed scope) cs
    = (r.listableRelations scope).foldl
        (fun cs relation => collapse typed scope cs { relation, members := r.members relation })
        cs := by
  rw [groups_eq, List.foldl_map, listableRelations, List.foldl_filter]
  refine List.foldl_ext _ _ _ fun cs relation _ => ?_
  split_ifs with h
  · rfl
  · have hempty : r.listableNames scope relation = [] := by simpa using h
    exact collapse_of_not_collapses fun hcollapses => hcollapses.nonempty hempty

theorem foldl_collapse_of_shown (hb : r.Built) (h : r.shown = r'.shown) (cs : List Candidate) :
    r.groups.foldl (collapse typed scope) cs = r'.groups.foldl (collapse typed scope) cs := by
  have hperm : (r.listableRelations scope).Perm (r'.listableRelations scope) := by
    refine (List.perm_ext_iff_of_nodup nodup_listableRelations
      nodup_listableRelations).2 fun relation => ?_
    rw [mem_listableRelations, mem_listableRelations, h]
  have hnames : ∀ relation, r.listableNames scope relation = r'.listableNames scope relation := by
    intro relation
    rw [listableNames_eq, listableNames_eq, h]
  rw [foldl_collapse_eq, foldl_collapse_eq, hperm.foldl_eq']
  · refine List.foldl_ext _ _ _ fun cs relation _ => ?_
    exact collapse_congr (hnames relation) cs
  · intro relation _ relation' _ cs
    by_cases hsame : relation = relation'
    · rw [hsame]
    · exact collapse_comm (hb.disjoint_listable hsame scope)

theorem fieldCandidates_of_shown (hb : r.Built) (h : r.shown = r'.shown) (threshold : Nat) :
    r.fieldCandidates threshold typed scope = r'.fieldCandidates threshold typed scope := by
  have hflat : ∀ r : Registry, r.shown.flatMap (fun f => f.candidates typed scope)
      = r.fields.flatMap fun f => f.candidates typed scope := by
    intro r
    exact flatMap_filter fun f _ hf => by simp [Field.candidates, hf]
  have hlisting : r.listing typed scope = r'.listing typed scope := by
    rw [listing, listing, ← hflat, ← hflat, h]
  simp only [fieldCandidates, hlisting, foldl_collapse_of_shown hb h]

theorem Built.enabled?_eq (hb : r.Built) (name : String) :
    r.enabled? name = r.shown.find? fun f => name ∈ f.keys := by
  have hnodup : (r.shown.flatMap Field.keys).Nodup :=
    hb.keys_nodup.sublist (List.Sublist.flatMap List.filter_sublist _)
  rcases hf : r.enabled? name with _ | f
  · refine (List.find?_eq_none.2 fun f hf' hname => ?_).symm
    obtain ⟨hmem, henabled⟩ := List.mem_filter.1 hf'
    rw [enabled?, hb.resolve? hmem (by simpa using hname)] at hf
    simp [henabled] at hf
  · obtain ⟨hresolve, henabled⟩ := Option.filter_eq_some_iff.1 hf
    rw [resolve?_eq] at hresolve
    have hmem := List.mem_of_find?_eq_some hresolve
    have hname : name ∈ f.keys := by simpa using List.find?_some hresolve
    exact (find?_key hnodup (List.mem_filter.2 ⟨hmem, henabled⟩) hname).symm

theorem enumerate_of_shown (hb : r.Built) (hb' : r'.Built) (h : r.shown = r'.shown)
    {m : Type → Type} [Monad m] (threshold : Nat) (lookup : Lookup m) (c : Context) :
    r.enumerate threshold lookup c = r'.enumerate threshold lookup c := by
  have henabled : ∀ name, r.enabled? name = r'.enabled? name := by
    intro name
    rw [hb.enabled?_eq, hb'.enabled?_eq, h]
  have hvalue : r.valueField? c = r'.valueField? c := by
    cases c <;> simp only [valueField?, henabled]
  have hcandidates : ∀ known, r.candidates threshold known c = r'.candidates threshold known c := by
    intro known
    cases c <;> simp only [candidates, comparatorCandidates, henabled,
      fieldCandidates_of_shown hb h]
  simp only [enumerate, hvalue, hcandidates]

theorem Built.of_sublist (hb : r.Built) {fs : List Field} (h : fs.Sublist r.fields)
    (name : String) : Built { name, fields := fs } := by
  obtain ⟨hnamed, hclean⟩ := built_iff.1 hb
  refine built_iff.2 ⟨fun f hf => hnamed f (h.subset hf), ?_, ?_⟩
  · exact fun f hf => hclean.named f (h.subset hf)
  · exact hclean.distinct.sublist (h.flatMap _)

theorem shown_of_sublist (hb : r.Built) {fs : List Field} (h : fs.Sublist r.fields)
    (henabled : ∀ f ∈ r.fields, f.completionEnabled → f ∈ fs) (name : String) :
    shown { name, fields := fs } = r.shown := by
  have hnodup : r.fields.Nodup := hb.names_nodup.of_map
  have hsubset : r.shown ⊆ shown { name, fields := fs } := by
    intro f hf
    obtain ⟨hmem, hf⟩ := List.mem_filter.1 hf
    exact List.mem_filter.2 ⟨henabled f hmem hf, hf⟩
  exact (h.filter _).eq_of_length_le ((hnodup.filter _).subperm hsubset).length_le

end Registry

theorem declare_of_not_mem {f : Field} : ∀ {fs : List Field}, f.name ∉ fs.map Field.name →
    declare f fs = fs ++ [f]
  | [], _ => rfl
  | g :: gs, h => by
    rw [List.map_cons, List.mem_cons, not_or] at h
    rw [declare, if_neg (Ne.symm h.1), declare_of_not_mem h.2, List.cons_append]

theorem Builder.addFields_of_nodup : ∀ {fs : List Field} {b : Builder},
    ((b.fields ++ fs).map Field.name).Nodup →
      b.addFields fs = { b with fields := b.fields ++ fs }
  | [], b, _ => by simp [addFields]
  | f :: fs, b, h => by
    have hf : f.name ∉ b.fields.map Field.name := by
      intro hmem
      rw [List.map_append, List.nodup_append] at h
      exact h.2.2 f.name hmem f.name (by simp) rfl
    have hstep : b.field f = { b with fields := b.fields ++ [f] } := by
      rw [field, declare_of_not_mem hf]
    have hrest : (b.field f).addFields fs = { b.field f with fields := (b.field f).fields ++ fs } :=
      addFields_of_nodup (by rw [hstep]; simpa using h)
    rw [addFields, List.foldl_cons]
    exact hrest.trans (by simp [hstep])

namespace Engine

variable {r r' : Registry} {m : Type → Type} [Monad m]

theorem complete_of_shown (hb : r.Built) (hb' : r'.Built) (h : r.shown = r'.shown)
    (threshold : Nat) (lookup : Lookup m) (input : String) :
    complete { registry := r, threshold } lookup input
      = complete { registry := r', threshold } lookup input := by
  simp only [complete, completeLine, Registry.enumerate_of_shown hb hb' h]

/-- Deleting some of the disabled fields of a registry leaves a registry, and completion does not
see the difference. -/
theorem complete_without_disabled (hb : r.Built) {fs : List Field} (h : fs.Sublist r.fields)
    (henabled : ∀ f ∈ r.fields, f.completionEnabled → f ∈ fs) (name : String) :
    ∃ r', (Builder.addFields { name } fs).build = .ok r' ∧ r'.fields = fs
      ∧ ∀ {m : Type → Type} [Monad m] (threshold : Nat) (lookup : Lookup m) (input : String),
        complete { registry := r, threshold } lookup input
          = complete { registry := r', threshold } lookup input := by
  have hbuilt := hb.of_sublist h name
  obtain ⟨hnamed, hclean⟩ := Registry.built_iff.1 hbuilt
  have hfields : fs.map Field.renamed = fs := (List.map_congr_left hnamed).trans (List.map_id _)
  have hadd : Builder.addFields { name } fs = { name, fields := fs } :=
    Builder.addFields_of_nodup hbuilt.names_nodup
  refine ⟨{ name, fields := fs }, ?_, rfl, fun threshold lookup input => ?_⟩
  · rw [hadd]
    exact Builder.build_ok_iff.2 (by rw [hfields]; exact ⟨hclean, rfl⟩)
  · exact complete_of_shown hb hbuilt (Registry.shown_of_sublist hb h henabled name).symm threshold
      lookup input

/-- Two of the fields are disabled, one without a relation and the first member of a relation. -/
def archive : Registry where
  name := "archive"
  fields := [{ name := "id", type := .integer, completionEnabled := false },
    { Field.related "owner" "login" .string with completionEnabled := false },
    Field.related "parts" "size" .integer, Field.related "owner" "name" .string]

/-- Without the disabled fields the relations come in another order, and are collapsed all the
same. -/
theorem complete_without_disabled_archive :
    archive.Built ∧ archive.relations = ["owner", "parts"]
      ∧ ∃ r', (Builder.addFields { name := "archive" } (archive.fields.drop 2)).build = .ok r'
        ∧ r'.relations = ["parts", "owner"]
        ∧ (∀ lookup : Lookup (StateM Unit),
          complete { registry := archive, threshold := 1 } lookup "has "
            = complete { registry := r', threshold := 1 } lookup "has ")
        ∧ ((complete { registry := r', threshold := 1 } (Lookup.none : Lookup (StateM Unit))
          "has ").run ()).1 = .ok ["has  parts.", "has  owner."] := by
  have hb : archive.Built := ⟨{ name := "archive", fields := archive.fields }, by decide⟩
  obtain ⟨r', hbuild, hfields, hcomplete⟩ := complete_without_disabled hb
    (List.drop_sublist 2 archive.fields) (by decide) "archive"
  refine ⟨hb, by decide, r', hbuild, ?_, fun lookup => hcomplete 1 lookup "has ", ?_⟩
  · rw [Registry.relations, hfields]
    decide
  · rw [← hcomplete 1]
    decide +kernel

end Engine

end FieldQuery
