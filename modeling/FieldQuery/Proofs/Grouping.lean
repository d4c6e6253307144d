import FieldQuery.Proofs.Enumeration
import FieldQuery.Proofs.Keys
import Mathlib.Data.List.Perm.Basic

/-!
# Collapsing relations

Collapsing a relation touches no candidate but those for its members, so a candidate for another
field stays (`mem_foldl_collapse`). The relations of a built registry have no member in common.
Whether one of them is collapsed does not depend on another (`collapses_collapse_iff`), and they may
be collapsed in any order (`collapse_comm`).
-/

namespace FieldQuery

namespace Candidate

theorem names_name {text field : String} {fields : List String} :
    (name text field).names fields ↔ field ∈ fields := by
  simp [name, names]

theorem names_group (relation : String) (fields : List String) :
    (group relation).names fields = false := rfl

theorem names_of_disjoint {c : Candidate} {fields fields' : List String}
    (h : fields.Disjoint fields') (hc : c.names fields) : c.names fields' = false := by
  rcases hfield : c.field with _ | field
  · simp [names, hfield]
  · have hmem : field ∈ fields := by simpa [names, hfield] using hc
    simpa [names, hfield] using fun hmem' => h hmem hmem'

end Candidate

section Replacing

variable {fields fields' : List String} {c c' d : Candidate}

theorem mem_replaceNames (hd : d.names fields = false) : ∀ {cs : List Candidate}, d ∈ cs →
    d ∈ replaceNames fields c cs
  | e :: cs, h => by
    rw [replaceNames]
    split_ifs with he
    · have hne : d ≠ e := by
        rintro rfl
        simp [hd] at he
      have hmem := (List.mem_cons.1 h).resolve_left hne
      exact List.mem_cons_of_mem c (List.mem_filter.2 ⟨hmem, by simp [hd]⟩)
    · rcases List.mem_cons.1 h with rfl | h
      · exact List.mem_cons_self
      · exact List.mem_cons_of_mem e (mem_replaceNames hd h)

theorem filter_replaceNames (h : fields.Disjoint fields') (hc : c.names fields' = false) :
    ∀ cs : List Candidate, (replaceNames fields c cs).filter (fun e => !e.names fields')
      = replaceNames fields c (cs.filter fun e => !e.names fields')
  | [] => rfl
  | e :: cs => by
    rw [replaceNames]
    by_cases he : e.names fields
    · have he' := Candidate.names_of_disjoint h he
      rw [if_pos he, List.filter_cons_of_pos (by simpa using hc),
        List.filter_cons_of_pos (by simpa using he'), replaceNames, if_pos he, List.filter_filter,
        List.filter_filter]
      simp only [Bool.and_comm]
    · rw [if_neg he]
      by_cases he' : e.names fields'
      · rw [List.filter_cons_of_neg (by simpa using he'),
          List.filter_cons_of_neg (by simpa using he'), filter_replaceNames h hc]
      · rw [List.filter_cons_of_pos (by simpa using he'),
          List.filter_cons_of_pos (by simpa using he'), replaceNames, if_neg he,
          filter_replaceNames h hc]

theorem replaceNames_comm (h : fields.Disjoint fields') (hc : c.names fields' = false)
    (hc' : c'.names fields = false) : ∀ cs : List Candidate,
      replaceNames fields' c' (replaceNames fields c cs)
        = replaceNames fields c (replaceNames fields' c' cs)
  | [] => rfl
  | e :: cs => by
    by_cases he : e.names fields
    · have he' := Candidate.names_of_disjoint h he
      rw [replaceNames, if_pos he, replaceNames, if_neg (by simp [hc]), replaceNames,
        if_neg (by simp [he']), replaceNames, if_pos he,
        filter_replaceNames (List.disjoint_symm h) hc']
    · by_cases he' : e.names fields'
      · rw [replaceNames, if_neg he, replaceNames, if_pos he', replaceNames, if_pos he',
          replaceNames, if_neg (by simp [hc']), filter_replaceNames h hc]
      · rw [replaceNames, if_neg he, replaceNames, if_neg he', replaceNames, if_neg he',
          replaceNames, if_neg he, replaceNames_comm h hc hc']

theorem exists_field_replaceNames {name : String} (hname : name ∉ fields)
    (hc : c.field ≠ some name) {cs : List Candidate} :
    (∃ d ∈ replaceNames fields c cs, d.field = some name) ↔ ∃ d ∈ cs, d.field = some name := by
  constructor
  · rintro ⟨d, hd, hfield⟩
    rcases of_mem_replaceNames hd with hd | rfl
    · exact ⟨d, hd, hfield⟩
    · exact absurd hfield hc
  · rintro ⟨d, hd, hfield⟩
    exact ⟨d, mem_replaceNames (by simp [Candidate.names, hfield, hname]) hd, hfield⟩

end Replacing

/-- The relation is collapsed: its dot has not been typed, and every member that may be listed is
listed. -/
structure RelationGroup.Collapses (g : RelationGroup) (typed : String) (scope : Scope)
    (cs : List Candidate) : Prop where
  notTyped : typed.startsWith (g.relation ++ ".") = false
  nonempty : g.listable scope ≠ []
  listed : ∀ name ∈ g.listable scope, ∃ c ∈ cs, c.field = some name

section Collapsing

variable {typed : String} {scope : Scope} {cs : List Candidate} {g g' : RelationGroup}

theorem collapse_of_collapses (h : g.Collapses typed scope cs) :
    collapse typed scope cs g = replaceNames (g.listable scope) (.group g.relation) cs := by
  have hall : ((g.listable scope).all fun name => cs.any fun c => c.field = some name) = true := by
    simpa using h.listed
  simp [collapse, h.notTyped, h.nonempty, hall]

theorem collapse_of_not_collapses (h : ¬ g.Collapses typed scope cs) :
    collapse typed scope cs g = cs := by
  simp only [collapse]
  refine if_pos ?_
  by_contra hkeep
  simp only [Bool.or_eq_true, not_or, Bool.not_eq_true, List.isEmpty_eq_false_iff] at hkeep
  obtain ⟨⟨htyped, hne⟩, hall⟩ := hkeep
  exact h ⟨htyped, hne, by simpa using hall⟩

theorem mem_collapse {c : Candidate} (hc : c ∈ cs)
    (h : typed.startsWith (g.relation ++ ".") ∨ c.names (g.listable scope) = false) :
    c ∈ collapse typed scope cs g := by
  by_cases hg : g.Collapses typed scope cs
  · rw [collapse_of_collapses hg]
    refine mem_replaceNames (h.resolve_left fun htyped => ?_) hc
    simp [hg.notTyped] at htyped
  · rwa [collapse_of_not_collapses hg]

/-- A candidate stays if its relation is the one whose dot has been typed. -/
theorem mem_foldl_collapse {c : Candidate} : ∀ {gs : List RelationGroup} {cs : List Candidate},
    c ∈ cs → (∀ g ∈ gs, typed.startsWith (g.relation ++ ".")
      ∨ c.names (g.listable scope) = false) → c ∈ gs.foldl (collapse typed scope) cs
  | [], _, hc, _ => hc
  | g :: gs, cs, hc, h => by
    rw [List.foldl_cons]
    exact mem_foldl_collapse (mem_collapse hc (h g List.mem_cons_self))
      fun g' hg' => h g' (List.mem_cons_of_mem g hg')

theorem collapses_collapse_iff (h : (g.listable scope).Disjoint (g'.listable scope)) :
    g'.Collapses typed scope (collapse typed scope cs g) ↔ g'.Collapses typed scope cs := by
  by_cases hg : g.Collapses typed scope cs
  · have hlisted : ∀ name ∈ g'.listable scope,
        (∃ c ∈ collapse typed scope cs g, c.field = some name) ↔ ∃ c ∈ cs, c.field = some name := by
      intro name hname
      rw [collapse_of_collapses hg]
      exact exists_field_replaceNames (fun hname' => h hname' hname) (by simp [Candidate.group])
    constructor
    · rintro ⟨htyped, hne, hall⟩
      exact ⟨htyped, hne, fun name hname => (hlisted name hname).1 (hall name hname)⟩
    · rintro ⟨htyped, hne, hall⟩
      exact ⟨htyped, hne, fun name hname => (hlisted name hname).2 (hall name hname)⟩
  · rw [collapse_of_not_collapses hg]

theorem collapse_comm (h : (g.listable scope).Disjoint (g'.listable scope)) :
    collapse typed scope (collapse typed scope cs g) g'
      = collapse typed scope (collapse typed scope cs g') g := by
  have hiff : g'.Collapses typed scope (collapse typed scope cs g) ↔ g'.Collapses typed scope cs :=
    collapses_collapse_iff h
  have hiff' : g.Collapses typed scope (collapse typed scope cs g') ↔ g.Collapses typed scope cs :=
    collapses_collapse_iff (List.disjoint_symm h)
  by_cases hg : g.Collapses typed scope cs <;> by_cases hg' : g'.Collapses typed scope cs
  · rw [collapse_of_collapses (hiff.2 hg'), collapse_of_collapses hg,
      collapse_of_collapses (hiff'.2 hg), collapse_of_collapses hg']
    exact replaceNames_comm h (Candidate.names_group _ _) (Candidate.names_group _ _) cs
  · rw [collapse_of_not_collapses (hiff.not.2 hg'), collapse_of_not_collapses hg']
  · rw [collapse_of_not_collapses hg, collapse_of_not_collapses (hiff'.not.2 hg)]
  · rw [collapse_of_not_collapses hg, collapse_of_not_collapses hg', collapse_of_not_collapses hg]

end Collapsing

namespace Registry

variable {r : Registry}

theorem mem_listable {relation name : String} {scope : Scope} :
    name ∈ RelationGroup.listable { relation, members := r.members relation } scope ↔
      ∃ f ∈ r.fields, f.relationName? = some relation ∧ f.listable scope ∧ f.name = name := by
  simp only [RelationGroup.listable, members, List.mem_map, List.mem_filter, decide_eq_true_eq,
    and_assoc]

theorem Built.disjoint_listable (hb : r.Built) {relation relation' : String}
    (h : relation ≠ relation') (scope : Scope) :
    (RelationGroup.listable { relation, members := r.members relation } scope).Disjoint
      (RelationGroup.listable { relation := relation', members := r.members relation' } scope) := by
  intro name hname hname'
  obtain ⟨f, hf, hrelation, -, rfl⟩ := mem_listable.1 hname
  obtain ⟨f', hf', hrelation', -, hname⟩ := mem_listable.1 hname'
  have hsame := hb.eq_of_key hf hf' List.mem_cons_self (List.mem_cons.2 (.inl hname.symm))
  rw [hsame, hrelation'] at hrelation
  exact h (Option.some.inj hrelation).symm

end Registry

end FieldQuery
