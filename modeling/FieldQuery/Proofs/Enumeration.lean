import FieldQuery.Completion.Enumerate
import Mathlib.Tactic.SplitIfs

/-!
# What is enumerated

The listing has the advertised names of the fields that completion may show and the prefix
operators that go on with what has been typed (`mem_listing`). A candidate for a field is one of
these or the dot of a relation that has not been typed (`of_mem_fieldCandidates`): collapsing a
relation brings no other candidate in. A candidate for a comparator is one of the type of the field.
-/

namespace FieldQuery

theorem mem_wordCandidates {typed : String} {words : List String} {c : Candidate} :
    c ∈ wordCandidates typed words ↔ ∃ w ∈ words, w.startsWith typed ∧ c = { text := w } := by
  simp only [wordCandidates, List.mem_map, List.mem_filter, and_assoc, eq_comm]

theorem of_mem_wordCandidates {typed : String} {words : List String} {c : Candidate}
    (h : c ∈ wordCandidates typed words) : ∃ w ∈ words, c = { text := w } := by
  obtain ⟨w, hw, -, rfl⟩ := mem_wordCandidates.1 h
  exact ⟨w, hw, rfl⟩

theorem PrefixOperator.mem_all (op : PrefixOperator) : op ∈ all := by
  cases op <;> decide

theorem Field.mem_candidates {f : Field} {typed : String} {scope : Scope} {c : Candidate} :
    c ∈ f.candidates typed scope ↔ f.completionEnabled ∧ ∃ name ∈ f.advertisedNames,
      f.offers typed scope name ∧ c = .name name f.name := by
  unfold candidates
  split_ifs with h
  · simp only [List.mem_map, List.mem_filter, and_assoc, h, true_and, eq_comm]
  · simp [h]

theorem of_mem_replaceNames {fields : List String} {c d : Candidate} : ∀ {cs : List Candidate},
    d ∈ replaceNames fields c cs → d ∈ cs ∨ d = c
  | e :: cs, h => by
    rw [replaceNames] at h
    split_ifs at h
    · rcases List.mem_cons.1 h with rfl | h
      · exact .inr rfl
      · exact .inl (List.mem_cons_of_mem e (List.mem_filter.1 h).1)
    · rcases List.mem_cons.1 h with rfl | h
      · exact .inl List.mem_cons_self
      · exact (of_mem_replaceNames h).imp (List.mem_cons_of_mem e) id

theorem of_mem_collapse {typed : String} {scope : Scope} {cs : List Candidate}
    {g : RelationGroup} {d : Candidate} (h : d ∈ collapse typed scope cs g) :
    d ∈ cs ∨ typed.startsWith (g.relation ++ ".") = false ∧ d = .group g.relation := by
  simp only [collapse] at h
  split_ifs at h with hkeep
  · exact .inl h
  · have htyped : typed.startsWith (g.relation ++ ".") = false := by
      simp only [Bool.or_eq_true, not_or, Bool.not_eq_true] at hkeep
      exact hkeep.1.1
    exact (of_mem_replaceNames h).imp_right fun h => ⟨htyped, h⟩

theorem of_mem_foldl_collapse {typed : String} {scope : Scope} {d : Candidate} :
    ∀ {gs : List RelationGroup} {cs : List Candidate}, d ∈ gs.foldl (collapse typed scope) cs →
      d ∈ cs ∨ ∃ g ∈ gs, typed.startsWith (g.relation ++ ".") = false ∧ d = .group g.relation
  | [], _, h => .inl h
  | g :: gs, cs, h => by
    rw [List.foldl_cons] at h
    rcases of_mem_foldl_collapse h with h | ⟨g', hg', h⟩
    · exact (of_mem_collapse h).imp id fun h => ⟨g, List.mem_cons_self, h⟩
    · exact .inr ⟨g', List.mem_cons_of_mem g hg', h⟩

namespace Registry

variable {r : Registry}

/-- The candidate is an advertised name of a field that completion may show. -/
def Advertises (r : Registry) (c : Candidate) : Prop :=
  ∃ f ∈ r.fields, f.completionEnabled ∧ ∃ name ∈ f.advertisedNames, c = .name name f.name

theorem mem_listing {typed : String} {scope : Scope} {c : Candidate} :
    c ∈ r.listing typed scope ↔
      (∃ f ∈ r.fields, f.completionEnabled ∧ ∃ name ∈ f.advertisedNames,
          f.offers typed scope name ∧ c = .name name f.name)
        ∨ scope = .clause ∧ ∃ op : PrefixOperator, op.keyword.startsWith typed
          ∧ c = { text := op.keyword } := by
  have hop : c ∈ wordCandidates typed (PrefixOperator.all.map (·.keyword)) ↔
      ∃ op : PrefixOperator, op.keyword.startsWith typed ∧ c = { text := op.keyword } := by
    rw [mem_wordCandidates]
    constructor
    · rintro ⟨w, hw, h⟩
      obtain ⟨op, -, rfl⟩ := List.mem_map.1 hw
      exact ⟨op, h⟩
    · rintro ⟨op, h⟩
      exact ⟨op.keyword, List.mem_map_of_mem op.mem_all, h⟩
  rw [listing, List.mem_append, List.mem_flatMap, apply_ite (c ∈ ·), hop]
  simp only [Field.mem_candidates, List.not_mem_nil]
  split_ifs with hscope <;> simp [hscope]

theorem of_mem_listing {typed : String} {scope : Scope} {c : Candidate}
    (h : c ∈ r.listing typed scope) :
    r.Advertises c ∨ scope = .clause ∧ ∃ op : PrefixOperator, c = { text := op.keyword } := by
  rcases mem_listing.1 h with ⟨f, hf, henabled, name, hname, -, hc⟩ | ⟨hscope, op, -, hc⟩
  · exact .inl ⟨f, hf, henabled, name, hname, hc⟩
  · exact .inr ⟨hscope, op, hc⟩

theorem of_mem_fieldCandidates {threshold : Nat} {typed : String} {scope : Scope} {c : Candidate}
    (h : c ∈ r.fieldCandidates threshold typed scope) :
    r.Advertises c ∨ (scope = .clause ∧ ∃ op : PrefixOperator, c = { text := op.keyword })
      ∨ ∃ relation ∈ r.relations,
        typed.startsWith (relation ++ ".") = false ∧ c = .group relation := by
  unfold fieldCandidates at h
  simp only [] at h
  split_ifs at h
  · exact (of_mem_listing h).imp_right .inl
  · rcases of_mem_foldl_collapse h with h | ⟨g, hg, h⟩
    · exact (of_mem_listing h).imp_right .inl
    · obtain ⟨relation, hr, rfl⟩ := mem_groups.1 hg
      exact .inr (.inr ⟨relation, hr, h⟩)

theorem of_mem_comparatorCandidates {field typed : String} {c : Candidate}
    (h : c ∈ r.comparatorCandidates field typed) :
    ∃ f, r.enabled? field = some f
      ∧ ∃ comparator ∈ f.type.comparators, c = { text := comparator.symbol } := by
  unfold comparatorCandidates at h
  split at h
  · rename_i f hf
    obtain ⟨w, hw, rfl⟩ := of_mem_wordCandidates h
    obtain ⟨comparator, hc, rfl⟩ := List.mem_map.1 hw
    exact ⟨f, hf, comparator, hc, rfl⟩
  · simp at h

end Registry

end FieldQuery
