import FieldQuery.Schema.Builder
import Mathlib.Data.List.Nodup

/-!
# The keys of a registry

Fields are indexed exactly if no name is blank and no key is there twice (`Index.fill_ok_iff`). So
the built registries are those whose fields are clean and go by their final names (`built_iff`), and
in one of them every key leads to the one field that has it (`Built.resolve?`).
-/

namespace FieldQuery

theorem Field.renamed_renamed (f : Field) : f.renamed.renamed = f.renamed := by
  cases hr : f.relation <;> simp [renamed, finalName, hr]

theorem Builder.build_ok_iff {b : Builder} {r : Registry} :
    b.build = .ok r ↔ Clean (b.fields.map Field.renamed)
      ∧ r = { name := b.name, fields := b.fields.map Field.renamed } := by
  rw [build]
  split
  · rename_i index h
    obtain ⟨hclean, rfl⟩ := Index.fill_ok_iff.1 h
    simp [hclean, eq_comm]
  · rename_i e h
    have hunclean : ¬ Clean (b.fields.map Field.renamed) := fun hclean => by
      rw [Index.fill_ok_iff.2 ⟨hclean, rfl⟩] at h
      cases h
    simp [hunclean]

theorem Builder.build_error_iff {b : Builder} {e : SchemaError} :
    b.build = .error e ↔ Index.fill (b.fields.map Field.renamed) = .error e := by
  rw [build]
  split <;> rename_i h <;> simp [h]

namespace Registry

/-- The registry comes out of a builder. -/
def Built (r : Registry) : Prop :=
  ∃ b : Builder, b.build = .ok r

theorem built_iff {r : Registry} :
    r.Built ↔ (∀ f ∈ r.fields, f.renamed = f) ∧ Clean r.fields := by
  constructor
  · rintro ⟨b, hb⟩
    obtain ⟨hclean, rfl⟩ := Builder.build_ok_iff.1 hb
    refine ⟨fun f hf => ?_, hclean⟩
    obtain ⟨g, -, rfl⟩ := List.mem_map.1 hf
    exact g.renamed_renamed
  · rintro ⟨hnamed, hclean⟩
    have hfields : r.fields.map Field.renamed = r.fields :=
      (List.map_congr_left hnamed).trans (List.map_id _)
    exact ⟨{ name := r.name, fields := r.fields },
      Builder.build_ok_iff.2 (by rw [hfields]; exact ⟨hclean, r.eq_mk⟩)⟩

theorem find?_key : ∀ {fs : List Field}, (fs.flatMap Field.keys).Nodup →
    ∀ {f : Field} {k : String}, f ∈ fs → k ∈ f.keys → fs.find? (fun g => k ∈ g.keys) = some f
  | [], _, f, k, hf, _ => by simp at hf
  | g :: fs, hnodup, f, k, hf, hk => by
    rw [List.flatMap_cons, List.nodup_append] at hnodup
    obtain ⟨-, hrest, hdisjoint⟩ := hnodup
    by_cases hg : k ∈ g.keys
    · rcases List.mem_cons.1 hf with rfl | hf
      · simp [hg]
      · exact absurd rfl (hdisjoint k hg k (List.mem_flatMap_of_mem hf hk))
    · have hne : f ≠ g := fun h => hg (h ▸ hk)
      have hf' : f ∈ fs := (List.mem_cons.1 hf).resolve_left hne
      simpa [hg] using find?_key hrest hf' hk

theorem names_sublist_keys : ∀ fs : List Field,
    (fs.map Field.name).Sublist (fs.flatMap Field.keys)
  | [] => .slnil
  | f :: fs => ((names_sublist_keys fs).trans (List.sublist_append_right _ _)).cons_cons f.name

namespace Built

variable {r : Registry}

theorem keys_nodup (h : r.Built) : (r.fields.flatMap Field.keys).Nodup :=
  (built_iff.1 h).2.distinct

theorem names_nodup (h : r.Built) : (r.fields.map Field.name).Nodup :=
  h.keys_nodup.sublist (names_sublist_keys r.fields)

theorem resolve? (h : r.Built) {f : Field} (hf : f ∈ r.fields) {k : String} (hk : k ∈ f.keys) :
    r.resolve? k = some f :=
  (r.resolve?_eq k).trans (find?_key h.keys_nodup hf hk)

/-- A field that is reached through a relation goes by its dotted path. -/
theorem name_eq_path (h : r.Built) {f : Field} (hf : f ∈ r.fields) {way : Relation}
    (hway : f.relation = some way) : f.name = way.path := by
  have hrenamed := congrArg Field.name ((built_iff.1 h).1 f hf)
  simpa [Field.renamed, Field.finalName, hway] using hrenamed.symm

theorem eq_of_key (h : r.Built) {f g : Field} (hf : f ∈ r.fields) (hg : g ∈ r.fields)
    {k : String} (hkf : k ∈ f.keys) (hkg : k ∈ g.keys) : f = g :=
  Option.some.inj ((h.resolve? hf hkf).symm.trans (h.resolve? hg hkg))

end Built

end Registry

end FieldQuery
