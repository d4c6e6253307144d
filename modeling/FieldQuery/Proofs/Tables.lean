import FieldQuery.Completion.Known
import Mathlib.Data.List.Nodup
import Mathlib.Tactic.SplitIfs

/-!
# Tables

A table is a list of keys and what they stand for, and a lookup takes the first entry of a key. With
no key twice, every entry is looked up.
-/

namespace FieldQuery

section Lookup

variable {β : Type} {key other : String}

theorem lookup_filter_ne (h : other ≠ key) : ∀ t : List (String × β),
    (t.filter fun p => p.1 ≠ key).lookup other = t.lookup other
  | [] => rfl
  | p :: t => by
    by_cases hp : p.1 = key
    · have hother : (other == p.1) = false := by simpa [hp] using h
      rw [List.filter_cons_of_neg (by simpa using hp), List.lookup_cons, hother]
      exact lookup_filter_ne h t
    · rw [List.filter_cons_of_pos (by simpa using hp), List.lookup_cons, List.lookup_cons,
        lookup_filter_ne h t]

theorem lookup_filter_self (key : String) (t : List (String × β)) :
    (t.filter fun p => p.1 ≠ key).lookup key = none := by
  rw [List.lookup_eq_none_iff]
  intro p hp
  have hne : p.1 ≠ key := by simpa using (List.mem_filter.1 hp).2
  exact bne_iff_ne.2 hne.symm

theorem lookup_of_mem : ∀ {t : List (String × β)}, (t.map Prod.fst).Nodup →
    ∀ {p : String × β}, p ∈ t → t.lookup p.1 = some p.2
  | [], _, p, hp => by simp at hp
  | q :: t, h, p, hp => by
    obtain ⟨hq, ht⟩ := List.nodup_cons.1 h
    rcases List.mem_cons.1 hp with rfl | hp
    · rw [List.lookup_cons, beq_self_eq_true]
    · have hne : (p.1 == q.1) = false := by
        refine beq_false_of_ne fun heq => hq ?_
        exact heq ▸ List.mem_map_of_mem hp
      rw [List.lookup_cons, hne]
      exact lookup_of_mem ht hp

end Lookup

theorem insertText_ne_nil (v : String) : ∀ vs : List String, insertText v vs ≠ []
  | [] => List.cons_ne_nil _ _
  | w :: ws => by
    rw [insertText]
    split_ifs <;> exact List.cons_ne_nil _ _

theorem textSet_ne_nil {vs : List String} (h : vs ≠ []) : textSet vs ≠ [] := by
  obtain ⟨v, vs, rfl⟩ := List.exists_cons_of_ne_nil h
  exact insertText_ne_nil v (textSet vs)

namespace KnownValues

theorem lookup_erase (t : KnownValues) (name other : String) :
    (t.erase name).lookup other = if other = name then none else t.lookup other := by
  split_ifs with h
  · rw [h]
    exact lookup_filter_self name t
  · exact lookup_filter_ne h t

theorem lookup_insert (t : KnownValues) (name other : String) (values : List String) :
    (t.insert name values).lookup other = if other = name then some values else t.lookup other := by
  rw [insert, List.lookup_append, lookup_erase]
  split_ifs with h
  · simp [h]
  · have hne : (other == name) = false := beq_false_of_ne h
    simp [List.lookup_cons, hne]

theorem nodup_erase {t : KnownValues} (h : (t.map Prod.fst).Nodup) (name : String) :
    ((t.erase name).map Prod.fst).Nodup :=
  h.sublist (List.filter_sublist.map _)

theorem nodup_insert {t : KnownValues} (h : (t.map Prod.fst).Nodup) (name : String)
    (values : List String) : ((t.insert name values).map Prod.fst).Nodup := by
  rw [insert, List.map_append, List.nodup_append]
  refine ⟨nodup_erase h name, List.nodup_singleton _, ?_⟩
  rintro _ hkey _ hname rfl
  obtain ⟨p, hp, rfl⟩ := List.mem_map.1 hkey
  have hne := (List.mem_filter.1 hp).2
  simp at hne hname
  exact hne hname

end KnownValues

end FieldQuery
