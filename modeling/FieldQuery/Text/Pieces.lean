/-!
# Pieces between separators
-/

namespace FieldQuery

/-- The parts of the text between the characters `sep`, one more than there are of these. -/
def pieces (sep : Char) : List Char → List (List Char)
  | [] => [[]]
  | c :: cs =>
    if c = sep then [] :: pieces sep cs
    else
      match pieces sep cs with
      | [] => [[c]]
      | p :: ps => (c :: p) :: ps

def splitAtChar (sep : Char) (s : String) : List String :=
  (pieces sep s.toList).map String.ofList

variable {sep : Char}

theorem pieces_eq_splitOn (sep : Char) : ∀ cs : List Char, pieces sep cs = cs.splitOn sep
  | [] => by simp [pieces]
  | c :: cs => by
    rw [pieces, pieces_eq_splitOn sep cs, List.splitOn_cons_eq_if_modifyHead]
    rcases h : cs.splitOn sep with _ | ⟨p, ps⟩
    · exact absurd h (List.splitOn_ne_nil sep cs)
    · simp

theorem not_mem_of_mem_pieces : ∀ {cs p : List Char}, p ∈ pieces sep cs → sep ∉ p
  | [], p, h => by
    obtain rfl : p = [] := by simpa [pieces] using h
    simp
  | c :: cs, p, h => by
    rw [pieces] at h
    split at h
    · rcases List.mem_cons.1 h with rfl | h
      · simp
      · exact not_mem_of_mem_pieces h
    · rename_i hc
      split at h
      · obtain rfl : p = [c] := by simpa using h
        simpa using Ne.symm hc
      · rename_i q qs hqs
        have hpieces : ∀ r ∈ q :: qs, sep ∉ r := fun r hr =>
          not_mem_of_mem_pieces (hqs ▸ hr)
        rcases List.mem_cons.1 h with rfl | h
        · simpa [Ne.symm hc] using hpieces q List.mem_cons_self
        · exact hpieces p (List.mem_cons_of_mem q h)

theorem splitAtChar_ne_nil (sep : Char) (s : String) : splitAtChar sep s ≠ [] := by
  rw [splitAtChar, pieces_eq_splitOn]
  simp

theorem not_mem_of_mem_splitAtChar {s p : String} (h : p ∈ splitAtChar sep s) :
    sep ∉ p.toList := by
  obtain ⟨q, hq, rfl⟩ := List.mem_map.1 h
  rw [String.toList_ofList]
  exact not_mem_of_mem_pieces hq

theorem intercalate_splitAtChar (sep : Char) (s : String) :
    (String.singleton sep).intercalate (splitAtChar sep s) = s := by
  rw [← String.toList_inj, String.toList_intercalate, String.toList_singleton, splitAtChar,
    List.map_map, pieces_eq_splitOn]
  simp [Function.comp_def, List.intercalate_splitOn]

/-- Texts without the separator are the parts of what they make up with it. -/
theorem splitAtChar_intercalate {ps : List String} (hne : ps ≠ []) (h : ∀ p ∈ ps, sep ∉ p.toList) :
    splitAtChar sep ((String.singleton sep).intercalate ps) = ps := by
  rw [splitAtChar, pieces_eq_splitOn, String.toList_intercalate, String.toList_singleton,
    List.splitOn_intercalate sep (by simpa using h) (by simpa using hne), List.map_map]
  simp [Function.comp_def]

end FieldQuery
