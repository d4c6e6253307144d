/-!
# Blanks

A blank separates words. Blanks are the 25 characters of the Unicode property White_Space, so a
no-break space separates words and a zero-width space does not.
-/

namespace FieldQuery

/-- The closed ranges of blanks, ascending and apart. -/
def blankRanges : List (Nat × Nat) :=
  [(0x9, 0xD), (0x20, 0x20), (0x85, 0x85), (0xA0, 0xA0), (0x1680, 0x1680), (0x2000, 0x200A),
    (0x2028, 0x2029), (0x202F, 0x202F), (0x205F, 0x205F), (0x3000, 0x3000)]

def isBlank (c : Char) : Bool :=
  blankRanges.any fun r => r.1 ≤ c.toNat && c.toNat ≤ r.2

def trimEnd (s : String) : String :=
  String.ofList (s.toList.reverse.dropWhile isBlank).reverse

theorem trimEnd_isPrefix (s : String) : (trimEnd s).toList <+: s.toList := by
  have h := List.dropWhile_suffix (l := s.toList.reverse) isBlank
  rw [trimEnd, String.toList_ofList]
  simpa using List.reverse_prefix.2 h

/-- Trimming stops where the text has something else than a blank. -/
theorem trimEnd_append {s : String} (h : ∀ c ∈ s.toList.getLast?, isBlank c = false)
    (t : String) : trimEnd (s ++ t) = s ++ trimEnd t := by
  have hs : s.toList.reverse.dropWhile isBlank = s.toList.reverse := by
    rw [← List.head?_reverse] at h
    rcases hrev : s.toList.reverse with _ | ⟨c, cs⟩
    · rfl
    · have hc : isBlank c = false := h c (by simp [hrev])
      simp [hc]
  rw [← String.toList_inj]
  simp only [trimEnd, String.toList_append, String.toList_ofList, List.reverse_append,
    List.dropWhile_append, hs]
  split
  · rename_i hempty
    simp [List.isEmpty_iff.1 hempty]
  · simp

theorem trimEnd_eq_self {s : String} (h : ∀ c ∈ s.toList.getLast?, isBlank c = false) :
    trimEnd s = s := by
  have hnil := trimEnd_append h ""
  rwa [String.append_empty, show trimEnd "" = "" from rfl, String.append_empty] at hnil

def trim (s : String) : String :=
  trimEnd (String.ofList (s.toList.dropWhile isBlank))

def hasBlank (s : String) : Bool :=
  s.toList.any isBlank

/-- A text is blank when nothing is left of it after trimming. -/
def isBlankText (s : String) : Bool :=
  s.toList.all isBlank

end FieldQuery
