/-!
# Offsets

Places in a text are counted in the bytes of its UTF-8 form. An offset inside a character is no
place in the text: a cut there keeps the characters that fit, and `cutAt?` refuses it.
-/

namespace FieldQuery

def utf8Length : List Char → Nat
  | [] => 0
  | c :: cs => c.utf8Size + utf8Length cs

theorem length_le_utf8Length : ∀ cs : List Char, cs.length ≤ utf8Length cs
  | [] => Nat.le_refl 0
  | c :: cs => by
    have hc := c.utf8Size_pos
    have hcs := length_le_utf8Length cs
    rw [List.length_cons, utf8Length]
    omega

/-- The longest start of the text that takes at most `n` bytes. -/
def takeBytes : Nat → List Char → List Char
  | _, [] => []
  | n, c :: cs => if c.utf8Size ≤ n then c :: takeBytes (n - c.utf8Size) cs else []

/-- The two parts of the text at offset `n`, if a character starts or the text ends there. -/
def cutAt? : Nat → List Char → Option (List Char × List Char)
  | 0, cs => some ([], cs)
  | _ + 1, [] => none
  | n + 1, c :: cs =>
    if c.utf8Size ≤ n + 1 then
      (cutAt? (n + 1 - c.utf8Size) cs).map fun p => (c :: p.1, p.2)
    else none

theorem cutAt?_append : ∀ as bs : List Char, cutAt? (utf8Length as) (as ++ bs) = some (as, bs)
  | [], bs => by simp [utf8Length, cutAt?]
  | a :: as, bs => by
    have ha := a.utf8Size_pos
    have hlength : utf8Length (a :: as) = a.utf8Size + utf8Length as - 1 + 1 := by
      rw [utf8Length]
      omega
    have hrest : a.utf8Size + utf8Length as - 1 + 1 - a.utf8Size = utf8Length as := by omega
    rw [hlength, List.cons_append, cutAt?, if_pos (by omega), hrest, cutAt?_append as bs]
    rfl

end FieldQuery
