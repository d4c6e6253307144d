import FieldQuery.Proofs.Phrases
import FieldQuery.Proofs.Tiling

/-!
# Literals whose quotes cannot be cut off

The quotes of a literal are cut off as its first and its last byte. That gives its text without the
quotes, unless the token only claims to be a literal and starts with a character of several bytes
(`Token.unquoted?_eq_none_iff`). Validation of any tokens comes to what it would come to in a line,
or stops at a token that cannot be cut (`Registry.validateAny_or`). The literals of a line start
with their quote, so the tokens of a line never stop it (`Registry.validateAny_of_read`).
-/

namespace FieldQuery

/-! ## One token -/

namespace Token

variable {t : Token}

/-- The token claims to be a literal, and what should be its quote takes several bytes. -/
def Uncut (t : Token) : Prop :=
  t.literal ∧ ∃ c ∈ t.text.toList.head?, c.utf8Size ≠ 1

theorem unquoted?_of_literal {c : Char} {cs : List Char} (hl : t.literal)
    (htext : t.text.toList = c :: cs) (hc : c.utf8Size = 1) : t.unquoted? = some t.unquoted := by
  have hself : String.ofList (c :: cs) = t.text := by rw [← htext, String.ofList_toList]
  rcases List.eq_nil_or_concat cs with rfl | ⟨ds, d, rfl⟩
  · simp [unquoted?, unquoted, hl, htext, utf8Length, hc, stripEnds, hself]
  · rw [List.concat_eq_append] at htext hself
    have hlength : utf8Length (c :: (ds ++ [d])) = 1 + (utf8Length ds + d.utf8Size) := by
      simp [utf8Length, utf8Length_append, hc]
    have hlong : 2 ≤ utf8Length (c :: (ds ++ [d])) := by
      have hd := d.utf8Size_pos
      omega
    have hcut : cutAt? 1 (c :: (ds ++ [d])) = some ([c], ds ++ [d]) := by simp [cutAt?, hc]
    by_cases hsame : c = d
    · -- the same quote stands at both ends, and takes one byte there too
      subst hsame
      have hinner : cutAt? (utf8Length (c :: (ds ++ [c])) - 2) (ds ++ [c]) = some (ds, [c]) := by
        rw [hlength, hc, show 1 + (utf8Length ds + 1) - 2 = utf8Length ds by omega, cutAt?_append]
      simp [unquoted?, unquoted, hl, htext, hlong, hcut, hinner, List.isSuffixOf, stripEnds]
    · have hwhole : t.unquoted = t.text := by
        rw [unquoted, if_pos hl, htext, stripEnds, if_neg (by simp [Ne.symm hsame]), hself]
      simp [unquoted?, hl, htext, hlong, hcut, hwhole, List.isSuffixOf, hsame]

theorem unquoted?_of_uncut (h : t.Uncut) : t.unquoted? = none := by
  obtain ⟨hl, c, hhead, hc⟩ := h
  obtain ⟨cs, htext⟩ := List.head?_eq_some_iff.1 hhead
  have hpos := c.utf8Size_pos
  have hlong : 2 ≤ utf8Length (c :: cs) := by
    rw [utf8Length]
    omega
  have hcut : cutAt? 1 (c :: cs) = none := by
    rw [cutAt?, if_neg (by omega)]
  simp [unquoted?, hl, htext, hlong, hcut]

/-- Every other token gives its text, without the quotes of a literal. -/
theorem unquoted?_of_not_uncut (h : ¬ t.Uncut) : t.unquoted? = some t.unquoted := by
  by_cases hl : t.literal
  · rcases htext : t.text.toList with _ | ⟨c, cs⟩
    · have hempty : t.text = "" := by simpa using htext
      simp [unquoted?, unquoted, hl, hempty, utf8Length, stripEnds]
    · refine unquoted?_of_literal hl htext (Decidable.not_not.1 fun hc => h ⟨hl, c, ?_, hc⟩)
      simp [htext]
  · simp [unquoted?, unquoted, hl]

theorem unquoted?_eq_none_iff : t.unquoted? = none ↔ t.Uncut := by
  refine ⟨fun h => by_contra fun hcut => ?_, unquoted?_of_uncut⟩
  simp [unquoted?_of_not_uncut hcut] at h

end Token

/-! ## Tokens from anywhere -/

/-- What is read off the tokens is what would be read off tokens of a line, or reading stops at one
of them, which cannot be cut. -/
def ReadsAsLine {α : Type} (ts : List Token) (x : Except Halt α) (y : Except ValidationError α) :
    Prop :=
  x = y.mapError .invalid ∨ ∃ t ∈ ts, t.Uncut ∧ x = .error (.uncut t)

namespace ReadsAsLine

variable {α β : Type} {ts : List Token}

theorem unquote {t : Token} (ht : t ∈ ts) :
    ReadsAsLine ts (Reading.any.unquote t) (Reading.ofLine.unquote t) := by
  by_cases h : t.Uncut
  · exact .inr ⟨t, ht, h, by simp [Reading.any, Token.unquoted?_of_uncut h]⟩
  · exact .inl (by simp [Reading.any, Reading.ofLine, Token.unquoted?_of_not_uncut h,
      Except.mapError])

theorem invalid (y : Except ValidationError α) :
    ReadsAsLine ts (y.mapError Reading.any.invalid) (y.mapError Reading.ofLine.invalid) := by
  rw [Reading.mapError_ofLine]
  exact .inl rfl

theorem ok (a : α) : ReadsAsLine ts (.ok a) (.ok a) :=
  .inl rfl

theorem bind {x : Except Halt α} {y : Except ValidationError α} {f : α → Except Halt β}
    {g : α → Except ValidationError β} (h : ReadsAsLine ts x y)
    (hf : ∀ a, ReadsAsLine ts (f a) (g a)) : ReadsAsLine ts (x >>= f) (y >>= g) := by
  rcases h with rfl | ⟨t, ht, hcut, rfl⟩
  · rcases y with err | a
    · exact .inl rfl
    · exact hf a
  · exact .inr ⟨t, ht, hcut, rfl⟩

end ReadsAsLine

namespace Registry

variable (r : Registry) (mode : ValidationMode) {ts : List Token}

theorem comparison_any {value : Token} (hvalue : value ∈ ts) (name symbol : Token) :
    ReadsAsLine ts (r.comparison .any mode name symbol value)
      (r.comparison .ofLine mode name symbol value) := by
  refine .bind (.invalid _) fun f => .bind (.invalid _) fun c => .bind (.unquote hvalue)
    fun text => ?_
  cases mode with
  | full => exact .bind (.invalid _) fun _ => .ok _
  | fieldsOnly => exact .ok _

theorem danglingComparison_any (name symbol : Token) :
    ReadsAsLine ts (r.danglingComparison .any mode name symbol)
      (r.danglingComparison .ofLine mode name symbol) := by
  refine .bind (.invalid _) fun f => .bind (.invalid _) fun c => ?_
  cases mode with
  | full => exact .inl rfl
  | fieldsOnly => exact .ok ()

theorem addClauses_any (q : Query) (l : List (Token × TokenKind)) (hl : ∀ x ∈ l, x.1 ∈ ts) :
    ReadsAsLine ts (r.addClauses .any mode q l) (r.addClauses .ofLine mode q l) := by
  fun_induction addClauses .any r mode q l with
  | case1 q => exact .ok q
  | case2 q t rest ih => exact ih fun x hx => hl x (List.mem_cons_of_mem _ hx)
  | case3 q t name rest ih =>
    rw [addClauses]
    exact .bind (.invalid _) fun f => ih f fun x hx => hl x (by simp [hx])
  | case4 q name symbol value kind rest ih =>
    rw [addClauses]
    refine .bind (r.comparison_any mode (hl (value, kind) (by simp)) name symbol) fun clause => ?_
    exact ih clause fun x hx => hl x (by simp [hx])
  | case5 q name symbol =>
    rw [addClauses]
    exact .bind (r.danglingComparison_any mode name symbol) fun _ => .ok q
  | case6 q t kind rest h1 h2 h3 h4 ih =>
    rw [addClauses]
    · refine .bind (.unquote (hl (t, kind) List.mem_cons_self)) fun text => ?_
      exact ih text fun x hx => hl x (List.mem_cons_of_mem _ hx)
    all_goals assumption

/-- Validation of any tokens comes to what it would come to in a line, or stops at a token that
cannot be cut. -/
theorem validateAny_or (ts : List Token) :
    r.validateAny mode ts = (r.validate mode ts).mapError .invalid
      ∨ ∃ t ∈ ts, t.Uncut ∧ r.validateAny mode ts = .error (.uncut t) := by
  refine ReadsAsLine.bind (r.addClauses_any mode {} _ fun x hx => ?_) fun q => .ok _
  exact (List.of_mem_zip hx).1

theorem validateAny_eq (ts : List Token) (h : ∀ t ∈ ts, ¬ t.Uncut) :
    r.validateAny mode ts = (r.validate mode ts).mapError .invalid := by
  rcases r.validateAny_or mode ts with hline | ⟨t, ht, hcut, -⟩
  · exact hline
  · exact absurd hcut (h t ht)

end Registry

/-! ## Tokens of a line -/

theorem Token.Whole.not_uncut {t : Token} (h : t.Whole) : ¬ t.Uncut := by
  rintro ⟨hl, c, hhead, hc⟩
  rw [Option.mem_def] at hhead
  rw [h.literal, hhead] at hl
  have hquote : c = '"' ∨ c = '\'' := by simpa [isQuote] using hl
  rcases hquote with rfl | rfl <;> exact hc (by decide)

theorem Registry.validateAny_of_read (r : Registry) (mode : ValidationMode) {s : String} {l : Line}
    (h : Line.read s = .ok l) :
    r.validateAny mode l.tokens = (r.validate mode l.tokens).mapError .invalid :=
  r.validateAny_eq mode l.tokens fun t ht => (Line.whole_of_read h t ht).not_uncut

end FieldQuery
