import FieldQuery.Proofs.OneClause
import FieldQuery.Proofs.Quoting

/-!
# Quoted text in queries

A text between two quotes of a kind that it does not contain is one token, which stands for the
text, so as a query it is free text and behind a comparator it is the value. It should be printed so
that it is read back. It is printed in double quotes if it is empty or has a blank, and as it is
otherwise: quotes in it are missed, and so are the spellings of connectives. The printed form is
read as the text again exactly if the text is denotable (`Denotable.read_quoteIfNeeded`,
`denotable_of_read`). A text that is spelled like a connective is read as the connective, unless a
comparator stands before it (`Registry.validateText_quoted_and`).
-/

namespace FieldQuery

theorem Connective.isWord_of_ofWord? {s : String} (h : (ofWord? s).isSome) : IsWord s := by
  unfold ofWord? at h
  split at h <;> first | decide | simp at h

theorem Token.no_quote_of_isConnective {t : Token} (h : t.isConnective) {c : Char}
    (hc : c ∈ t.text.toList) : isQuote c = false :=
  (Connective.isWord_of_ofWord? h).noQuote c hc

/-! ## Printed texts -/

theorem quoteIfNeeded_eq (t : String) :
    quoteIfNeeded t = if t = "" ∨ hasBlank t then inQuotes '"' t else t := by
  simp only [quoteIfNeeded, doubleQuoted_eq, Bool.or_eq_true, String.isEmpty_iff]

theorem Connective.ofWord?_quoteIfNeeded (t : String) : ofWord? (quoteIfNeeded t) = ofWord? t := by
  rcases ht : ofWord? t with _ | c
  · rw [quoteIfNeeded_eq]
    split_ifs
    · by_contra hne
      have hword := isWord_of_ofWord? (Option.isSome_iff_ne_none.2 hne)
      have hquote := hword.noQuote '"' (by simp [toList_inQuotes])
      simp [isQuote] at hquote
    · exact ht
  · rw [quoteIfNeeded_of_isWord (isWord_of_ofWord? (by simp [ht])), ht]

theorem Denotable.isTokenText_quoteIfNeeded {t : String} (h : Denotable t) :
    IsTokenText (quoteIfNeeded t) := by
  by_cases ht : t = ""
  · subst ht
    exact ⟨by decide, by decide, by decide⟩
  · simpa [quoteIfNeeded_eq, ht, valueCandidate, doubleQuoted_eq] using h.isTokenText ht

theorem denotable_iff_of_isTokenText {t : String} (h : IsTokenText (quoteIfNeeded t)) {u : Token}
    (hu : u.text = quoteIfNeeded t)
    (hl : u.literal = (quoteIfNeeded t).toList.head?.any isQuote) :
    Denotable t ↔ u.unquoted = t := by
  by_cases ht : t = ""
  · subst ht
    have hliteral : u.literal := by rw [hl]; decide
    refine iff_of_true (by decide) ?_
    rw [Token.unquoted, if_pos hliteral, hu]
    decide
  · have htext : quoteIfNeeded t = (valueCandidate t).text := by
      simp [quoteIfNeeded_eq, ht, valueCandidate, doubleQuoted_eq]
    rw [htext] at h hu hl
    exact denotable_iff_unquoted h hu hl

namespace Line

variable {s : String} {l : Line}

theorem isTokenText_of_single {t : Token} (h : read s = .ok l) (ht : l.tokens = [t])
    (hfirst : ∀ c ∈ s.toList.head?, isBlank c = false)
    (hlast : ∀ c ∈ s.toList.getLast?, isBlank c = false) : IsTokenText s := by
  have hempty : read "" = .ok { input := "", tokens := [] } := rfl
  obtain ⟨l₁, n₁, h₁, ht₁⟩ := read_spaced hempty h
  obtain ⟨l₂, n₂, h₂, ht₂⟩ := read_spaced h₁ hempty
  rw [String.append_empty] at h₂
  have hclosed : l₂.closedTokens = [] ++ [(t.moved n₁).ended] := by
    simp [closedTokens, ht₂, ht₁, ht, Token.ended]
  have hgap : Reader.run "".toList = { offset := 0, tokens := [] } := rfl
  refine isTokenText_of_read hgap h₂ hclosed ?_ hfirst hlast
  intro hs
  obtain rfl : s = "" := String.toList_inj.1 hs
  obtain rfl := Except.ok.inj (hempty.symm.trans h)
  simp at ht

theorem isTokenText_of_no_blank (h : read s = .ok l) (hne : s ≠ "") (hs : hasBlank s = false) :
    IsTokenText s :=
  (isTokenText_iff_of_no_blank hs hne).2 (closed_of_read h)

/-- No token at the ends of a text in quotes is a connective. -/
theorem isTokenText_of_quoted {q : Char} (hq : isQuote q) {t : String} {front back : List Token}
    {u : Token} (h : read (inQuotes q t) = .ok l) (hl : l.tokens = front ++ u :: back)
    (hfront : ∀ v ∈ front, v.isConnective) (hback : ∀ v ∈ back, v.isConnective) :
    IsTokenText (inQuotes q t) := by
  have hblank : isBlank q = false := isBlank_of_isQuote hq
  have hlist := toList_inQuotes q t
  have htexts := texts_of_read h
  have hno : ∀ v : Token, v.isConnective → q ∉ v.text.toList := by
    intro v hv hmem
    simp [Token.no_quote_of_isConnective hv hmem] at hq
  obtain ⟨w, ws, hw, hfirst⟩ := Reader.head_words hblank (t.toList ++ [q])
  obtain ⟨vs, v, hv, hlast⟩ := Reader.getLast_words hblank (q :: t.toList)
  rw [← hlist] at hw
  rw [List.cons_append, ← hlist] at hv
  obtain rfl : front = [] := by
    by_contra hne
    obtain ⟨a, front, rfl⟩ := List.exists_cons_of_ne_nil hne
    obtain ⟨ha, -⟩ : a.text = w ∧ _ := by simpa [hl, hw] using htexts
    exact hno a (hfront a List.mem_cons_self) (ha ▸ List.mem_of_mem_head? hfirst)
  obtain rfl : back = [] := by
    rcases List.eq_nil_or_concat back with hback' | ⟨back, b, rfl⟩
    · exact hback'
    · have hb : b.text = v := by
        simpa [hl, hv, List.getLast?_cons] using congrArg List.getLast? htexts
      exact absurd (hb ▸ List.mem_of_mem_getLast? hlast) (hno b (hback b (by simp)))
  refine isTokenText_of_single h hl ?_ ?_
  · simp [hlist, hblank]
  · rw [hlist, ← List.cons_append, List.getLast?_concat]
    simp [hblank]

end Line

/-- A denotable text is printed as one token that stands for it. -/
theorem Denotable.read_quoteIfNeeded {t : String} (h : Denotable t) : ∃ l u,
    Line.read (quoteIfNeeded t) = .ok l ∧ l.tokens = [u] ∧ u.text = quoteIfNeeded t
      ∧ u.unquoted = t := by
  have htext := h.isTokenText_quoteIfNeeded
  obtain ⟨l, u, hread, hl, hu, hliteral⟩ := Line.read_tokenText htext
  exact ⟨l, u, hread, hl, hu, (denotable_iff_of_isTokenText htext hu hliteral).1 h⟩

/-- Only a denotable text is read off what is printed for it, whatever connectives come with it. -/
theorem denotable_of_read {t : String} {l : Line} {front back : List Token} {u : Token}
    (hread : Line.read (quoteIfNeeded t) = .ok l) (hl : l.tokens = front ++ u :: back)
    (hfront : ∀ v ∈ front, v.isConnective) (hback : ∀ v ∈ back, v.isConnective)
    (hu : u.unquoted = t) : Denotable t ∧ u.text = quoteIfNeeded t := by
  have htext : IsTokenText (quoteIfNeeded t) := by
    rw [quoteIfNeeded_eq] at hread ⊢
    split_ifs at hread ⊢ with ht
    · exact Line.isTokenText_of_quoted (by decide) hread hl hfront hback
    · rw [not_or, Bool.not_eq_true] at ht
      exact Line.isTokenText_of_no_blank hread ht.1 ht.2
  obtain ⟨l', u', hread', hl', hu', hliteral⟩ := Line.read_tokenText htext
  obtain rfl : l = l' := Except.ok.inj (hread.symm.trans hread')
  obtain rfl : u = u' := by
    have hmem : u ∈ l.tokens := by simp [hl]
    simpa [hl'] using hmem
  exact ⟨(denotable_iff_of_isTokenText htext hu' hliteral).2 hu, hu'⟩

namespace Registry

variable {r : Registry}

theorem validateText_ok_iff {mode : ValidationMode} {s : String} {q : Query} :
    r.validateText mode s = .ok q
      ↔ ∃ l, Line.read s = .ok l ∧ r.validate mode l.tokens = .ok q := by
  rw [validateText]
  rcases hread : Line.read s with e | l
  · cases e
    simp
  · simp

theorem validateText_freeText_iff {s t : String} :
    r.validateText .full s = .ok { clauses := [.freeText t] } ↔ ∃ l front u back,
      Line.read s = .ok l ∧ l.tokens = front ++ u :: back ∧ (∀ v ∈ front, v.isConnective)
        ∧ (∀ v ∈ back, v.isConnective) ∧ Connective.ofWord? u.text = none ∧ u.unquoted = t := by
  simp only [validateText_ok_iff, validate_freeText_iff]
  constructor
  · rintro ⟨l, hread, front, u, back, h⟩
    exact ⟨l, front, u, back, hread, h⟩
  · rintro ⟨l, front, u, back, hread, h⟩
    exact ⟨l, hread, front, u, back, h⟩

/-- Behind a name of the field and a comparator of its type, `s` is the value `t`. -/
theorem validateText_value_iff {name : String} (hname : IsPlainWord name) {f : Field}
    (hf : r.checkField name = .ok f) {c : Comparator} (hc : f.checkComparator c.symbol = .ok c)
    {t : String} (hvalue : f.checkValue c t = .ok ()) {s : String} :
    r.validateText .full (name ++ " " ++ c.symbol ++ " " ++ s)
        = .ok { clauses := [.comparison f.name c t] } ↔
      ∃ l u back, Line.read s = .ok l ∧ l.tokens = u :: back ∧ (∀ v ∈ back, v.isConnective)
        ∧ u.unquoted = t := by
  obtain ⟨lname, n, hname', htokens, hn, hliteral⟩ := Line.read_tokenText hname.isTokenText
  obtain ⟨symbol, m, hs, hsliteral, heq⟩ := Line.tokens_between hname' c.isWord_symbol.isTokenText s
  rw [hname.no_literal] at hliteral
  rw [c.isWord_symbol.no_literal] at hsliteral
  have hisName : n.ended.isName := hname.isName hn hliteral
  simp only [validateText_ok_iff, validate_comparison_iff]
  rw [htokens] at heq
  constructor
  · rintro ⟨l, hread, front, name', symbol', value, back, g, hl, hfront, hback, -, -, -, -, -, -,
      ht⟩
    rcases hs' : Line.read s with e | l'
    · simp [hread, hs', Except.map] at heq
    · have htokens' : l.tokens = n.ended :: symbol :: l'.tokens.map (Token.moved m) := by
        simpa [hread, hs', Except.map] using heq
      rw [hl] at htokens'
      cases front with
      | nil =>
        obtain ⟨-, -, hvalue⟩ : name' = n.ended ∧ symbol' = symbol
          ∧ value :: back = l'.tokens.map (Token.moved m) := by simpa using htokens'
        obtain ⟨u, us, hus, rfl, rfl⟩ := List.map_eq_cons_iff.1 hvalue.symm
        exact ⟨l', u, us, rfl, hus, fun v hv => hback (v.moved m) (List.mem_map_of_mem hv), ht⟩
      | cons a front =>
        obtain ⟨rfl, -⟩ := List.cons.inj htokens'
        exact absurd hisName (Token.not_isName_of_connective (hfront _ List.mem_cons_self))
  · rintro ⟨l', u, back, hread, hl, hback, ht⟩
    rcases hwhole : Line.read (name ++ " " ++ c.symbol ++ " " ++ s) with e | l
    · simp [hread, hwhole, Except.map] at heq
    · refine ⟨l, rfl, [], n.ended, symbol, u.moved m, back.map (Token.moved m), f, ?_, by simp,
        ?_, hisName, Comparator.isSymbol_symbol hs hsliteral, ?_, rfl, ?_, hvalue, ht⟩
      · simpa [hread, hwhole, hl, Except.map] using heq
      · exact List.forall_mem_map.2 hback
      · rw [Token.ended_text, hn, hf]
      · rw [hs, hc]

/-- Printed free text is read back exactly if it is denotable and does not read as a connective. -/
theorem validateText_freeText_text_iff {t : String} :
    r.validateText .full (Query.text { clauses := [.freeText t] })
        = .ok { clauses := [.freeText t] } ↔ Denotable t ∧ Connective.ofWord? t = none := by
  have htext : Query.text { clauses := [.freeText t] } = quoteIfNeeded t :=
    String.intercalate_singleton
  rw [htext, validateText_freeText_iff]
  constructor
  · rintro ⟨l, front, u, back, hread, hl, hfront, hback, hc, hu⟩
    obtain ⟨hdenotable, hu'⟩ := denotable_of_read hread hl hfront hback hu
    rw [hu', Connective.ofWord?_quoteIfNeeded] at hc
    exact ⟨hdenotable, hc⟩
  · rintro ⟨hdenotable, hc⟩
    obtain ⟨l, u, hread, hl, hu, hunquoted⟩ := hdenotable.read_quoteIfNeeded
    rw [← Connective.ofWord?_quoteIfNeeded, ← hu] at hc
    exact ⟨l, [], u, [], hread, hl, by simp, by simp, hc, hunquoted⟩

/-- A printed comparison is read back exactly if its value is denotable. -/
theorem validateText_comparison_text_iff {f : Field} (hname : IsPlainWord f.name)
    (hf : r.checkField f.name = .ok f) {c : Comparator} (hc : f.checkComparator c.symbol = .ok c)
    {t : String} (hvalue : f.checkValue c t = .ok ()) :
    r.validateText .full (Query.text { clauses := [.comparison f.name c t] })
        = .ok { clauses := [.comparison f.name c t] } ↔ Denotable t := by
  have htext : Query.text { clauses := [.comparison f.name c t] }
      = f.name ++ " " ++ c.symbol ++ " " ++ quoteIfNeeded t := String.intercalate_singleton
  rw [htext, validateText_value_iff hname hf hc hvalue]
  constructor
  · rintro ⟨l, u, back, hread, hl, hback, hu⟩
    exact (denotable_of_read hread (hl.trans (List.nil_append _).symm) (by simp) hback hu).1
  · intro hdenotable
    obtain ⟨l, u, hread, hl, -, hunquoted⟩ := hdenotable.read_quoteIfNeeded
    exact ⟨l, u, [], hread, hl, by simp, hunquoted⟩

/-- A quoted text is free text, and a value behind a comparator. What is printed for it is read back
exactly if the text is denotable and, as free text, is not spelled like a connective. -/
theorem validateText_quoted (hb : r.Built) {q : Char} (hq : isQuote q) {t : String}
    (ht : q ∉ t.toList) :
    (r.validateText .full (inQuotes q t) = .ok { clauses := [.freeText t] }
      ∧ (r.validateText .full (Query.text { clauses := [.freeText t] })
          = .ok { clauses := [.freeText t] } ↔ Denotable t ∧ Connective.ofWord? t = none))
    ∧ ∀ f ∈ r.fields, f.completionEnabled → f.type = .string → IsPlainWord f.name →
      r.validateText .full (f.name ++ " = " ++ inQuotes q t)
          = .ok { clauses := [.comparison f.name .eq t] }
        ∧ (r.validateText .full (Query.text { clauses := [.comparison f.name .eq t] })
          = .ok { clauses := [.comparison f.name .eq t] } ↔ Denotable t) := by
  have htext : IsTokenText (inQuotes q t) :=
    (isTokenText_inQuotes_iff hq).2 (Reader.sheltered_of_not_mem ht)
  obtain ⟨l, u, hread, hl, hu, hliteral⟩ := Line.read_tokenText htext
  have hunquoted : u.unquoted = t := by
    have hquote : u.literal := by simp [hliteral, toList_inQuotes, hq]
    rw [Token.unquoted, if_pos hquote, hu, toList_inQuotes, stripEnds_quoted, String.ofList_toList]
  have hconnective : Connective.ofWord? u.text = none := by
    by_contra hne
    have hno := Token.no_quote_of_isConnective (t := u) (Option.isSome_iff_ne_none.2 hne) (c := q)
      (by simp [hu, toList_inQuotes])
    simp [hq] at hno
  refine ⟨⟨?_, validateText_freeText_text_iff⟩, fun f hmem henabled htype hname => ?_⟩
  · exact validateText_freeText_iff.2
      ⟨l, [], u, [], hread, hl, by simp, by simp, hconnective, hunquoted⟩
  · have hf : r.checkField f.name = .ok f :=
      checkField_ok_iff.2 ⟨hb.resolve? hmem List.mem_cons_self, henabled⟩
    have hc : f.checkComparator Comparator.eq.symbol = .ok .eq :=
      checkComparator_symbol (by simp [htype, FieldType.comparators])
    have hvalue : f.checkValue .eq t = .ok () := by
      simp [Field.checkValue, Comparator.items, Comparator.takesList, htype, FieldType.accepts]
    have hspaced : f.name ++ " = " ++ inQuotes q t
        = f.name ++ " " ++ Comparator.eq.symbol ++ " " ++ inQuotes q t := by
      rw [show " = " = " " ++ Comparator.eq.symbol ++ " " from rfl, ← String.append_assoc,
        ← String.append_assoc]
    rw [hspaced, validateText_value_iff hname hf hc hvalue]
    exact ⟨⟨l, u, [], hread, hl, by simp, hunquoted⟩,
      validateText_comparison_text_iff hname hf hc hvalue⟩

def shelf : Registry where
  name := "shelf"
  fields := [{ name := "title", type := .string, aliases := ["t"] }]

/-- The blank makes for double quotes, and inside these the apostrophe is one more character. -/
theorem validateText_quoted_shelf : shelf.Built ∧ isQuote '"' ∧ '"' ∉ "the O'Briens".toList
    ∧ shelf.validateText .full (inQuotes '"' "the O'Briens")
        = .ok { clauses := [.freeText "the O'Briens"] }
    ∧ shelf.validateText .full (Query.text { clauses := [.freeText "the O'Briens"] })
        = .ok { clauses := [.freeText "the O'Briens"] }
    ∧ ∃ f ∈ shelf.fields, f.completionEnabled ∧ f.type = .string ∧ IsPlainWord f.name
      ∧ shelf.validateText .full (f.name ++ " = " ++ inQuotes '"' "the O'Briens")
          = .ok { clauses := [.comparison f.name .eq "the O'Briens"] }
      ∧ shelf.validateText .full
            (Query.text { clauses := [.comparison f.name .eq "the O'Briens"] })
          = .ok { clauses := [.comparison f.name .eq "the O'Briens"] } := by
  have hb : shelf.Built := ⟨{ name := "shelf", fields := shelf.fields }, by decide⟩
  have ht : '"' ∉ "the O'Briens".toList := by decide
  obtain ⟨⟨hread, hprinted⟩, h⟩ := validateText_quoted hb (q := '"') (by decide) ht
  obtain ⟨hread', hprinted'⟩ := h _ List.mem_cons_self rfl rfl (by decide)
  exact ⟨hb, by decide, ht, hread, hprinted.2 ⟨by decide, rfl⟩, _, List.mem_cons_self, rfl, rfl,
    by decide, hread', hprinted'.2 (by decide)⟩

/-- The keyword and the apostrophe are missed: printed as they are, `and` is read as a connective,
and `O'Brien` leaves a quote open. -/
theorem validateText_quoted_and :
    shelf.validateText .full "'and'" = .ok { clauses := [.freeText "and"] }
      ∧ shelf.validateText .full (Query.text { clauses := [.freeText "and"] }) = .ok {}
      ∧ shelf.validateText .full "title = \"O'Brien\""
          = .ok { clauses := [.comparison "title" .eq "O'Brien"] }
      ∧ shelf.validateText .full (Query.text { clauses := [.comparison "title" .eq "O'Brien"] })
          = .error .unterminatedLiteral := by
  decide +kernel

end Registry

end FieldQuery
