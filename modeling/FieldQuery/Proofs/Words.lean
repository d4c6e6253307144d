import FieldQuery.Proofs.Spacing

/-!
# Lines without quotes

The tokens of a line without quotes are the words of the line, because a blank in a token would need
quotes around it (`Line.words_of_read`). A line made of words with single spaces between them has
these words for its tokens (`Line.read_words`).
-/

namespace FieldQuery

/-- The token is a word, and stands for itself. -/
structure Token.Plain (t : Token) : Prop where
  word : IsWord t.text
  literal : t.literal = false

theorem Token.Plain.unquoted {t : Token} (h : t.Plain) : t.unquoted = t.text := by
  simp [Token.unquoted, h.literal]

theorem Token.Whole.plain {t : Token} (h : t.Whole) (hw : IsWord t.text) : t.Plain :=
  ⟨hw, h.literal.trans hw.no_literal⟩

/-- A blank would need quotes around it. -/
theorem IsTokenText.isWord {s : String} (h : IsTokenText s)
    (hq : ∀ c ∈ s.toList, isQuote c = false) : IsWord s := by
  refine ⟨h.nonempty, fun c hc => ?_, hq⟩
  by_contra hblank
  obtain ⟨before, after, hs⟩ := List.append_of_mem hc
  obtain ⟨q, outer, inner, -, -, hquote, rfl, -⟩ := h.enclosed hs (by simpa using hblank)
  have hnone := hq q (by simp [hs])
  simp [hquote] at hnone

namespace Line

theorem words_of_read {s : String} {l : Line} (hread : read s = .ok l)
    (hq : ∀ c ∈ s.toList, isQuote c = false) : ∀ t ∈ l.tokens, t.Plain := by
  intro t ht
  have hwhole := whole_of_read hread t ht
  obtain ⟨before, after, hs, -⟩ := (tiled_of_read hread).spans t ht
  exact hwhole.plain (hwhole.text.isWord fun c hc => hq c (by simp [hs, hc]))

theorem read_words {ws : List String} (hws : ∀ w ∈ ws, IsWord w) :
    ∃ l, read (" ".intercalate ws) = .ok l ∧ l.tokens.map (·.text) = ws
      ∧ ∀ t ∈ l.tokens, t.Plain := by
  have hjoined := unplaced_joined isBlank_of_mem_space (by decide)
    fun w hw => (hws w hw).isTokenText
  rcases hread : read (" ".intercalate ws) with e | l
  · simp [hread, Except.map] at hjoined
  · have hunplaced : l.unplaced = ws.map Token.ofText := by
      simpa [hread, Except.map] using hjoined
    have htexts : l.tokens.map (·.text) = ws := by
      have h := congrArg (List.map Token.text) hunplaced
      simpa [unplaced, Token.unplaced, Token.ofText, Function.comp_def] using h
    refine ⟨l, rfl, htexts, fun t ht => ?_⟩
    exact (whole_of_read hread t ht).plain (hws _ (htexts ▸ List.mem_map_of_mem ht))

end Line

end FieldQuery
