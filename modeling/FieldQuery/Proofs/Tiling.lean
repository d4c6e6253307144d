import FieldQuery.Proofs.Joining

/-!
# How tokens lie in a line

The tokens of a line lie one behind the other with blanks between them, and what they leave out is
blank (`Tiled`). Up to a gap this follows from what has been read up to the gap before it, because
the word in between opens right behind that one (`tiled_run`). A token has blanks only inside quotes
that it closes again (`whole_run`), so nothing of it could have been left out.
-/

namespace FieldQuery

@[simp] theorem OpenWord.token_text (w : OpenWord) (stop : Nat) (closed : Bool) :
    (w.token stop closed).text = w.text := rfl

/-! ## Whole tokens -/

/-- The token is all of what is read as one token, and is a literal if this starts with a quote. -/
structure Token.Whole (t : Token) : Prop where
  text : IsTokenText t.text
  literal : t.literal = t.text.toList.head?.any isQuote

namespace Reader

/-- The tokens that have been read are whole, and the open word may become whole. -/
structure Whole (r : Reader) : Prop where
  tokens : ∀ t ∈ r.tokens, t.Whole
  nonempty : ∀ w ∈ r.word, w.text.toList ≠ []
  sheltered : ∀ w ∈ r.word, sheltered none w.text.toList
  quote : ∀ w ∈ r.word, w.quote = w.text.toList.foldl quoteAfter none

theorem Whole.step {r : Reader} (h : r.Whole) (c : Char) : (r.step c).Whole := by
  obtain ⟨htokens, hne, hsheltered, hquote⟩ := h
  unfold Reader.step
  rcases hw : r.word with _ | w <;> simp only [] <;> split_ifs with hb
  · exact ⟨htokens, by simp, by simp, by simp⟩
  · -- the character opens a word
    simp only [Bool.not_eq_true] at hb
    refine ⟨htokens, ?_, ?_, ?_⟩ <;>
      simp [OpenWord.push, Reader.sheltered, hb]
  · -- the word is at its end
    obtain ⟨hopen, -⟩ : w.quote = none ∧ isBlank c := by simpa using hb
    refine ⟨List.forall_mem_append.2 ⟨htokens, List.forall_mem_singleton.2 ⟨⟨hne w hw,
      hsheltered w hw, (hquote w hw).symm.trans hopen⟩, rfl⟩⟩, by simp, by simp, by simp⟩
  · have hopen : (w.text.toList.foldl quoteAfter none).isSome || !isBlank c := by
      rw [← hquote w hw]
      rcases hq : w.quote with _ | q
      · simpa [hq] using hb
      · rfl
    refine ⟨htokens, ?_, ?_, ?_⟩
    · simp [OpenWord.push]
    · simpa [OpenWord.push, sheltered_append, hsheltered w hw, Reader.sheltered] using hopen
    · simp [OpenWord.push, hquote w hw]

theorem whole_run (cs : List Char) : (run cs).Whole := by
  induction cs using List.reverseRecOn with
  | nil => exact ⟨by simp [run], by simp [run], by simp [run], by simp [run]⟩
  | append_singleton cs c ih =>
    rw [run_concat]
    exact ih.step c

/-- The quote that is open was opened by a character that has not come again since. -/
theorem exists_opening {q : Char} {cs : List Char} (h : cs.foldl quoteAfter none = some q) :
    ∃ before inside, cs = before ++ q :: inside ∧ before.foldl quoteAfter none = none
      ∧ q ∉ inside := by
  induction cs using List.reverseRecOn with
  | nil => simp at h
  | append_singleton cs c ih =>
    rw [List.foldl_append, List.foldl_cons, List.foldl_nil] at h
    rcases hopen : cs.foldl quoteAfter none with _ | p
    · obtain ⟨-, rfl⟩ : isQuote c ∧ c = q := by simpa [hopen, quoteAfter] using h
      exact ⟨cs, [], rfl, hopen, List.not_mem_nil⟩
    · obtain ⟨hne, rfl⟩ : c ≠ p ∧ p = q := by simpa [hopen, quoteAfter] using h
      obtain ⟨before, inside, rfl, hbefore, hq⟩ := ih hopen
      exact ⟨before, inside ++ [c], by simp, hbefore, by simp [hq, hne.symm]⟩

end Reader

/-- A character between these two texts is inside quotes: the last one that is opened before it is
closed behind it. -/
def Enclosed (before after : List Char) : Prop :=
  ∃ q outer inner inner' outer', isQuote q
    ∧ before = outer ++ q :: inner ∧ outer.foldl quoteAfter none = none ∧ q ∉ inner
    ∧ after = inner' ++ q :: outer' ∧ q ∉ inner'

theorem IsTokenText.enclosed {s : String} (h : IsTokenText s) {before after : List Char} {c : Char}
    (hs : s.toList = before ++ c :: after) (hc : isBlank c) : Enclosed before after := by
  have hsheltered := h.sheltered
  have hclosed := h.closed
  rw [hs, Reader.sheltered_append, Bool.and_eq_true] at hsheltered
  rw [hs, List.foldl_append] at hclosed
  rcases hopen : before.foldl quoteAfter none with _ | q
  · simp [hopen, Reader.sheltered, hc] at hsheltered
  · rw [hopen] at hclosed
    obtain ⟨outer, inner, rfl, houter, hinner⟩ := Reader.exists_opening hopen
    have hq : isQuote q := Reader.isQuote_of_foldl_quoteAfter (by simp) hopen
    have hne : q ≠ c := by
      rintro rfl
      simp [isBlank_of_isQuote hq] at hc
    have hmem : q ∈ c :: after := by
      by_contra hmem
      simp [(Reader.sheltered_of_not_mem hmem).2] at hclosed
    obtain ⟨inner', outer', rfl, hinner'⟩ :=
      List.eq_append_cons_of_mem ((List.mem_cons.1 hmem).resolve_left hne)
    exact ⟨q, outer, inner, inner', outer', hq, rfl, houter, hinner, rfl, hinner'⟩

/-! ## Where tokens lie -/

/-- The token is what stands at its span in the text. -/
def Token.LiesIn (t : Token) (cs : List Char) : Prop :=
  ∃ before after, cs = before ++ t.text.toList ++ after ∧ t.start = utf8Length before
    ∧ t.stop = utf8Length (before ++ t.text.toList)

theorem Token.LiesIn.append {t : Token} {cs : List Char} (h : t.LiesIn cs) (ds : List Char) :
    t.LiesIn (cs ++ ds) := by
  obtain ⟨before, after, rfl, hstart, hstop⟩ := h
  exact ⟨before, after ++ ds, by simp, hstart, hstop⟩

theorem Token.LiesIn.start_lt_stop {t : Token} {cs : List Char} (h : t.LiesIn cs)
    (hne : t.text.toList ≠ []) : t.start < t.stop := by
  obtain ⟨before, after, -, hstart, hstop⟩ := h
  obtain ⟨c, ds, hc⟩ := List.exists_cons_of_ne_nil hne
  have hpos := c.utf8Size_pos
  rw [hstart, hstop, utf8Length_append, hc, utf8Length]
  omega

/-- The tokens lie in the text, each behind a gap after the one before it, and what is not blank in
the text lies in one of them. -/
structure Tiled (cs : List Char) (ts : List Token) : Prop where
  spans : ∀ t ∈ ts, t.LiesIn cs
  apart : ts.Pairwise fun t u => t.stop < u.start
  covered : ∀ before c after, cs = before ++ c :: after → isBlank c = false →
    ∃ t ∈ ts, t.start ≤ utf8Length before ∧ utf8Length before < t.stop

namespace Tiled

variable {cs : List Char} {ts : List Token}

theorem blank (h : Tiled cs ts) {c : Char} (hc : isBlank c) : Tiled (cs ++ [c]) ts := by
  refine ⟨fun t ht => (h.spans t ht).append [c], h.apart, fun before d after hcs hd => ?_⟩
  rcases List.eq_nil_or_concat after with rfl | ⟨after, e, rfl⟩
  · obtain ⟨-, rfl⟩ : cs = before ∧ c = d := by simpa using List.append_inj' hcs rfl
    simp [hc] at hd
  · refine h.covered before d after ?_ hd
    rw [List.concat_eq_append, ← List.cons_append, ← List.append_assoc] at hcs
    exact (List.append_inj' hcs rfl).1

theorem token (h : Tiled cs ts) (hstop : ∀ t ∈ ts, t.stop < utf8Length cs) {t : Token}
    (hstart : t.start = utf8Length cs) (htext : t.stop = utf8Length (cs ++ t.text.toList)) :
    Tiled (cs ++ t.text.toList) (ts ++ [t]) := by
  refine ⟨?_, ?_, fun before c after hcs hc => ?_⟩
  · refine List.forall_mem_append.2 ⟨fun u hu => (h.spans u hu).append _, ?_⟩
    exact List.forall_mem_singleton.2 ⟨cs, [], by simp, hstart, htext⟩
  · refine List.pairwise_append.2 ⟨h.apart, List.pairwise_singleton _ _, fun u hu v hv => ?_⟩
    rw [List.mem_singleton.1 hv, hstart]
    exact hstop u hu
  · have hinside : ∀ ds, before = cs ++ ds → t.text.toList = ds ++ c :: after →
        t.start ≤ utf8Length before ∧ utf8Length before < t.stop := by
      rintro ds rfl htail
      have hpos := c.utf8Size_pos
      rw [hstart, htext, htail, ← List.append_assoc, utf8Length_append cs,
        utf8Length_append (cs ++ ds), utf8Length_append cs, utf8Length]
      omega
    rcases List.append_eq_append_iff.1 hcs with ⟨ds, hbefore, htail⟩ | ⟨ds, hbefore, htail⟩
    · exact ⟨t, by simp, hinside ds hbefore htail⟩
    · cases ds with
      | nil => exact ⟨t, by simp, hinside [] (by simpa using hbefore.symm) htail.symm⟩
      | cons d ds =>
        obtain ⟨rfl, rfl⟩ := List.cons.inj htail
        obtain ⟨u, hu, hspan⟩ := h.covered before _ ds hbefore hc
        exact ⟨u, List.mem_append_left _ hu, hspan⟩

end Tiled

namespace Reader

theorem stop_lt_run (cs : List Char) : ∀ t ∈ (run cs).tokens, t.stop < (run cs).offset := by
  induction cs using List.reverseRecOn with
  | nil => simp [run]
  | append_singleton cs c ih =>
    have hpos := c.utf8Size_pos
    have hold : ∀ t ∈ (run cs).tokens, t.stop < (run cs).offset + c.utf8Size := by
      intro t ht
      have hlt := ih t ht
      omega
    rw [run_concat, step_offset]
    unfold step
    rcases (run cs).word with _ | w <;> simp only [] <;> split_ifs
    · exact hold
    · exact hold
    · refine List.forall_mem_append.2 ⟨hold, List.forall_mem_singleton.2 ?_⟩
      simp only [OpenWord.token]
      omega
    · exact hold

/-- The open word lies behind the tokens that have been read, and these tile what stands in front
of it. -/
theorem tiled_word {cs : List Char} {w : OpenWord} (hw : (run cs).word = some w)
    (htiled : ∀ gap, gap.length < cs.length → (run gap).word = none → Tiled gap (run gap).tokens)
    (closed : Bool) : Tiled cs ((run cs).tokens ++ [w.token (run cs).offset closed]) := by
  obtain ⟨gap, hgap⟩ := exists_opened hw
  have hlength : gap.length < cs.length := by
    have hpos := List.length_pos_iff.2 ((whole_run cs).nonempty w hw)
    rw [hgap.line, List.length_append]
    omega
  have hbefore := htiled gap hlength (by rw [hgap.before])
  have hstop := stop_lt_run gap
  rw [run_offset] at hstop
  have hspan : (run cs).offset
      = utf8Length (gap ++ (w.token (run cs).offset closed).text.toList) := by
    rw [OpenWord.token_text, ← hgap.line, run_offset]
  have hword := hbefore.token (t := w.token (run cs).offset closed) hstop hgap.start hspan
  rwa [hgap.before, OpenWord.token_text, ← hgap.line] at hword

/-- Up to a gap, the tokens tile what has been read. -/
theorem tiled_run {cs : List Char} (h : (run cs).word = none) : Tiled cs (run cs).tokens := by
  -- The word that is ended last opens behind a gap further to the left, so this goes by length.
  induction hn : cs.length using Nat.strongRecOn generalizing cs with
  | ind n ih =>
    subst hn
    rcases List.eq_nil_or_concat cs with rfl | ⟨ds, c, rfl⟩
    · exact ⟨by simp [run], List.Pairwise.nil, by simp⟩
    · rw [List.concat_eq_append] at ih h ⊢
      have hds : ds.length < (ds ++ [c]).length := by simp
      rw [run_concat] at h ⊢
      rcases hw : (run ds).word with _ | w
      · have hc : isBlank c := by
          by_contra hc
          simp [step, hw, hc] at h
        have htokens : ((run ds).step c).tokens = (run ds).tokens := by simp [step, hw, hc]
        rw [htokens]
        exact (ih _ hds hw rfl).blank hc
      · have hc : w.quote.isNone && isBlank c := by
          by_contra hc
          simp [step, hw, hc] at h
        have htokens : ((run ds).step c).tokens
            = (run ds).tokens ++ [w.token (run ds).offset true] := by simp [step, hw, hc]
        have hword := tiled_word hw (fun gap hgap hword => ih _ (by omega) hword rfl) true
        rw [htokens]
        exact hword.blank (Bool.and_eq_true_iff.1 hc).2

end Reader

namespace Line

/-- The tokens of the line are all of it but blanks, and are what they say they are. -/
structure Covers (l : Line) : Prop where
  tiled : Tiled l.input.toList l.tokens
  nonempty : ∀ t ∈ l.tokens, t.start < t.stop
  /-- A blank in a token is protected by quotes of the token. -/
  blanks : ∀ t ∈ l.tokens, ∀ before c after, t.text.toList = before ++ c :: after → isBlank c →
    Enclosed before after
  literal : ∀ t ∈ l.tokens, t.literal ↔ ∃ c ∈ t.text.toList.head?, isQuote c
  closed : ∀ t ∈ l.tokens, t.closed ↔ t.stop < utf8Length l.input.toList
  /-- At most the last token is open. -/
  last : ∀ t ∈ l.tokens.dropLast, t.closed
  parts : l.closedTokens ++ l.openToken?.toList = l.tokens
  head : l.head ++ l.openText = l.input

variable {s : String} {l : Line}

theorem whole_of_read (h : read s = .ok l) : ∀ t ∈ l.tokens, t.Whole := by
  obtain ⟨htokens, hne, hsheltered, hquote⟩ := Reader.whole_run s.toList
  obtain ⟨-, hclosed, hopen, hl⟩ := read_ok h
  rw [hl, hclosed, hopen]
  refine List.forall_mem_append.2 ⟨htokens, fun t ht => ?_⟩
  obtain ⟨w, hw, rfl⟩ : ∃ w, (Reader.run s.toList).word = some w
      ∧ w.token (Reader.run s.toList).offset false = t := by simpa using ht
  exact ⟨⟨hne w hw, hsheltered w hw, (hquote w hw).symm.trans (quote_of_read h hw)⟩, rfl⟩

theorem tiled_of_read (h : read s = .ok l) : Tiled s.toList l.tokens := by
  obtain ⟨-, hclosed, hopen, hl⟩ := read_ok h
  rw [hl, hclosed, hopen]
  rcases hw : (Reader.run s.toList).word with _ | w
  · simpa using Reader.tiled_run hw
  · exact Reader.tiled_word hw (fun gap _ hgap => Reader.tiled_run hgap) false

theorem closed_iff_of_read (h : read s = .ok l) :
    ∀ t ∈ l.tokens, t.closed ↔ t.stop < utf8Length s.toList := by
  obtain ⟨-, hclosed, hopen, hl⟩ := read_ok h
  have hoffset := Reader.run_offset s.toList
  rw [hl, hclosed, hopen]
  refine List.forall_mem_append.2 ⟨fun t ht => ?_, fun t ht => ?_⟩
  · exact iff_of_true (Reader.closed_of_mem_run _ t ht) (hoffset ▸ Reader.stop_lt_run _ t ht)
  · obtain ⟨w, hw, rfl⟩ : ∃ w, (Reader.run s.toList).word = some w
        ∧ w.token (Reader.run s.toList).offset false = t := by simpa using ht
    simp [OpenWord.token, hoffset]

theorem head_append_openText (h : read s = .ok l) : l.head ++ l.openText = s := by
  obtain ⟨rfl, -, hopen, -⟩ := read_ok h
  rcases hw : (Reader.run l.input.toList).word with _ | w
  · simp [head, openText, hopen, hw]
  · obtain ⟨gap, hgap⟩ := Reader.exists_opened hw
    apply String.toList_injective
    simp only [head, openText, hopen, hw, Option.map_some, Option.getD_some, OpenWord.token,
      String.toList_append, String.toList_ofList, hgap.start]
    rw [hgap.line, takeBytes_utf8Length]

/-- Reading a line into tokens loses nothing of it and adds nothing to it. -/
theorem read_covers (h : read s = .ok l) : l.input = s ∧ l.Covers := by
  have hwhole := whole_of_read h
  have htiled := tiled_of_read h
  have hclosed := closed_iff_of_read h
  have hhead := head_append_openText h
  obtain ⟨rfl, -, -, hparts⟩ := read_ok h
  refine ⟨rfl, htiled, fun t ht => ?_, fun t ht before c after htext hc => ?_, fun t ht => ?_,
    hclosed, fun t ht => ?_, hparts.symm, hhead⟩
  · exact (htiled.spans t ht).start_lt_stop (hwhole t ht).text.nonempty
  · exact (hwhole t ht).text.enclosed htext hc
  · rw [(hwhole t ht).literal]
    cases t.text.toList.head? <;> simp
  · refine (List.mem_filter.1 (?_ : t ∈ l.closedTokens)).2
    rw [hparts] at ht
    rcases ho : l.openToken? with _ | u
    · exact List.dropLast_subset _ (by simpa [ho] using ht)
    · simpa [ho] using ht

/-- Letters and blanks of several bytes, a quote of the other kind inside quotes, and one that is
opened in the middle of a token. -/
theorem read_covers_sheet : ∃ l, read "né =\u3000'a \" b' x\"y z\"" = .ok l
    ∧ l.tokens.map (fun t => (t.start, t.stop)) = [(0, 3), (4, 5), (8, 15), (16, 22)]
    ∧ l.tokens.map (·.literal) = [false, false, true, false]
    ∧ l.input = "né =\u3000'a \" b' x\"y z\"" ∧ l.Covers := by
  obtain ⟨l, hread⟩ : ∃ l, read "né =\u3000'a \" b' x\"y z\"" = .ok l := ⟨_, rfl⟩
  refine ⟨l, hread, ?_, ?_, read_covers hread⟩ <;> obtain rfl := Except.ok.inj hread <;> decide

end Line

end FieldQuery
