import FieldQuery.Proofs.Reading

/-!
# Lines with a gap between them

What is read behind a gap is what would be read on a line of its own, only further to the right
(`Reader.foldl_step_gap`). So two lines with blanks between them have the tokens of the first, all
of them ended, and then those of the second (`Line.tokens_append`). Inside an open quote there is no
gap, and the quote stays open up to the next quote character (`Line.read_append_of_open`).
-/

namespace FieldQuery

namespace Token

/-- The token `n` bytes further to the right. -/
def moved (n : Nat) (t : Token) : Token :=
  { t with start := n + t.start, stop := n + t.stop }

/-- The token with a blank behind it. -/
def ended (t : Token) : Token :=
  { t with closed := true }

@[simp] theorem moved_text (n : Nat) (t : Token) : (t.moved n).text = t.text := rfl

@[simp] theorem moved_literal (n : Nat) (t : Token) : (t.moved n).literal = t.literal := rfl

@[simp] theorem ended_text (t : Token) : t.ended.text = t.text := rfl

@[simp] theorem ended_literal (t : Token) : t.ended.literal = t.literal := rfl

theorem ended_of_closed {t : Token} (h : t.closed) : t.ended = t := by
  cases t
  simp_all [ended]

end Token

def OpenWord.moved (n : Nat) (w : OpenWord) : OpenWord :=
  { w with start := n + w.start }

namespace Reader

/-- The reader `n` bytes further to the right, behind the tokens `ts`. -/
def behind (n : Nat) (ts : List Token) (r : Reader) : Reader where
  offset := n + r.offset
  tokens := ts ++ r.tokens.map (Token.moved n)
  word := r.word.map (OpenWord.moved n)

variable (n : Nat) (ts : List Token)

theorem step_behind (r : Reader) (c : Char) :
    (r.behind n ts).step c = (r.step c).behind n ts := by
  rcases r with ⟨offset, tokens, word⟩
  rcases word with _ | w
  · by_cases hc : isBlank c <;>
      simp [step, behind, hc, OpenWord.push, OpenWord.moved, Nat.add_assoc]
  · by_cases hc : w.quote.isNone && isBlank c <;>
      simp [step, behind, hc, OpenWord.push, OpenWord.moved, OpenWord.token,
        OpenWord.startsWithQuote, Token.moved, Nat.add_assoc]

theorem foldl_step_behind : ∀ (cs : List Char) (r : Reader),
    cs.foldl step (r.behind n ts) = (cs.foldl step r).behind n ts
  | [], _ => rfl
  | c :: cs, r => by
    rw [List.foldl_cons, step_behind, foldl_step_behind cs, List.foldl_cons]

theorem foldl_step_gap (cs : List Char) :
    cs.foldl step { offset := n, tokens := ts } = (run cs).behind n ts := by
  have h : ({ offset := n, tokens := ts } : Reader) = behind n ts {} := by simp [behind]
  rw [h, foldl_step_behind]
  rfl

theorem finish_behind (r : Reader) :
    (r.behind n ts).finish = r.finish.map fun us => ts ++ us.map (Token.moved n) := by
  rcases r with ⟨offset, tokens, word⟩
  rcases word with _ | w
  · rfl
  · by_cases hw : w.quote.isSome <;>
      simp [finish, behind, hw, Except.map, OpenWord.moved, OpenWord.token,
        OpenWord.startsWithQuote, Token.moved]

/-- In a gap, blanks are passed over. -/
theorem foldl_step_blanks : ∀ {cs : List Char}, (∀ c ∈ cs, isBlank c) → ∀ n : Nat,
    cs.foldl step { offset := n, tokens := ts } = { offset := n + utf8Length cs, tokens := ts }
  | [], _, _ => rfl
  | c :: cs, h, n => by
    obtain ⟨hc, hcs⟩ := List.forall_mem_cons.1 h
    have hstep : step { offset := n, tokens := ts } c
        = { offset := n + c.utf8Size, tokens := ts } := by simp [step, hc]
    rw [List.foldl_cons, hstep, foldl_step_blanks hcs, utf8Length, Nat.add_assoc]

/-- Blanks end the word that is open, if no quote is. -/
theorem run_append_blanks {cs us : List Char} {l : List Token} (h : (run cs).finish = .ok l)
    (hne : us ≠ []) (hus : ∀ c ∈ us, isBlank c) :
    run (cs ++ us) = { offset := utf8Length (cs ++ us), tokens := l.map Token.ended } := by
  have hclosed := closed_of_mem_run cs
  have hoffset := run_offset cs
  obtain ⟨c, us, rfl⟩ := List.exists_cons_of_ne_nil hne
  obtain ⟨hc, hus⟩ := List.forall_mem_cons.1 hus
  have hstep : (run cs).step c
      = { offset := utf8Length cs + c.utf8Size, tokens := l.map Token.ended } := by
    rcases hr : run cs with ⟨offset, tokens, word⟩
    rw [hr] at h hclosed hoffset
    obtain rfl : offset = utf8Length cs := hoffset
    have hended : tokens.map Token.ended = tokens :=
      (List.map_congr_left fun t ht => Token.ended_of_closed (hclosed t ht)).trans (List.map_id _)
    rcases word with _ | w
    · obtain rfl : tokens = l := Except.ok.inj h
      simp [step, hc, hended]
    · by_cases hq : w.quote.isSome
      · simp [finish, hq] at h
      · obtain rfl : tokens ++ [w.token (utf8Length cs) false] = l := by
          simpa [finish, hq] using h
        have hquote : w.quote = none := by simpa using hq
        simp [step, hc, hquote, hended, OpenWord.token, Token.ended]
  rw [run_append, List.foldl_cons, hstep, foldl_step_blanks _ hus, utf8Length_append, utf8Length,
    Nat.add_assoc]

/-- The texts of the words that have been read, the open one included. -/
def words (r : Reader) : List String :=
  r.tokens.map (·.text) ++ (r.word.map (·.text)).toList

/-- A character that is no blank goes to the last word, or to a new one. -/
theorem words_step (r : Reader) (c : Char) : (isBlank c ∧ (r.step c).words = r.words)
    ∨ ∃ ws w, (r.step c).words = ws ++ [w.push c]
      ∧ (r.words = ws ∧ w = "" ∨ r.words = ws ++ [w]) := by
  rcases r with ⟨offset, tokens, word⟩
  rcases word with _ | w
  · by_cases hc : isBlank c
    · exact .inl ⟨hc, by simp [step, words, hc]⟩
    · refine .inr ⟨tokens.map (·.text), "", ?_, .inl ⟨?_, rfl⟩⟩ <;>
        simp [step, words, hc, OpenWord.push]
  · by_cases hc : w.quote.isNone && isBlank c
    · refine .inl ⟨?_, by simp [step, words, hc, OpenWord.token]⟩
      simp only [Bool.and_eq_true] at hc
      exact hc.2
    · refine .inr ⟨tokens.map (·.text), w.text, ?_, .inr ?_⟩ <;>
        simp [step, words, hc, OpenWord.push]

theorem head_words {c : Char} (hc : isBlank c = false) (cs : List Char) :
    ∃ w ws, (run (c :: cs)).words = w :: ws ∧ w.toList.head? = some c := by
  induction cs using List.reverseRecOn with
  | nil => exact ⟨"".push c, [], by simp [run, step, words, hc, OpenWord.push], by simp⟩
  | append_singleton cs d ih =>
    obtain ⟨w, ws, hwords, hw⟩ := ih
    rw [← List.cons_append, run_concat]
    obtain ⟨-, hstep⟩ | ⟨us, v, hstep, ⟨hus, -⟩ | hus⟩ := words_step (run (c :: cs)) d
    · exact ⟨w, ws, hstep.trans hwords, hw⟩
    · exact ⟨w, ws ++ [v.push d], by rw [hstep, ← hus, hwords, List.cons_append], hw⟩
    · rw [hwords] at hus
      cases us with
      | nil =>
        obtain ⟨rfl, -⟩ := List.cons.inj hus
        exact ⟨w.push d, [], hstep, by simp [hw]⟩
      | cons u us =>
        obtain ⟨rfl, -⟩ := List.cons.inj hus
        exact ⟨w, us ++ [v.push d], hstep, hw⟩

theorem getLast_words {c : Char} (hc : isBlank c = false) (cs : List Char) :
    ∃ ws w, (run (cs ++ [c])).words = ws ++ [w] ∧ w.toList.getLast? = some c := by
  rw [run_concat]
  obtain ⟨hblank, -⟩ | ⟨ws, w, hstep, -⟩ := words_step (run cs) c
  · simp [hc] at hblank
  · exact ⟨ws, w.push c, hstep, by simp⟩

end Reader

namespace Line

theorem read_eq_map (s : String) :
    read s = (Reader.run s.toList).finish.map fun tokens => { input := s, tokens } := rfl

theorem texts_of_read {s : String} {l : Line} (h : read s = .ok l) :
    l.tokens.map (·.text) = (Reader.run s.toList).words := by
  obtain ⟨-, hclosed, hopen, htokens⟩ := read_ok h
  rw [htokens, hclosed, hopen, Reader.words, List.map_append]
  rcases (Reader.run s.toList).word with _ | w <;> rfl

theorem finish_of_read {s : String} {l : Line} (h : read s = .ok l) :
    (Reader.run s.toList).finish = .ok l.tokens := by
  rw [read_eq_map] at h
  rcases hf : (Reader.run s.toList).finish with e | ts
  · simp [hf, Except.map] at h
  · rw [hf] at h
    obtain rfl := Except.ok.inj h
    rfl

/-- Two lines with blanks between them have the tokens of the first and those of the second. -/
theorem tokens_append {a w : String} {l : Line} (ha : read a = .ok l) (hne : w.toList ≠ [])
    (hw : ∀ c ∈ w.toList, isBlank c) (b : String) :
    (read (a ++ w ++ b)).map Line.tokens = (read b).map fun l' =>
      l.tokens.map Token.ended ++ l'.tokens.map (Token.moved (utf8Length (a ++ w).toList)) := by
  have hrun : Reader.run (a ++ w ++ b).toList = (Reader.run b.toList).behind
      (utf8Length (a ++ w).toList) (l.tokens.map Token.ended) := by
    rw [String.toList_append, Reader.run_append, String.toList_append,
      Reader.run_append_blanks (finish_of_read ha) hne hw, Reader.foldl_step_gap]
  rw [read_eq_map, read_eq_map, hrun, Reader.finish_behind]
  rcases (Reader.run b.toList).finish with e | ts <;> rfl

theorem eq_of_mem_space {c : Char} (h : c ∈ " ".toList) : c = ' ' := by
  simpa using h

theorem isBlank_of_mem_space : ∀ c ∈ " ".toList, isBlank c := by
  intro c hc
  rw [eq_of_mem_space hc]
  decide

/-- Two lines with a space between them. -/
theorem read_spaced {a b : String} {l l' : Line} (ha : read a = .ok l) (hb : read b = .ok l') :
    ∃ l'' n, read (a ++ " " ++ b) = .ok l''
      ∧ l''.tokens = l.tokens.map Token.ended ++ l'.tokens.map (Token.moved n) := by
  have h := tokens_append ha (w := " ") (by decide) isBlank_of_mem_space b
  rw [hb] at h
  rcases hread : read (a ++ " " ++ b) with e | l''
  · simp [hread, Except.map] at h
  · rw [hread] at h
    exact ⟨l'', _, rfl, Except.ok.inj h⟩

/-- A line cannot be read if a quote is open at its end. -/
theorem read_error_iff {s : String} : read s = .error .unterminatedLiteral ↔ HasOpenQuote s := by
  rw [HasOpenQuote, ← Reader.quote_run, read_eq_map, Reader.finish]
  rcases (Reader.run s.toList).word with _ | w
  · simp [Except.map]
  · rcases hq : w.quote with _ | q <;> simp [Except.map, hq]

theorem closed_of_read {s : String} {l : Line} (h : read s = .ok l) :
    s.toList.foldl quoteAfter none = none := by
  by_contra hopen
  rw [read_error_iff.2 (Option.isSome_iff_ne_none.2 hopen)] at h
  cases h

theorem quote_of_read {s : String} {l : Line} (h : read s = .ok l) {w : OpenWord}
    (hw : (Reader.run s.toList).word = some w) : w.quote = none :=
  (Reader.quote_of_word hw).trans (closed_of_read h)

/-- A quote that is left open stays open where no quote character comes after it. -/
theorem read_append_of_open {a b : String} {e : TokenError} (h : read a = .error e)
    (hb : ∀ c ∈ b.toList, isQuote c = false) : read (a ++ b) = .error e := by
  cases e
  obtain ⟨q, hq⟩ := Option.isSome_iff_exists.1 (read_error_iff.1 h)
  have hquote : isQuote q := Reader.isQuote_of_foldl_quoteAfter (by simp) hq
  have hmem : q ∉ b.toList := fun hmem => by simp [hb q hmem] at hquote
  rw [read_error_iff, HasOpenQuote, String.toList_append, List.foldl_append, hq,
    (Reader.sheltered_of_not_mem hmem).2]
  rfl

/-- The token of a text that is read as one token. -/
theorem read_tokenText {s : String} (h : IsTokenText s) :
    ∃ l t, read s = .ok l ∧ l.tokens = [t] ∧ t.text = s
      ∧ t.literal = s.toList.head?.any isQuote := by
  have hrun := Reader.foldl_step_sheltered 0 [] h.nonempty h.sheltered
  rw [h.closed, String.ofList_toList] at hrun
  exact ⟨_, _, read_of_run hrun (by simp), rfl, rfl, rfl⟩

/-- A text of one token between two lines. -/
theorem tokens_between {a : String} {l : Line} (ha : read a = .ok l) {w : String}
    (hw : IsTokenText w) (b : String) : ∃ t n, t.text = w ∧ t.literal = w.toList.head?.any isQuote
      ∧ (read (a ++ " " ++ w ++ " " ++ b)).map Line.tokens = (read b).map fun l' =>
        l.tokens.map Token.ended ++ t :: l'.tokens.map (Token.moved n) := by
  obtain ⟨lw, t, hread, htokens, htext, hliteral⟩ := read_tokenText hw
  obtain ⟨l', n, hread', htokens'⟩ := read_spaced ha hread
  refine ⟨(t.moved n).ended, utf8Length (a ++ " " ++ w ++ " ").toList, htext, hliteral, ?_⟩
  have hended : l'.tokens.map Token.ended = l.tokens.map Token.ended ++ [(t.moved n).ended] := by
    rw [htokens', htokens, List.map_append, List.map_map]
    rfl
  rw [tokens_append hread' (by decide) isBlank_of_mem_space, hended]
  simp

end Line

end FieldQuery
