import FieldQuery.Token.Line
import Mathlib.Data.List.Induction
import Mathlib.Tactic.SplitIfs

/-!
# Reading a line character by character

The tokens that a blank has ended are never taken back: reading on only adds to them
(`prefix_run_append`). While a word is open, what stands before it has been read to a gap with the
same tokens (`exists_opened`), so the head of a line has the closed tokens of the line and no open
word (`run_head`). Every word starts without an open quote, but as none ends with one, the quote
that is open in it is the one that is open in the line (`quote_run`). A text that shelters its
blanks in quotes, and closes these, is one token more after a head (`run_typed`).
-/

namespace FieldQuery

theorem utf8Length_append (cs ds : List Char) :
    utf8Length (cs ++ ds) = utf8Length cs + utf8Length ds := by
  induction cs with
  | nil => simp [utf8Length]
  | cons c cs ih => rw [List.cons_append, utf8Length, utf8Length, ih, Nat.add_assoc]

theorem takeBytes_zero : ∀ cs : List Char, takeBytes 0 cs = []
  | [] => rfl
  | c :: cs => by
    have hc := c.utf8Size_pos
    rw [takeBytes, if_neg (by omega)]

theorem takeBytes_utf8Length (ds : List Char) : ∀ cs : List Char,
    takeBytes (utf8Length cs) (cs ++ ds) = cs
  | [] => takeBytes_zero ds
  | c :: cs => by
    have hn : utf8Length (c :: cs) = c.utf8Size + utf8Length cs := rfl
    rw [List.cons_append, takeBytes, if_pos (by omega), hn, Nat.add_sub_cancel_left,
      takeBytes_utf8Length ds cs]

theorem takeBytes_prefix : ∀ (n : Nat) (cs : List Char), takeBytes n cs <+: cs
  | _, [] => List.prefix_refl _
  | n, c :: cs => by
    rw [takeBytes]
    split_ifs
    · exact List.cons_prefix_cons.2 ⟨rfl, takeBytes_prefix _ cs⟩
    · exact List.nil_prefix

theorem isBlank_of_isQuote {q : Char} (hq : isQuote q) : isBlank q = false := by
  rcases Bool.or_eq_true_iff.1 hq with h | h <;> rw [beq_iff_eq.1 h] <;> decide

theorem isQuote_of_isBlank {c : Char} (hc : isBlank c) : isQuote c = false := by
  by_contra hq
  simp [isBlank_of_isQuote (by simpa using hq)] at hc

namespace Reader

theorem run_concat (cs : List Char) (c : Char) : run (cs ++ [c]) = (run cs).step c := by
  rw [run, run, List.foldl_append, List.foldl_cons, List.foldl_nil]

theorem run_append (cs ds : List Char) : run (cs ++ ds) = ds.foldl step (run cs) :=
  List.foldl_append

@[simp] theorem step_offset (r : Reader) (c : Char) :
    (r.step c).offset = r.offset + c.utf8Size := by
  unfold step
  rcases r.word with _ | w <;> simp only [] <;> split_ifs <;> rfl

theorem run_offset (cs : List Char) : (run cs).offset = utf8Length cs := by
  induction cs using List.reverseRecOn with
  | nil => rfl
  | append_singleton cs c ih =>
    rw [run_concat, step_offset, ih, utf8Length_append]
    simp [utf8Length]

theorem prefix_step (r : Reader) (c : Char) : r.tokens <+: (r.step c).tokens := by
  unfold step
  rcases r.word with _ | w <;> simp only [] <;> split_ifs
  · exact List.prefix_refl _
  · exact List.prefix_refl _
  · exact List.prefix_append _ _
  · exact List.prefix_refl _

theorem prefix_foldl_step : ∀ (ds : List Char) (r : Reader),
    r.tokens <+: (ds.foldl step r).tokens
  | [], _ => List.prefix_refl _
  | d :: ds, r => (prefix_step r d).trans (prefix_foldl_step ds (r.step d))

theorem prefix_run_append (cs ds : List Char) : (run cs).tokens <+: (run (cs ++ ds)).tokens := by
  rw [run_append]
  exact prefix_foldl_step ds _

theorem closed_of_mem_step {r : Reader} (h : ∀ t ∈ r.tokens, t.closed) (c : Char) :
    ∀ t ∈ (r.step c).tokens, t.closed := by
  unfold step
  rcases r.word with _ | w <;> simp only [] <;> split_ifs
  · exact h
  · exact h
  · intro t ht
    rcases List.mem_append.1 ht with ht | ht
    · exact h t ht
    · rw [List.mem_singleton.1 ht]
      rfl
  · exact h

theorem closed_of_mem_run (cs : List Char) : ∀ t ∈ (run cs).tokens, t.closed := by
  induction cs using List.reverseRecOn with
  | nil => simp [run]
  | append_singleton cs c ih =>
    rw [run_concat]
    exact closed_of_mem_step ih c

/-- The word `w` is what has been read of the line after `gap`. -/
structure Opened (cs : List Char) (w : OpenWord) (gap : List Char) : Prop where
  line : cs = gap ++ w.text.toList
  start : w.start = utf8Length gap
  /-- In front of the word the reader was in a gap, with the tokens that it has now. -/
  before : run gap = { offset := utf8Length gap, tokens := (run cs).tokens }
  quote : w.quote = w.text.toList.foldl quoteAfter none

theorem exists_opened {cs : List Char} : ∀ {w : OpenWord}, (run cs).word = some w →
    ∃ gap, Opened cs w gap := by
  induction cs using List.reverseRecOn with
  | nil => simp [run]
  | append_singleton cs c ih =>
    intro w hw
    have hstep := run_concat cs c
    have hoff := run_offset cs
    rcases hr : run cs with ⟨offset, tokens, word⟩
    rw [hr] at hstep hoff ih
    simp only [step] at hstep hoff
    rcases word with _ | v <;> simp only [] at hstep <;> split_ifs at hstep
    · simp [hstep] at hw
    · -- the character opens a word, with all of the line before it
      rw [hstep] at hw
      obtain rfl : OpenWord.push { start := offset } c = w := by simpa using hw
      exact ⟨cs, by simp [OpenWord.push], hoff, by rw [hr, hstep, hoff],
        by simp [OpenWord.push]⟩
    · simp [hstep] at hw
    · rw [hstep] at hw
      obtain rfl : v.push c = w := by simpa using hw
      obtain ⟨gap, h⟩ := ih rfl
      refine ⟨gap, ?_, h.start, ?_, ?_⟩
      · rw [h.line]
        simp [OpenWord.push]
      · rw [h.before, hr, hstep]
      · simp [OpenWord.push, h.quote]

theorem quote_of_no_quote : ∀ {cs : List Char}, (∀ c ∈ cs, isQuote c = false) →
    cs.foldl quoteAfter none = none
  | [], _ => rfl
  | c :: cs, h => by
    have hc : quoteAfter none c = none := by simp [quoteAfter, h c List.mem_cons_self]
    rw [List.foldl_cons, hc]
    exact quote_of_no_quote fun d hd => h d (List.mem_cons_of_mem c hd)

theorem isQuote_of_foldl_quoteAfter : ∀ {cs : List Char} {quote : Option Char} {q : Char},
    (∀ p ∈ quote, isQuote p) → cs.foldl quoteAfter quote = some q → isQuote q
  | [], _, _, h, hq => h _ hq
  | c :: cs, quote, q, h, hq => by
    have hafter : ∀ p ∈ quoteAfter quote c, isQuote p := by
      intro p hp
      cases quote <;> simp only [quoteAfter] at hp <;> split_ifs at hp <;> simp_all
    exact isQuote_of_foldl_quoteAfter hafter hq

theorem quote_step (r : Reader) (c : Char) :
    (r.step c).word.bind OpenWord.quote = quoteAfter (r.word.bind OpenWord.quote) c := by
  unfold step
  rcases r.word with _ | w <;> simp only [] <;> split_ifs with hc
  · simp [quoteAfter, isQuote_of_isBlank hc]
  · rfl
  · obtain ⟨hopen, hblank⟩ : w.quote = none ∧ isBlank c := by simpa using hc
    simp [hopen, quoteAfter, isQuote_of_isBlank hblank]
  · rfl

/-- The quote that is open in the open word is the one that is open in the line. -/
theorem quote_run (cs : List Char) :
    (run cs).word.bind OpenWord.quote = cs.foldl quoteAfter none := by
  induction cs using List.reverseRecOn with
  | nil => rfl
  | append_singleton cs c ih =>
    rw [run_concat, quote_step, ih, List.foldl_append, List.foldl_cons, List.foldl_nil]

theorem quote_of_word {cs : List Char} {w : OpenWord} (hw : (run cs).word = some w) :
    w.quote = cs.foldl quoteAfter none := by
  rw [← quote_run, hw]
  rfl

end Reader

/-- A quote is open at the end of the text. -/
def HasOpenQuote (s : String) : Prop :=
  (s.toList.foldl quoteAfter none).isSome

/-- A word is read as one token wherever it stands between blanks. -/
structure IsWord (s : String) : Prop where
  nonempty : s.toList ≠ []
  noBlank : ∀ c ∈ s.toList, isBlank c = false
  noQuote : ∀ c ∈ s.toList, isQuote c = false

theorem isWord_iff {s : String} : IsWord s ↔
    (!s.toList.isEmpty && s.toList.all fun c => !isBlank c && !isQuote c) = true := by
  constructor
  · rintro ⟨hne, hb, hq⟩
    simp only [Bool.and_eq_true, List.all_eq_true, Bool.not_eq_true']
    exact ⟨List.isEmpty_eq_false_iff.2 hne, fun c hc => ⟨hb c hc, hq c hc⟩⟩
  · intro h
    simp only [Bool.and_eq_true, List.all_eq_true, Bool.not_eq_true'] at h
    exact ⟨List.isEmpty_eq_false_iff.1 h.1, fun c hc => (h.2 c hc).1, fun c hc => (h.2 c hc).2⟩

instance (s : String) : Decidable (IsWord s) :=
  decidable_of_iff _ isWord_iff.symm

theorem IsWord.no_literal {s : String} (h : IsWord s) : s.toList.head?.any isQuote = false := by
  rcases hs : s.toList with _ | ⟨c, cs⟩
  · rfl
  · exact h.noQuote c (by simp [hs])

namespace Reader

/-- No blank of `cs` stands outside quotes, where `quote` is open before `cs`. -/
def sheltered : Option Char → List Char → Bool
  | _, [] => true
  | quote, c :: cs => (quote.isSome || !isBlank c) && sheltered (quoteAfter quote c) cs

theorem sheltered_append : ∀ (quote : Option Char) (cs ds : List Char),
    sheltered quote (cs ++ ds) = (sheltered quote cs && sheltered (cs.foldl quoteAfter quote) ds)
  | _, [], _ => rfl
  | quote, c :: cs, ds => by
    rw [List.cons_append, sheltered, sheltered, sheltered_append, List.foldl_cons, Bool.and_assoc]

theorem sheltered_of_no_blank : ∀ {cs : List Char} (quote : Option Char),
    (∀ c ∈ cs, isBlank c = false) → sheltered quote cs
  | [], _, _ => rfl
  | c :: cs, quote, h => by
    simp only [sheltered, Bool.and_eq_true]
    exact ⟨by simp [h c List.mem_cons_self],
      sheltered_of_no_blank _ fun d hd => h d (List.mem_cons_of_mem c hd)⟩

/-- Inside quotes, a text without that quote is sheltered and leaves them open. -/
theorem sheltered_of_not_mem {q : Char} : ∀ {cs : List Char}, q ∉ cs →
    sheltered (some q) cs ∧ cs.foldl quoteAfter (some q) = some q
  | [], _ => ⟨rfl, rfl⟩
  | c :: cs, h => by
    have hc : quoteAfter (some q) c = some q := if_neg (List.ne_of_not_mem_cons h).symm
    rw [sheltered, List.foldl_cons, hc]
    exact sheltered_of_not_mem (List.not_mem_of_not_mem_cons h)

end Reader

/-- The quotes of the text are closed and no blank stands outside them, so between blanks it is
read as one token. -/
structure IsTokenText (s : String) : Prop where
  nonempty : s.toList ≠ []
  sheltered : Reader.sheltered none s.toList
  closed : s.toList.foldl quoteAfter none = none

theorem IsWord.isTokenText {s : String} (h : IsWord s) : IsTokenText s :=
  ⟨h.nonempty, Reader.sheltered_of_no_blank none h.noBlank, Reader.quote_of_no_quote h.noQuote⟩

namespace Reader

variable (n : Nat) (ts : List Token)

theorem foldl_step_open (start : Nat) : ∀ (cs : List Char) (n : Nat) (text : String)
    (quote : Option Char), sheltered quote cs →
      cs.foldl step { offset := n, tokens := ts, word := some { start, text, quote } }
        = { offset := n + utf8Length cs, tokens := ts,
            word := some { start, text := text ++ String.ofList cs,
                           quote := cs.foldl quoteAfter quote } }
  | [], n, text, quote, _ => by simp [utf8Length]
  | c :: cs, n, text, quote, h => by
    obtain ⟨hc, hcs⟩ : (quote = none → isBlank c = false) ∧ sheltered (quoteAfter quote c) cs := by
      simpa [sheltered, Option.isSome_iff_ne_none, imp_iff_not_or, or_comm] using h
    have hstep : step { offset := n, tokens := ts, word := some { start, text, quote } } c
        = { offset := n + c.utf8Size, tokens := ts,
            word := some { start, text := text.push c, quote := quoteAfter quote c } } := by
      cases quote <;> simp_all [step, OpenWord.push]
    rw [List.foldl_cons, hstep, foldl_step_open start cs _ _ _ hcs]
    have hlength : n + c.utf8Size + utf8Length cs = n + utf8Length (c :: cs) := by
      simp [utf8Length, Nat.add_assoc]
    have htext : text.push c ++ String.ofList cs = text ++ String.ofList (c :: cs) := by
      apply String.toList_injective
      simp
    rw [hlength, htext, List.foldl_cons]

/-- In a gap, a character that is no blank opens the word that an empty word would go on with. -/
theorem step_gap {c : Char} (hc : isBlank c = false) : step { offset := n, tokens := ts } c
    = step { offset := n, tokens := ts, word := some { start := n } } c := by
  simp [step, hc]

theorem foldl_step_sheltered {cs : List Char} (hne : cs ≠ []) (h : sheltered none cs) :
    cs.foldl step { offset := n, tokens := ts }
      = { offset := n + utf8Length cs, tokens := ts,
          word := some { start := n, text := String.ofList cs,
                         quote := cs.foldl quoteAfter none } } := by
  cases cs with
  | nil => exact absurd rfl hne
  | cons c cs =>
    have hc : isBlank c = false := by
      simp only [sheltered, Bool.and_eq_true] at h
      simpa using h.1
    rw [List.foldl_cons, step_gap n ts hc, ← List.foldl_cons, foldl_step_open ts n _ _ _ _ h,
      String.empty_append]

variable {n ts}

theorem run_space {head : String} (hhead : run head.toList = { offset := n, tokens := ts }) :
    run (head ++ " ").toList = { offset := n + 1, tokens := ts } := by
  rw [String.toList_append, run_append, hhead]
  rfl

theorem run_open {head s : String} (hhead : run head.toList = { offset := n, tokens := ts })
    (hne : s.toList ≠ []) (h : sheltered none s.toList) : run (head ++ s).toList =
      { offset := n + utf8Length s.toList, tokens := ts,
        word := some { start := n, text := s, quote := s.toList.foldl quoteAfter none } } := by
  rw [String.toList_append, run_append, hhead, foldl_step_sheltered n ts hne h,
    String.ofList_toList]

theorem run_sheltered {head s : String}
    (hhead : run head.toList = { offset := n, tokens := ts }) (hne : s.toList ≠ [])
    (h : sheltered none s.toList) : run (head ++ " " ++ s).toList =
      { offset := n + 1 + utf8Length s.toList, tokens := ts,
        word := some { start := n + 1, text := s, quote := s.toList.foldl quoteAfter none } } :=
  run_open (run_space hhead) hne h

theorem run_word {head s : String} (hhead : run head.toList = { offset := n, tokens := ts })
    (h : IsWord s) : run (head ++ " " ++ s).toList =
      { offset := n + 1 + utf8Length s.toList, tokens := ts,
        word := some { start := n + 1, text := s } } := by
  rw [run_sheltered hhead h.nonempty h.isTokenText.sheltered, h.isTokenText.closed]

theorem run_typed {head s : String} (hhead : run head.toList = { offset := n, tokens := ts })
    (h : IsTokenText s) :
    ∃ t m, run (head ++ s ++ " ").toList = { offset := m, tokens := ts ++ [t] }
      ∧ t.text = s ∧ t.literal = s.toList.head?.any isQuote ∧ t.closed := by
  rw [String.toList_append, run_append, run_open hhead h.nonempty h.sheltered, h.closed]
  exact ⟨_, _, rfl, rfl, rfl, rfl⟩

theorem run_closed {head s : String} (hhead : run head.toList = { offset := n, tokens := ts })
    (h : IsTokenText s) :
    ∃ t m, run (head ++ " " ++ s ++ " ").toList = { offset := m, tokens := ts ++ [t] }
      ∧ t.text = s ∧ t.literal = s.toList.head?.any isQuote ∧ t.closed :=
  run_typed (run_space hhead) h

theorem run_closedWord {head s : String} (hhead : run head.toList = { offset := n, tokens := ts })
    (h : IsWord s) :
    ∃ t m, run (head ++ " " ++ s ++ " ").toList = { offset := m, tokens := ts ++ [t] }
      ∧ t.text = s ∧ t.literal = false ∧ t.closed := by
  obtain ⟨t, m, hrun, htext, hl, hclosed⟩ := run_closed hhead h.isTokenText
  exact ⟨t, m, hrun, htext, hl.trans h.no_literal, hclosed⟩

end Reader

namespace Line

/-- The tokens of a line that can be read: those that a blank has ended, and the open word. -/
theorem read_ok {s : String} {l : Line} (h : read s = .ok l) :
    l.input = s ∧ l.closedTokens = (Reader.run s.toList).tokens
      ∧ l.openToken? = (Reader.run s.toList).word.map
          (·.token (Reader.run s.toList).offset false)
      ∧ l.tokens = l.closedTokens ++ l.openToken?.toList := by
  have hclosed := Reader.closed_of_mem_run s.toList
  unfold read at h
  rcases hr : Reader.run s.toList with ⟨offset, tokens, word⟩
  rw [hr] at h hclosed
  have hfilter : tokens.filter (·.closed) = tokens := List.filter_eq_self.2 hclosed
  rcases word with _ | w
  · obtain rfl : { input := s, tokens } = l := by
      simpa [Reader.finish, Except.map] using h
    have hopen : openToken? { input := s, tokens } = none := by
      rw [openToken?, Option.filter_eq_none_iff]
      intro t ht
      simp [hclosed t (List.mem_of_mem_getLast? ht)]
    refine ⟨rfl, hfilter, hopen, ?_⟩
    simp [hopen, closedTokens, hfilter]
  · rcases hq : w.quote with _ | c
    · obtain rfl : { input := s, tokens := tokens ++ [w.token offset false] } = l := by
        simpa [Reader.finish, Except.map, hq] using h
      have hc : closedTokens { input := s, tokens := tokens ++ [w.token offset false] }
          = tokens := by
        rw [closedTokens, List.filter_append, hfilter]
        simp [OpenWord.token]
      have hopen : openToken? { input := s, tokens := tokens ++ [w.token offset false] }
          = some (w.token offset false) := by
        simp [openToken?, OpenWord.token]
      exact ⟨rfl, hc, hopen, by rw [hc, hopen]; rfl⟩
    · simp [Reader.finish, Except.map, hq] at h

theorem read_of_no_quote {s : String} (hq : ∀ c ∈ s.toList, isQuote c = false) :
    ∃ l, read s = .ok l := by
  unfold read Reader.finish
  split
  · exact ⟨_, rfl⟩
  · rename_i w hw
    rw [Reader.quote_of_word hw, Reader.quote_of_no_quote hq]
    exact ⟨_, rfl⟩

theorem run_head {s : String} {l : Line} (h : read s = .ok l) :
    Reader.run l.head.toList =
      { offset := utf8Length l.head.toList, tokens := l.closedTokens } := by
  obtain ⟨rfl, hclosed, hopen, -⟩ := read_ok h
  have hoff := Reader.run_offset l.input.toList
  rcases hw : (Reader.run l.input.toList).word with _ | w
  · have hhead : l.head = l.input := by simp [head, hopen, hw]
    rw [hhead, hclosed, ← hoff, ← hw]
  · obtain ⟨gap, hgap⟩ := Reader.exists_opened hw
    have hhead : l.head = String.ofList gap := by
      simp only [head, hopen, hw, Option.map_some, OpenWord.token, hgap.start]
      rw [hgap.line, takeBytes_utf8Length]
    rw [hhead, String.toList_ofList, hgap.before, hclosed]

theorem read_of_run {s : String} {n : Nat} {ts : List Token} {w : Option OpenWord}
    (h : Reader.run s.toList = { offset := n, tokens := ts, word := w })
    (hw : ∀ v ∈ w, v.quote = none) :
    read s = .ok { input := s, tokens := ts ++ (w.map (·.token n false)).toList } := by
  rw [read, h]
  cases w with
  | none => simp [Reader.finish, Except.map]
  | some v => simp [Reader.finish, Except.map, hw v rfl]

theorem head_of_openToken {l : Line} {t : Token} (h : l.openToken? = some t) :
    l.head = String.ofList (takeBytes t.start l.input.toList) := by
  simp only [head, h]

theorem head_prefix (l : Line) : l.head.toList <+: l.input.toList := by
  unfold head
  split
  · rw [String.toList_ofList]
    exact takeBytes_prefix _ _
  · exact List.prefix_refl _

theorem head_no_quote {s : String} {l : Line} (h : read s = .ok l)
    (hq : ∀ c ∈ s.toList, isQuote c = false) : ∀ c ∈ l.head.toList, isQuote c = false := by
  obtain ⟨rfl, -⟩ := read_ok h
  exact fun c hc => hq c (l.head_prefix.subset hc)

theorem no_quote_after_head {s w : String} {l : Line} (h : read s = .ok l)
    (hq : ∀ c ∈ s.toList, isQuote c = false) (hw : ∀ c ∈ w.toList, isQuote c = false) :
    ∀ c ∈ (l.head ++ " " ++ w).toList, isQuote c = false := by
  intro c hc
  rw [String.toList_append, String.toList_append] at hc
  rcases List.mem_append.1 hc with hc | hc
  · rcases List.mem_append.1 hc with hc | hc
    · exact head_no_quote h hq c hc
    · rw [List.mem_singleton.1 hc]
      rfl
  · exact hw c hc

/-- A token typed after the head of a line, with a space behind it, is one token more. -/
theorem read_token {s w : String} {l : Line} (h : read s = .ok l) (hw : IsTokenText w) :
    ∃ l' t, read (l.head ++ " " ++ w ++ " ") = .ok l' ∧ l'.tokens = l.closedTokens ++ [t]
      ∧ l'.closedTokens = l.closedTokens ++ [t] ∧ t.text = w
      ∧ t.literal = w.toList.head?.any isQuote ∧ t.closed := by
  obtain ⟨t, m, hrun, ht⟩ := Reader.run_closed (run_head h) hw
  have hread := read_of_run hrun (by simp)
  obtain ⟨-, hclosed, -⟩ := read_ok hread
  rw [hrun] at hclosed
  exact ⟨_, t, hread, by simp, hclosed, ht⟩

/-- A word typed after the head of a line is the open word of a line with the same closed tokens. -/
theorem read_word {s w : String} {l : Line} (h : read s = .ok l) (hw : IsWord w) :
    ∃ l', read (l.head ++ " " ++ w) = .ok l' ∧ l'.closedTokens = l.closedTokens ∧ l'.openText = w
      ∧ l'.head = l.head ++ " " := by
  have hrun := Reader.run_word (run_head h) hw
  have hread := read_of_run hrun (by simp)
  obtain ⟨-, hclosed, hopen, -⟩ := read_ok hread
  rw [hrun] at hclosed hopen
  refine ⟨_, hread, hclosed, ?_, ?_⟩
  · rw [openText, hopen]
    rfl
  · have hstart : utf8Length l.head.toList + 1 = utf8Length (l.head ++ " ").toList := by
      rw [String.toList_append, utf8Length_append]
      rfl
    have hinput : (l.head ++ " " ++ w).toList = (l.head ++ " ").toList ++ w.toList :=
      String.toList_append
    rw [head_of_openToken hopen]
    simp only [OpenWord.token, hstart]
    rw [hinput, takeBytes_utf8Length, String.ofList_toList]

end Line

end FieldQuery
