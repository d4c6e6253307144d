import FieldQuery.Proofs.Highlighting
import Mathlib.Data.List.DropRight

/-!
# The word with the open quote

Where a quote is open, highlighting cuts the line in front of the word that the reader cannot
finish. It looks for the start of this word by going back from the open quote to the last blank,
and this is where the word starts unless some blank of the word stands before the quote. Such a
blank is inside quotes that are closed again, so a cut behind it leaves a text to the left that
ends inside a quote and cannot be read (`exists_cutAtOpenWord`).
-/

namespace FieldQuery

/-! ## Going back from the open quote -/

theorem fromOpenQuote?_append (ds : List Char) : ∀ (cs : List Char)
    (found : Option (Char × List Char)), cs.foldl quoteAfter (found.map (·.1)) = none →
      fromOpenQuote? found (cs ++ ds) = fromOpenQuote? none ds
  | [], found, h => by
    obtain rfl : found = none := by simpa using h
    rfl
  | c :: cs, none, h => by
    rw [List.cons_append, fromOpenQuote?]
    refine fromOpenQuote?_append ds cs _ ?_
    by_cases hc : isQuote c <;> simpa [quoteAfter, hc] using h
  | c :: cs, some (q, rest), h => by
    rw [List.cons_append, fromOpenQuote?]
    refine fromOpenQuote?_append ds cs _ ?_
    by_cases hc : c = q <;> simpa [quoteAfter, hc] using h

theorem fromOpenQuote?_of_not_mem {q : Char} (rest : List Char) : ∀ {cs : List Char}, q ∉ cs →
    fromOpenQuote? (some (q, rest)) cs = some rest
  | [], _ => rfl
  | c :: cs, h => by
    rw [fromOpenQuote?, if_neg (List.ne_of_not_mem_cons h).symm]
    exact fromOpenQuote?_of_not_mem rest (List.not_mem_of_not_mem_cons h)

/-- The line is cut behind the last blank before the open quote. -/
theorem splitAtOpenWord?_eq {left word inside : List Char} {q : Char}
    (hclosed : (left ++ word).foldl quoteAfter none = none) (hq : isQuote q)
    (hinside : q ∉ inside) (hleft : ∀ c ∈ left.getLast?, isBlank c)
    (hword : ∀ c ∈ word, isBlank c = false) :
    splitAtOpenWord? (left ++ word ++ q :: inside) = some (left, word ++ q :: inside) := by
  have hopen : fromOpenQuote? none (left ++ word ++ q :: inside) = some (q :: inside) := by
    rw [fromOpenQuote?_append _ _ none hclosed, fromOpenQuote?, if_pos hq,
      fromOpenQuote?_of_not_mem _ hinside]
  have hbefore : (left ++ word ++ q :: inside).take
      ((left ++ word ++ q :: inside).length - (q :: inside).length) = left ++ word := by
    rw [List.length_append, Nat.add_sub_cancel, List.take_left]
  have hback : ((left ++ word).reverse.dropWhile fun c => !isBlank c) = left.reverse := by
    rw [List.reverse_append, List.dropWhile_append_of_pos (by simpa using hword)]
    cases hlast : left.reverse with
    | nil => rfl
    | cons c cs =>
      have hc : isBlank c := hleft c (by rw [← List.head?_reverse, hlast]; rfl)
      rw [List.dropWhile_cons_of_neg (by simp [hc])]
  rw [splitAtOpenWord?, hopen, Option.map_some]
  simp only [hbefore, hback, List.length_reverse]
  rw [List.append_assoc, List.take_left, List.drop_left]

/-- Every text has a part up to its last blank and a part behind it. -/
theorem exists_last_blank (cs : List Char) : ∃ front back, cs = front ++ back
    ∧ (∀ c ∈ front.getLast?, isBlank c) ∧ ∀ c ∈ back, isBlank c = false := by
  refine ⟨cs.rdropWhile fun c => !isBlank c, cs.rtakeWhile fun c => !isBlank c,
    List.rdropWhile_append_rtakeWhile.symm, fun c hc => ?_, fun c hc => ?_⟩
  · obtain ⟨hne, rfl⟩ := List.mem_getLast?_eq_getLast hc
    simpa using List.rdropWhile_last_not _ _ hne
  · simpa using List.mem_rtakeWhile_imp hc

theorem no_blank_iff {front back : List Char} (hfront : ∀ c ∈ front.getLast?, isBlank c)
    (hback : ∀ c ∈ back, isBlank c = false) :
    (∀ c ∈ front ++ back, isBlank c = false) ↔ front = [] := by
  refine ⟨fun hall => ?_, fun hnil => by simpa [hnil] using hback⟩
  by_contra hne
  have hlast := hfront (front.getLast hne) (List.getLast?_eq_some_getLast hne)
  rw [hall _ (List.mem_append_left back (List.getLast_mem hne))] at hlast
  cases hlast

/-! ## The word that is not finished -/

theorem utf8Length_eq_zero_iff {cs : List Char} : utf8Length cs = 0 ↔ cs = [] := by
  cases cs with
  | nil => simp [utf8Length]
  | cons c cs =>
    have hpos := c.utf8Size_pos
    simp only [utf8Length, List.cons_ne_nil, iff_false]
    omega

namespace Reader

/-- In a gap, the last character is a blank. -/
theorem isBlank_of_gap {cs : List Char} (h : (run cs).word = none) :
    ∀ c ∈ cs.getLast?, isBlank c := by
  rcases List.eq_nil_or_concat cs with rfl | ⟨ds, d, rfl⟩
  · simp
  · rw [List.concat_eq_append] at h ⊢
    intro c hc
    obtain rfl : d = c := by simpa using hc
    by_contra hblank
    rw [run_concat] at h
    rcases hw : (run ds).word with _ | w <;> simp [step, hw, hblank] at h

/-- A quote is open behind a sheltered blank. -/
theorem isSome_of_sheltered {cs : List Char} (h : sheltered none cs) (hne : cs ≠ [])
    (hlast : ∀ c ∈ cs.getLast?, isBlank c) : (cs.foldl quoteAfter none).isSome := by
  obtain ⟨ds, c, rfl⟩ := (List.eq_nil_or_concat cs).resolve_left hne
  rw [List.concat_eq_append] at h hlast ⊢
  have hc : isBlank c := hlast c (by simp)
  rw [sheltered_append, Bool.and_eq_true] at h
  rcases hopen : ds.foldl quoteAfter none with _ | q
  · simp [hopen, sheltered, hc] at h
  · have hne : c ≠ q := by
      rintro rfl
      have hq : isQuote c := isQuote_of_foldl_quoteAfter (by simp) hopen
      simp [isBlank_of_isQuote hq] at hc
    simp [hopen, quoteAfter, hne]

/-- The word `w` is open at the end of the line, and so is the quote `q` in it, with `outer` in
front of the quote and `inner` behind it. -/
structure Unfinished (cs : List Char) (w : OpenWord) (outer : List Char) (q : Char)
    (inner : List Char) : Prop where
  word : (run cs).word = some w
  text : w.text.toList = outer ++ q :: inner
  quote : isQuote q
  outer : outer.foldl quoteAfter none = none
  inner : q ∉ inner

theorem exists_unfinished {s : String} (h : HasOpenQuote s) :
    ∃ w outer q inner, Unfinished s.toList w outer q inner := by
  obtain ⟨q, hq⟩ := Option.isSome_iff_exists.1 h
  have hrun := quote_run s.toList
  rw [hq] at hrun
  obtain ⟨w, hw, hquote⟩ := Option.bind_eq_some_iff.1 hrun
  rw [(whole_run s.toList).quote w hw] at hquote
  obtain ⟨outer, inner, htext, houter, hinner⟩ := exists_opening hquote
  exact ⟨w, outer, q, inner, hw, htext, isQuote_of_foldl_quoteAfter (by simp) hq, houter, hinner⟩

variable {cs : List Char} {w : OpenWord} {gap : List Char}

theorem Opened.closed (h : Opened cs w gap) : gap.foldl quoteAfter none = none := by
  rw [← quote_run, h.before]
  rfl

/-- What stands in front of the open word can be read, and has the tokens that are finished. -/
theorem Opened.read_gap (h : Opened cs w gap) : ∃ l, Line.read (String.ofList gap) = .ok l
    ∧ l.tokens = (run cs).tokens := by
  have hrun : run (String.ofList gap).toList
      = { offset := utf8Length gap, tokens := (run cs).tokens } := by
    rw [String.toList_ofList, h.before]
  exact ⟨_, Line.read_of_run hrun (by simp), by simp⟩

theorem Opened.last (h : Opened cs w gap) : ∀ c ∈ gap.getLast?, isBlank c :=
  isBlank_of_gap (by rw [h.before])

end Reader

namespace Reader.Unfinished

variable {s : String} {w : OpenWord} {outer inner : List Char} {q : Char}

/-- The cut is behind the last blank of the word in front of the open quote, or in front of the
word if there is none. -/
theorem split (h : Unfinished s.toList w outer q inner) {gap front back : List Char}
    (hgap : Opened s.toList w gap) (houter : outer = front ++ back)
    (hfront : ∀ c ∈ front.getLast?, isBlank c) (hback : ∀ c ∈ back, isBlank c = false) :
    splitAtOpenWord? s.toList = some (gap ++ front, back ++ q :: inner) := by
  subst houter
  have hline : s.toList = gap ++ front ++ back ++ q :: inner := by
    rw [hgap.line, h.text]
    simp
  have hclosed : (gap ++ front ++ back).foldl quoteAfter none = none := by
    rw [List.append_assoc, List.foldl_append, hgap.closed, h.outer]
  have hlast : ∀ c ∈ (gap ++ front).getLast?, isBlank c := by
    cases front using List.reverseRecOn with
    | nil => simpa using hgap.last
    | append_singleton front c => simpa using hfront
  rw [hline, splitAtOpenWord?_eq hclosed h.quote h.inner hlast hback]

/-- A text that is cut off behind a blank of the word ends inside a quote. -/
theorem read_error (h : Unfinished s.toList w outer q inner) {gap front back : List Char}
    (hgap : Opened s.toList w gap) (houter : outer = front ++ back)
    (hfront : ∀ c ∈ front.getLast?, isBlank c) (hne : front ≠ []) :
    Line.read (String.ofList (gap ++ front)) = .error .unterminatedLiteral := by
  have hsheltered := (whole_run s.toList).sheltered w h.word
  rw [h.text, houter, List.append_assoc, sheltered_append, Bool.and_eq_true] at hsheltered
  rw [Line.read_error_iff, HasOpenQuote, String.toList_ofList, List.foldl_append, hgap.closed]
  exact isSome_of_sheltered hsheltered.1 hne hfront

end Reader.Unfinished

/-- How highlighting cuts the line in two, where the word `w` is not finished and has `outer` in
front of its open quote. -/
structure CutAtOpenWord (s : String) (w : OpenWord) (outer before rest : List Char) : Prop where
  split : splitAtOpenWord? s.toList = some (before, rest)
  line : s.toList = before ++ rest
  /-- The cut is at the start of the word exactly if no blank of the word stands in front of the
  open quote, and exactly if what is to the left of the cut can be read. -/
  start : List.TFAE [utf8Length before = w.start, ∀ c ∈ outer, isBlank c = false,
    ∃ l, Line.read (String.ofList before) = .ok l]
  /-- Then the tokens to the left are those that the reader has finished, each with its style. -/
  styled : ∀ l, Line.read (String.ofList before) = .ok l →
    l.tokens = (Reader.run s.toList).tokens ∧ ∀ r : Registry, isCommandLine s = false →
      ∃ segs, highlight r true s = segs ++ [openSegment rest] ∧ r.Shows 0 l.labelled segs
  /-- Otherwise all that is to the left is one plain segment. -/
  plain : (∃ c ∈ outer, isBlank c) → ∀ r, isCommandLine s = false →
    highlight r true s = [{ text := String.ofList before }, openSegment rest]

/-- Every line with an open quote is cut in front of the word that the reader cannot finish, or
else inside a quoted part of this word. -/
theorem exists_cutAtOpenWord {s : String} (h : HasOpenQuote s) :
    ∃ w outer q inner before rest, Reader.Unfinished s.toList w outer q inner
      ∧ CutAtOpenWord s w outer before rest := by
  obtain ⟨w, outer, q, inner, hw⟩ := Reader.exists_unfinished h
  obtain ⟨gap, hgap⟩ := Reader.exists_opened hw.word
  obtain ⟨front, back, houter, hfront, hback⟩ := exists_last_blank outer
  have hcut := hw.split hgap houter hfront hback
  have hread : ∀ l, Line.read (String.ofList (gap ++ front)) = .ok l →
      front = [] ∧ l.tokens = (Reader.run s.toList).tokens := by
    intro l hl
    have hnil : front = [] := by
      by_contra hne
      rw [hw.read_error hgap houter hfront hne] at hl
      cases hl
    obtain ⟨l', hl', htokens⟩ := hgap.read_gap
    rw [hnil, List.append_nil, hl'] at hl
    exact ⟨hnil, Except.ok.inj hl ▸ htokens⟩
  have hstart : utf8Length (gap ++ front) = w.start ↔ front = [] := by
    rw [hgap.start, utf8Length_append, Nat.add_eq_left, utf8Length_eq_zero_iff]
  have hblank : (∀ c ∈ outer, isBlank c = false) ↔ front = [] :=
    houter ▸ no_blank_iff hfront hback
  refine ⟨w, outer, q, inner, _, _, hw, hcut, append_of_split hcut, ?_,
    fun l hl => ⟨(hread l hl).2, fun r hs => ?_⟩, fun ⟨c, hc, hcblank⟩ r hs => ?_⟩
  · apply List.tfae_of_forall (front = [])
    simp only [List.forall_mem_cons, List.not_mem_nil, false_implies, implies_true, and_true]
    refine ⟨hstart, hblank, fun ⟨l, hl⟩ => (hread l hl).1, fun hnil => ?_⟩
    obtain ⟨l, hl, -⟩ := hgap.read_gap
    exact ⟨l, by rw [hnil, List.append_nil, hl]⟩
  · exact ⟨_, highlight_of_split hcut hs r, (closedSegments_of_read r hl).1⟩
  · have hne : front ≠ [] := by
      intro hnil
      simp [hblank.2 hnil c hc] at hcblank
    rw [highlight_of_split hcut hs,
      closedSegments_of_error r (hw.read_error hgap houter hfront hne), List.singleton_append]

def shop : Registry where
  name := "shop"
  fields := [{ name := "title", type := .string }]

/-- The blank in `'a b'` belongs to the word that starts at byte 8, and the line is cut at byte 11.
What is to the left of it ends inside the quote, so not even the field is styled. -/
theorem openWord_two_quoted_parts :
    Reader.Unfinished "title = 'a b''c".toList
        { start := 8, text := "'a b''c", quote := some '\'' } "'a b'".toList '\'' "c".toList
      ∧ splitAtOpenWord? "title = 'a b''c".toList = some ("title = 'a ".toList, "b''c".toList)
      ∧ utf8Length "title = 'a ".toList ≠ 8
      ∧ Line.read "title = 'a " = .error .unterminatedLiteral
      ∧ highlight shop true "title = 'a b''c"
        = [{ text := "title = 'a " }, openSegment "b''c".toList] := by
  refine ⟨⟨?_, ?_, ?_, ?_, ?_⟩, ?_, ?_, ?_, ?_⟩ <;> decide

/-- A quoted part without a blank in front of the open quote. -/
theorem exists_cutAtOpenWord_shop : HasOpenQuote "title = 'a''b c"
    ∧ ∃ w outer q inner before rest,
      Reader.Unfinished "title = 'a''b c".toList w outer q inner
        ∧ CutAtOpenWord "title = 'a''b c" w outer before rest := by
  have h : HasOpenQuote "title = 'a''b c" := rfl
  exact ⟨h, exists_cutAtOpenWord h⟩

end FieldQuery
