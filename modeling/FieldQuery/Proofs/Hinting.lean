import FieldQuery.Shell.History
import Mathlib.Data.List.TakeWhile
import Mathlib.Logic.Function.Iterate

/-!
# Taking a hint word by word

The newest entry that starts with a line is the newest one for every longer line that it starts with
too, as whatever starts with the longer line starts with the shorter one (`History.newest?_append`).
So a hint that is taken in part leaves the rest of it as the next hint
(`HintedLine.Points.acceptWord`). Every word of a hint has a character, so that the hint gets
shorter with every word until the line is the entry (`HintedLine.Points.exists_run`).
-/

namespace FieldQuery

/-! ## One word -/

theorem nextHintWord_append (hint : String) : ∃ rest, nextHintWord hint ++ rest = hint := by
  let back := hint.toList.dropWhile isBlank
  refine ⟨String.ofList (back.dropWhile fun c => !isBlank c), String.toList_injective ?_⟩
  simp only [nextHintWord, String.toList_append, String.toList_ofList, List.append_assoc]
  rw [List.takeWhile_append_dropWhile, List.takeWhile_append_dropWhile]

/-- A word takes at least one character of a hint, even if the hint is blank. -/
theorem nextHintWord_ne_empty {hint : String} (h : hint ≠ "") : nextHintWord hint ≠ "" := by
  have hne : hint.toList ≠ [] := by simpa using h
  obtain ⟨c, cs, hcs⟩ := List.exists_cons_of_ne_nil hne
  by_cases hc : isBlank c <;> simp [nextHintWord, hcs, hc]

namespace History

variable {history : History} {line entry : String}

/-- An entry that starts with a longer line is the newest for it if it is for the shorter line. -/
theorem newest?_append (h : history.newest? line = some entry) {t : String}
    (ht : entry.startsWith (line ++ t)) : history.newest? (line ++ t) = some entry := by
  obtain ⟨-, newer, older, hentries, hnewer⟩ := List.find?_eq_some_iff_append.1 h
  refine List.find?_eq_some_iff_append.2 ⟨ht, newer, older, hentries, fun e he => ?_⟩
  have hline : e.startsWith line = false := by simpa using hnewer e he
  rw [String.startsWith_string_eq_false_iff] at hline
  rw [Bool.not_eq_true', String.startsWith_string_eq_false_iff, String.toList_append]
  exact fun hlonger => hline ((List.prefix_append _ _).trans hlonger)

theorem hint_append {rest : String} (hblank : isBlankText line = false)
    (h : history.newest? line = some (line ++ rest)) :
    history.hint line (utf8Length line.toList) = rest := by
  have hlength : line.length = line.toList.length := String.length_toList.symm
  simp [hint, hblank, h, hlength]

/-- A hint is shown for lines that are not blank only, and is what their newest entry adds. -/
theorem hint_spec {cursor : Nat} (h : history.hint line cursor ≠ "") :
    isBlankText line = false
      ∧ history.newest? line = some (line ++ history.hint line cursor) := by
  rw [hint] at h ⊢
  split_ifs at h ⊢ with hcursor
  · exact absurd rfl h
  rcases hnewest : history.newest? line with _ | entry <;> rw [hnewest] at h
  · exact absurd rfl h
  have hstart : entry.startsWith line := by simpa using List.find?_some hnewest
  obtain ⟨rest, hrest⟩ := String.startsWith_string_iff.1 hstart
  have hblank : cursor = utf8Length line.toList ∧ isBlankText line = false := by
    simpa using hcursor
  refine ⟨hblank.2, ?_⟩
  have hlength : line.length = line.toList.length := String.length_toList.symm
  simp only [← hrest, hlength, List.drop_left]
  exact congrArg some (String.toList_injective (by simp [hrest]))

end History

theorem isBlankText_append {line : String} (h : isBlankText line = false) (t : String) :
    isBlankText (line ++ t) = false := by
  simp only [isBlankText, String.toList_append, List.all_append] at h ⊢
  rw [h, Bool.false_and]

theorem showHint_eq_empty {color : Bool} {hint : String} (h : showHint color hint = "") :
    hint = "" := by
  by_contra hne
  cases color <;> simp [showHint, hne, Style.paint, Style.opening, Style.sequence, hintStyle,
    Style.numbers] at h

/-! ## Lines with a hint -/

/-- A line with the cursor at its end, what is shown after it, and the hinter that has seen it. -/
structure HintedLine where
  line : String
  shown : String
  hinter : Hinter

/-- The line is typed, without colour. -/
def Hinter.atEnd (q : Hinter) (history : History) (line : String) : HintedLine :=
  let (shown, hinter) := q.handle history line (utf8Length line.toList) false
  { line, shown, hinter }

namespace HintedLine

/-- The next word of the hint is taken. -/
def acceptWord (history : History) (l : HintedLine) : HintedLine :=
  l.hinter.atEnd history (l.line ++ l.hinter.nextHintToken)

/-- The hint is the rest of the entry, which is the newest for the line. -/
structure Points (history : History) (entry : String) (l : HintedLine) : Prop where
  not_blank : isBlankText l.line = false
  newest : history.newest? l.line = some entry
  append : l.line ++ l.shown = entry
  complete : l.hinter.completeHint = l.shown

variable {history : History} {entry : String} {l : HintedLine}

theorem points_atEnd (q : Hinter) {line rest : String} (hblank : isBlankText line = false)
    (h : history.newest? line = some (line ++ rest)) :
    Points history (line ++ rest) (q.atEnd history line) := by
  have hhint := history.hint_append hblank h
  exact ⟨hblank, h, congrArg (line ++ ·) hhint, rfl⟩

theorem exists_points {q : Hinter} {line : String} (h : (q.atEnd history line).shown ≠ "") :
    ∃ entry, Points history entry (q.atEnd history line) :=
  have hspec := History.hint_spec h
  ⟨_, hspec.1, hspec.2, rfl, rfl⟩

namespace Points

theorem nextHintToken_eq (h : Points history entry l) :
    l.hinter.nextHintToken = nextHintWord l.shown :=
  congrArg nextHintWord h.complete

/-- The words of a hint are taken one by one, and the entry stays the same. -/
theorem acceptWord (h : Points history entry l) :
    Points history entry (l.acceptWord history)
      ∧ l.hinter.nextHintToken ++ (l.acceptWord history).shown = l.shown := by
  obtain ⟨rest, hrest⟩ := nextHintWord_append l.shown
  rw [← h.nextHintToken_eq] at hrest
  have hentry : l.line ++ l.hinter.nextHintToken ++ rest = entry := by
    rw [String.append_assoc, hrest, h.append]
  have hstart : entry.startsWith (l.line ++ l.hinter.nextHintToken) :=
    String.startsWith_string_iff.2 ⟨rest.toList, by simp [← hentry]⟩
  -- the search for the longer line finds the same entry, so it is not a hint at another one
  have hnewest := (History.newest?_append h.newest hstart).trans (congrArg some hentry.symm)
  have hblank := isBlankText_append h.not_blank l.hinter.nextHintToken
  have hpoints := points_atEnd l.hinter hblank hnewest
  rw [hentry] at hpoints
  have hshown : (l.acceptWord history).shown = rest := History.hint_append hblank hnewest
  exact ⟨hpoints, by rw [hshown, hrest]⟩

theorem nextHintToken_ne_empty (h : Points history entry l) (hshown : l.shown ≠ "") :
    l.hinter.nextHintToken ≠ "" := by
  rw [h.nextHintToken_eq]
  exact nextHintWord_ne_empty hshown

theorem iterate (h : Points history entry l) (k : Nat) :
    Points history entry ((HintedLine.acceptWord history)^[k] l) := by
  induction k generalizing l with
  | zero => exact h
  | succ k ih => exact ih h.acceptWord.1

/-- Every word makes the hint shorter, until nothing is left of it. -/
theorem exists_run (h : Points history entry l) :
    ∃ n, ((HintedLine.acceptWord history)^[n] l).shown = ""
      ∧ ∀ k < n, ((HintedLine.acceptWord history)^[k] l).shown ≠ "" := by
  induction hlength : l.shown.length using Nat.strong_induction_on generalizing l with
  | _ length ih =>
    by_cases hshown : l.shown = ""
    · exact ⟨0, hshown, by simp⟩
    · obtain ⟨hnext, hrest⟩ := h.acceptWord
      have hshorter : (l.acceptWord history).shown.length < length := by
        have hsum := congrArg String.length hrest
        rw [String.length_append, hlength] at hsum
        have hpos : l.hinter.nextHintToken.length ≠ 0 := by
          simpa using h.nextHintToken_ne_empty hshown
        omega
      obtain ⟨n, hn, hbefore⟩ := ih _ hshorter hnext rfl
      refine ⟨n + 1, hn, fun k hk => ?_⟩
      cases k with
      | zero => exact hshown
      | succ k => exact hbefore k (Nat.lt_of_succ_lt_succ hk)

end Points

/-! ## What a hint leads to -/

/-- What is shown is a hint at the entry, and the words of it lead there. -/
structure LeadsTo (history : History) (entry : String) (l : HintedLine) : Prop where
  newest : history.newest? l.line = some entry
  append : l.line ++ l.shown = entry
  complete : l.hinter.completeHint = l.shown
  token : l.hinter.nextHintToken ≠ ""
  /-- After a word the rest of the hint is shown. -/
  rest : l.hinter.nextHintToken ++ (l.acceptWord history).shown = l.shown
  /-- As long as a hint is shown, it is one at the entry, and in the end this is the line. -/
  run : ∃ n, ((acceptWord history)^[n] l).line = entry ∧ ((acceptWord history)^[n] l).shown = ""
    ∧ ∀ k < n, ((acceptWord history)^[k] l).shown ≠ ""
      ∧ history.newest? ((acceptWord history)^[k] l).line = some entry
      ∧ ((acceptWord history)^[k] l).line ++ ((acceptWord history)^[k] l).shown = entry

theorem Points.leadsTo (h : Points history entry l) (hshown : l.shown ≠ "") :
    LeadsTo history entry l := by
  refine ⟨h.newest, h.append, h.complete, h.nextHintToken_ne_empty hshown, h.acceptWord.2, ?_⟩
  obtain ⟨n, hn, hbefore⟩ := h.exists_run
  have hline := (h.iterate n).append
  rw [hn, String.append_empty] at hline
  exact ⟨n, hline, hn, fun k hk => ⟨hbefore k hk, (h.iterate k).newest, (h.iterate k).append⟩⟩

end HintedLine

/-- A hint leads to the entry it is one at, word by word, and nothing can be taken while none is
shown. -/
theorem Hinter.handle_leadsTo (q : Hinter) (history : History) (line : String) :
    ((q.atEnd history line).shown ≠ "" →
      ∃ entry, HintedLine.LeadsTo history entry (q.atEnd history line))
    ∧ ∀ cursor color, (q.handle history line cursor color).1 = "" →
      (q.handle history line cursor color).2.completeHint = ""
        ∧ (q.handle history line cursor color).2.nextHintToken = "" := by
  refine ⟨fun hshown => ?_, fun cursor color hshown => ?_⟩
  · obtain ⟨entry, hpoints⟩ := HintedLine.exists_points hshown
    exact ⟨entry, hpoints.leadsTo hshown⟩
  · have hhint : (q.handle history line cursor color).2.hint = "" := showHint_eq_empty hshown
    rw [Hinter.completeHint, Hinter.nextHintToken, hhint]
    exact ⟨rfl, rfl⟩

/-- The newest line does not start with the text, and the one before ends with a blank. -/
def searches : History where
  capacity := 100
  entries := ["string = 1", "string ~ foo  and int > 3 ", "string ~ bar"]

theorem Hinter.handle_leadsTo_searches :
    (({} : Hinter).atEnd searches "string ~").shown = " foo  and int > 3 "
      ∧ (∃ entry, HintedLine.LeadsTo searches entry (({} : Hinter).atEnd searches "string ~"))
      ∧ (({ hint := " foo" } : Hinter).handle searches "int" 1 true).2.completeHint = "" := by
  have hshown : (({} : Hinter).atEnd searches "string ~").shown = " foo  and int > 3 " := by
    decide +kernel
  have hnone : (({ hint := " foo" } : Hinter).handle searches "int" 1 true).1 = "" := by
    decide +kernel
  refine ⟨hshown, (handle_leadsTo {} searches "string ~").1 ?_,
    ((handle_leadsTo { hint := " foo" } searches "int").2 1 true hnone).1⟩
  rw [hshown]
  decide

end FieldQuery
