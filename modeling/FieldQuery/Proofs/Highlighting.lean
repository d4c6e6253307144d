import FieldQuery.Proofs.OpenQuotes
import FieldQuery.Proofs.Tiling

/-!
# Highlighted lines

The tokens of a line lie one after another in it, with only blanks around them (`Tiled.laid`).
Segments are cut at the ends of tokens, so from one end to the next there is a gap, if there is
one, and then one token (`Laid.shows`). Every other cut is at a place that splits the line in two,
so the segments spell the line whatever is cut (`highlight_spelled`).
-/

namespace FieldQuery

/-! ## Tokens in a row -/

/-- The tokens lie in the text, which starts at byte `n`, one after another and with only blanks
around them. -/
inductive Laid : Nat → List Char → List Token → Prop
  | nil {n : Nat} {gap : List Char} (hgap : ∀ c ∈ gap, isBlank c) : Laid n gap []
  | cons {n : Nat} {gap cs : List Char} {t : Token} {ts : List Token}
    (hgap : ∀ c ∈ gap, isBlank c) (hstart : t.start = n + utf8Length gap)
    (hstop : t.stop = t.start + utf8Length t.text.toList) (h : Laid t.stop cs ts) :
    Laid n (gap ++ t.text.toList ++ cs) (t :: ts)

/-- Of two starts of a text the one that takes fewer bytes is a start of the other. -/
theorem append_of_utf8Length_le {as bs cs ds : List Char} (h : as ++ bs = cs ++ ds)
    (hle : utf8Length as ≤ utf8Length cs) : ∃ es, cs = as ++ es ∧ bs = es ++ ds := by
  rcases List.append_eq_append_iff.1 h with ⟨es, hcs, hbs⟩ | ⟨es, has, hds⟩
  · exact ⟨es, hcs, hbs⟩
  · have hes : es = [] := by
      cases es with
      | nil => rfl
      | cons e es =>
        have hpos := e.utf8Size_pos
        rw [has, utf8Length_append, utf8Length] at hle
        omega
    subst hes
    exact ⟨[], by simpa using has.symm, by simpa using hds.symm⟩

/-- A character that no token goes over is a blank. -/
theorem Tiled.isBlank_of_outside {cs before after : List Char} {ts : List Token} {c : Char}
    (h : Tiled cs ts) (hcs : cs = before ++ c :: after)
    (hout : ∀ t ∈ ts, t.stop ≤ utf8Length before ∨ utf8Length before < t.start) : isBlank c := by
  by_contra hblank
  obtain ⟨t, ht, hstart, hstop⟩ := h.covered before c after hcs (by simpa using hblank)
  have hoff := hout t ht
  omega

/-- Where the tokens of `done` end before `cs`, the other tokens lie in `cs` one after another. -/
theorem Tiled.laid_append : ∀ {ts done : List Token} {before cs : List Char},
    Tiled (before ++ cs) (done ++ ts) → (∀ t ∈ done, t.stop ≤ utf8Length before) →
      (∀ t ∈ ts, utf8Length before ≤ t.start) → Laid (utf8Length before) cs ts
  | [], done, before, cs, h, hdone, _ => by
    refine .nil fun c hc => ?_
    obtain ⟨gap, rest, rfl⟩ := List.append_of_mem hc
    refine h.isBlank_of_outside (List.append_assoc before gap (c :: rest)).symm fun u hu => ?_
    have hend := hdone u (by simpa using hu)
    rw [utf8Length_append]
    exact .inl (by omega)
  | t :: ts, done, before, cs, h, hdone, hts => by
    obtain ⟨front, rest, hline, hstart, hstop⟩ := h.spans t (by simp)
    have hle := hts t List.mem_cons_self
    rw [hstart] at hle
    rw [List.append_assoc] at hline
    obtain ⟨gap, rfl, rfl⟩ := append_of_utf8Length_le hline hle
    have hlater : ∀ u ∈ ts, t.stop < u.start :=
      (List.pairwise_cons.1 (List.pairwise_append.1 h.apart).2.1).1
    have hlength : t.stop = t.start + utf8Length t.text.toList := by
      rw [hstop, hstart, utf8Length_append (before ++ gap)]
    have hgap : ∀ c ∈ gap, isBlank c := by
      intro c hc
      obtain ⟨gap₁, gap₂, rfl⟩ := List.append_of_mem hc
      have hsplit : before ++ (gap₁ ++ c :: gap₂ ++ (t.text.toList ++ rest))
          = before ++ gap₁ ++ c :: (gap₂ ++ (t.text.toList ++ rest)) := by simp
      refine h.isBlank_of_outside hsplit ?_
      have hpos := c.utf8Size_pos
      simp only [utf8Length_append, utf8Length] at hstart ⊢
      refine List.forall_mem_append.2 ⟨fun u hu => .inl ?_, List.forall_mem_cons.2 ⟨.inr ?_,
        fun u hu => .inr ?_⟩⟩
      · have hend := hdone u hu
        omega
      · omega
      · have hbehind := hlater u hu
        omega
    have hrest : Laid (utf8Length (before ++ gap ++ t.text.toList)) rest ts := by
      have htiled : Tiled (before ++ gap ++ t.text.toList ++ rest) (done ++ [t] ++ ts) := by
        simpa using h
      refine Tiled.laid_append htiled ?_ ?_
      · refine List.forall_mem_append.2 ⟨fun u hu => ?_, List.forall_mem_singleton.2 hstop.le⟩
        have hend := hdone u hu
        rw [List.append_assoc, utf8Length_append]
        omega
      · intro u hu
        rw [← hstop]
        exact (hlater u hu).le
    rw [← List.append_assoc]
    exact .cons hgap (hstart.trans (utf8Length_append _ _)) hlength (hstop ▸ hrest)

theorem Tiled.laid {cs : List Char} {ts : List Token} (h : Tiled cs ts) : Laid 0 cs ts := by
  have htiled : Tiled ([] ++ cs) ([] ++ ts) := h
  exact Tiled.laid_append htiled (by simp) (by simp [utf8Length])

/-! ## What segments show -/

/-- The text of the segments. -/
def spelled (segs : List Segment) : String :=
  String.join (segs.map (·.text))

theorem toList_spelled (segs : List Segment) :
    (spelled segs).toList = segs.flatMap (·.text.toList) := by
  rw [spelled, String.toList_join, List.flatMap_map]

theorem spelled_append (as bs : List Segment) : spelled (as ++ bs) = spelled as ++ spelled bs := by
  apply String.toList_injective
  rw [String.toList_append, toList_spelled, toList_spelled, toList_spelled, List.flatMap_append]

theorem spelled_singleton (s : Segment) : spelled [s] = s.text := by
  apply String.toList_injective
  rw [toList_spelled, List.flatMap_singleton]

/-- Between tokens there are blanks, which are not styled. -/
structure Segment.IsGap (s : Segment) : Prop where
  nonempty : s.text ≠ ""
  blank : isBlankText s.text
  plain : s.style = {}

/-- From byte `n` on, the segments are the tokens, each from its first byte to its last one and in
the style of its kind, and gaps. -/
inductive Registry.Shows (r : Registry) : Nat → List (Token × TokenKind) → List Segment → Prop
  | nil {n : Nat} : Shows r n [] []
  | gap {n : Nat} {ts : List (Token × TokenKind)} {s : Segment} {segs : List Segment}
    (hs : s.IsGap) (h : Shows r (n + utf8Length s.text.toList) ts segs) : Shows r n ts (s :: segs)
  | token {t : Token} {kind : TokenKind} {ts : List (Token × TokenKind)} {segs : List Segment}
    (h : Shows r t.stop ts segs) :
    Shows r t.start ((t, kind) :: ts) ({ style := kind.style r t.text, text := t.text } :: segs)

theorem Registry.Shows.plain {r : Registry} {n : Nat} {ts : List (Token × TokenKind)}
    {segs : List Segment} {gap : List Char} (hgap : ∀ c ∈ gap, isBlank c)
    (h : r.Shows (n + utf8Length gap) ts segs) : r.Shows n ts (plainSegment gap ++ segs) := by
  cases gap with
  | nil => exact h
  | cons c cs =>
    refine .gap ⟨?_, ?_, rfl⟩ ?_
    · intro hempty
      simpa using congrArg String.toList hempty
    · simpa [isBlankText] using hgap
    · rwa [String.toList_ofList]

theorem flatMap_plainSegment (cs : List Char) :
    (plainSegment cs).flatMap (·.text.toList) = cs := by
  cases cs <;> simp [plainSegment]

/-- The segments of a text show its tokens and spell it. -/
theorem Laid.shows (r : Registry) : ∀ {ts : List (Token × TokenKind)} {n : Nat} {cs : List Char},
    Laid n cs (ts.map (·.1)) → r.Shows n ts (tokenSegments r n cs ts)
      ∧ (tokenSegments r n cs ts).flatMap (·.text.toList) = cs
  | [], n, cs, h => by
    cases h with
    | nil hgap =>
      refine ⟨?_, flatMap_plainSegment cs⟩
      have hshows : r.Shows n [] (plainSegment cs ++ []) := .plain hgap .nil
      rwa [List.append_nil] at hshows
  | (t, kind) :: ts, n, _, h => by
    cases h with
    | @cons _ gap cs _ _ hgap hstart hstop h =>
      obtain ⟨hshows, hspells⟩ := h.shows r
      have htake : takeBytes (t.start - n) (gap ++ t.text.toList ++ cs) = gap := by
        rw [hstart, Nat.add_sub_cancel_left, List.append_assoc, takeBytes_utf8Length]
      have hdrop : (gap ++ t.text.toList ++ cs).drop (gap.length + t.text.length) = cs := by
        rw [← String.length_toList, ← List.length_append, List.drop_left]
      rw [tokenSegments]
      simp only [htake, hdrop]
      refine ⟨.plain hgap (hstart ▸ .token hshows), ?_⟩
      rw [List.flatMap_append, flatMap_plainSegment, List.flatMap_cons, hspells, List.append_assoc]

/-- The tokens of the line, each with the kind that replay gives it. -/
def Line.labelled (l : Line) : List (Token × TokenKind) :=
  l.tokens.zip (Replay.run l.tokens).kinds

theorem Line.labelled_tokens (l : Line) : l.labelled.map (·.1) = l.tokens := by
  rw [labelled, List.map_fst_zip]
  rw [Replay.run_kinds, Position.length_kinds]

section Closed

variable (r : Registry) {s : String}

theorem closedSegments_of_read {l : Line} (h : Line.read s = .ok l) :
    r.Shows 0 l.labelled (closedSegments r s) ∧ spelled (closedSegments r s) = s := by
  have hlaid : Laid 0 s.toList (l.labelled.map (·.1)) := by
    rw [l.labelled_tokens]
    exact (Line.tiled_of_read h).laid
  obtain ⟨hshows, hspells⟩ := hlaid.shows r
  rw [closedSegments, h]
  refine ⟨hshows, String.toList_injective ?_⟩
  rw [toList_spelled]
  exact hspells

theorem closedSegments_of_error {e : TokenError} (h : Line.read s = .error e) :
    closedSegments r s = [{ text := s }] := by
  rw [closedSegments, h]

theorem spelled_closedSegments (s : String) : spelled (closedSegments r s) = s := by
  rcases h : Line.read s with e | l
  · rw [closedSegments_of_error r h, spelled_singleton]
  · exact (closedSegments_of_read r h).2

end Closed

/-! ## Whole lines -/

/-- The rest of a line from the word with the open quote on. -/
def openSegment (rest : List Char) : Segment where
  style := { italic := true, color := some .green }
  text := String.ofList rest

section Cut

variable {s : String} {before rest : List Char}

theorem append_of_split (h : splitAtOpenWord? s.toList = some (before, rest)) :
    s.toList = before ++ rest := by
  obtain ⟨inside, -, hcut⟩ := Option.map_eq_some_iff.1 h
  obtain ⟨rfl, rfl⟩ := Prod.mk.inj hcut
  exact (List.take_append_drop _ _).symm

theorem highlight_of_split (h : splitAtOpenWord? s.toList = some (before, rest))
    (hs : isCommandLine s = false) (r : Registry) :
    highlight r true s = closedSegments r (String.ofList before) ++ [openSegment rest] := by
  simp [highlight, hs, h, openSegment]

theorem highlight_of_no_split (h : splitAtOpenWord? s.toList = none)
    (hs : isCommandLine s = false) (r : Registry) : highlight r true s = closedSegments r s := by
  simp [highlight, hs, h]

end Cut

/-- The segments are the tokens of the text and gaps, or all of the text if it cannot be read. -/
def Registry.Highlights (r : Registry) (text : String) (segs : List Segment) : Prop :=
  (∃ l, Line.read text = .ok l ∧ r.Shows 0 l.labelled segs)
    ∨ Line.read text = .error .unterminatedLiteral ∧ segs = [{ text }]

theorem highlights_closedSegments (r : Registry) (s : String) :
    r.Highlights s (closedSegments r s) := by
  rcases h : Line.read s with ⟨⟩ | l
  · exact .inr ⟨h, closedSegments_of_error r h⟩
  · exact .inl ⟨l, h, (closedSegments_of_read r h).1⟩

/-- The segments of a line spell it. Where highlighting is on and the line is no command, they are
its tokens and gaps, up to the word with the open quote if there is one. -/
theorem highlight_spelled (r : Registry) (enabled : Bool) (line : String) :
    spelled (highlight r enabled line) = line
      ∧ (enabled → isCommandLine line = false →
        (splitAtOpenWord? line.toList = none → ∃ l, Line.read line = .ok l
          ∧ r.Shows 0 l.labelled (highlight r enabled line))
        ∧ ∀ before rest, splitAtOpenWord? line.toList = some (before, rest) →
          line.toList = before ++ rest ∧ ∃ segs, highlight r enabled line
            = segs ++ [openSegment rest] ∧ r.Highlights (String.ofList before) segs) := by
  constructor
  · cases enabled with
    | false => exact spelled_singleton _
    | true =>
      rcases hs : isCommandLine line with _ | _
      · rcases h : splitAtOpenWord? line.toList with _ | ⟨before, rest⟩
        · rw [highlight_of_no_split h hs, spelled_closedSegments]
        · apply String.toList_injective
          rw [highlight_of_split h hs, append_of_split h, spelled_append, spelled_closedSegments,
            spelled_singleton]
          simp [openSegment]
      · simp [highlight, hs, spelled_singleton]
  · rintro rfl hs
    refine ⟨fun h => ?_, fun before rest h => ⟨append_of_split h, _, highlight_of_split h hs r,
      highlights_closedSegments r _⟩⟩
    rw [highlight_of_no_split h hs]
    rcases hread : Line.read line with ⟨⟩ | l
    · -- the scan for the open quote would have found it
      have hopen := splitAtOpenWord?_isSome_iff.2 (Line.read_error_iff.1 hread)
      simp [h] at hopen
    · exact ⟨l, rfl, (closedSegments_of_read r hread).1⟩

def museum : Registry where
  name := "museum"
  fields := [{ name := "née", type := .datetime, aliases := ["born"] },
    { name := "gift", type := .boolean, completionEnabled := false }]

/-- Letters and blanks of several bytes, an alias, a field that may not be used, and a quote that is
left open behind a blank. -/
theorem highlight_spelled_museum :
    isCommandLine "  born\u3000= 'May 5, 1901' | has gift = \"n o" = false
      ∧ spelled (highlight museum true "  born\u3000= 'May 5, 1901' | has gift = \"n o")
        = "  born\u3000= 'May 5, 1901' | has gift = \"n o"
      ∧ ∃ segs, highlight museum true "  born\u3000= 'May 5, 1901' | has gift = \"n o"
          = segs ++ [openSegment "\"n o".toList]
        ∧ museum.Highlights "  born\u3000= 'May 5, 1901' | has gift = " segs := by
  have hs : isCommandLine "  born\u3000= 'May 5, 1901' | has gift = \"n o" = false := by decide
  obtain ⟨hspelled, hsegs⟩ := highlight_spelled museum true
    "  born\u3000= 'May 5, 1901' | has gift = \"n o"
  exact ⟨hs, hspelled, ((hsegs rfl hs).2 _ _ (by decide +kernel)).2⟩

end FieldQuery
