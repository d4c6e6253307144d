import FieldQuery.Proofs.Phrases
import FieldQuery.Proofs.Tiling
import Mathlib.Data.List.TakeWhile

/-!
# Blanks around tokens

Validation looks at the texts of tokens and at whether they are literals, not at where they stand
(`Registry.validate_unplaced`). So any two lines whose tokens differ only in their places are valid
alike. Such are a line and the line without the blanks at its ends, which change no token
(`Line.unplaced_trim`), and a line and the texts of its tokens with blanks in between
(`Line.unplaced_joined`), because the text of a token is read as this token again.
-/

namespace FieldQuery

/-! ## Tokens apart from their places -/

namespace Token

/-- The token apart from its place in the line. -/
def unplaced (t : Token) : Token where
  text := t.text
  literal := t.literal

@[simp] theorem isName_unplaced (t : Token) : t.unplaced.isName = t.isName := rfl

@[simp] theorem isSymbol_unplaced (t : Token) : t.unplaced.isSymbol = t.isSymbol := rfl

@[simp] theorem unplaced_ended (t : Token) : t.ended.unplaced = t.unplaced := rfl

@[simp] theorem unplaced_moved (n : Nat) (t : Token) : (t.moved n).unplaced = t.unplaced := rfl

/-- The token that the text is if it is read as one token. -/
def ofText (s : String) : Token where
  text := s
  literal := s.toList.head?.any isQuote

theorem Whole.unplaced {t : Token} (h : t.Whole) : t.unplaced = ofText t.text := by
  rw [Token.unplaced, ofText, h.literal]

end Token

namespace Phrase

def unplaced : Phrase → Phrase
  | .connective c => .connective c
  | .presence op name => .presence op name.unplaced
  | .comparison name symbol value => .comparison name.unplaced symbol.unplaced value.unplaced
  | .dangling name symbol => .dangling name.unplaced symbol.unplaced
  | .freeText t => .freeText t.unplaced

end Phrase

theorem phrases_unplaced (ts : List Token) :
    phrases (ts.map Token.unplaced) = (phrases ts).map Phrase.unplaced := by
  fun_induction phrases ts with
  | case1 => rfl
  | case2 t ts c hc ih =>
    rw [List.map_cons, phrases_connective (t := t.unplaced) hc, ih]
    rfl
  | case3 t op hp hc => exact phrases_prefixOperator hc hp (by simp)
  | case4 t op hp hc name ts hn ih =>
    have hname : name.unplaced.isName := hn
    rw [List.map_cons, List.map_cons, phrases_presence (t := t.unplaced) hc hp hname, ih]
    rfl
  | case5 t op hp hc name ts hn ih =>
    rw [List.map_cons, phrases_prefixOperator (t := t.unplaced) hc hp (by simpa using hn), ih]
    rfl
  | case6 t ts hp hc hl ih =>
    rw [List.map_cons, phrases_literal (t := t.unplaced) hc hp hl, ih]
    rfl
  | case7 t hp hc hl => exact phrases_name (Token.isName_of hc hp hl) (by simp)
  | case8 t hp hc hl symbol hs => exact phrases_dangling (Token.isName_of hc hp hl) hs
  | case9 t hp hc hl symbol hs value ts ih =>
    have hn : t.unplaced.isName := Token.isName_of hc hp hl
    have hsymbol : symbol.unplaced.isSymbol := hs
    rw [List.map_cons, List.map_cons, List.map_cons, phrases_comparison hn hsymbol, ih]
    rfl
  | case10 t hp hc hl symbol ts hs ih =>
    have hn : t.unplaced.isName := Token.isName_of hc hp hl
    rw [List.map_cons, phrases_name hn (by simpa using hs), ih]
    rfl

theorem exists_trim (s : String) : ∃ front back, (∀ c ∈ front.toList, isBlank c)
    ∧ (∀ c ∈ back.toList, isBlank c) ∧ s = front ++ trim s ++ back := by
  let rest := (s.toList.dropWhile isBlank).reverse
  refine ⟨String.ofList (s.toList.takeWhile isBlank),
    String.ofList (rest.takeWhile isBlank).reverse, fun c hc => ?_, fun c hc => ?_, ?_⟩
  · exact List.mem_takeWhile_imp (by simpa using hc)
  · exact List.mem_takeWhile_imp (l := rest) (by simpa using hc)
  · have hrest : (rest.dropWhile isBlank).reverse ++ (rest.takeWhile isBlank).reverse
        = s.toList.dropWhile isBlank := by
      rw [← List.reverse_append, List.takeWhile_append_dropWhile, List.reverse_reverse]
    apply String.toList_injective
    simp only [trim, trimEnd, String.toList_append, String.toList_ofList, List.append_assoc]
    rw [hrest, List.takeWhile_append_dropWhile]

namespace Registry

variable (r : Registry) (mode : ValidationMode)

theorem readPhrases_unplaced : ∀ ps : List Phrase,
    r.readPhrases mode (ps.map Phrase.unplaced) = r.readPhrases mode ps
  | [] => rfl
  | p :: ps => by
    have hp : r.readPhrase mode p.unplaced = r.readPhrase mode p := by cases p <;> rfl
    rw [List.map_cons, readPhrases_cons, readPhrases_cons, hp, readPhrases_unplaced ps]

theorem validate_unplaced (ts : List Token) :
    r.validate mode (ts.map Token.unplaced) = r.validate mode ts := by
  rw [validate_eq_map, validate_eq_map, phrases_unplaced, readPhrases_unplaced]

end Registry

/-! ## Lines with other blanks -/

namespace Line

/-- The tokens of the line apart from their places. -/
def unplaced (l : Line) : List Token :=
  l.tokens.map Token.unplaced

section Spaced

variable {w : String} (hw : ∀ c ∈ w.toList, isBlank c)

include hw

theorem unplaced_append {a : String} {l : Line} (ha : read a = .ok l) (hne : w.toList ≠ [])
    (b : String) :
    (read (a ++ w ++ b)).map unplaced = (read b).map fun l' => l.unplaced ++ l'.unplaced := by
  have h := congrArg (Except.map (List.map Token.unplaced)) (tokens_append ha hne hw b)
  rcases hread : read (a ++ w ++ b) with e | l'' <;> rcases hb : read b with e' | l' <;>
    simp only [hread, hb, Except.map, reduceCtorEq, Except.ok.injEq] at h ⊢
  simpa [unplaced, Function.comp_def] using h

theorem unplaced_blanks_append (b : String) :
    (read (w ++ b)).map unplaced = (read b).map unplaced := by
  by_cases hne : w.toList = []
  · obtain rfl : w = "" := String.toList_inj.1 hne
    rw [String.empty_append]
  · have hempty : read "" = .ok { input := "", tokens := [] } := rfl
    have h := unplaced_append hw hempty hne b
    rwa [String.empty_append] at h

theorem unplaced_append_blanks (a : String) :
    (read (a ++ w)).map unplaced = (read a).map unplaced := by
  by_cases hne : w.toList = []
  · obtain rfl : w = "" := String.toList_inj.1 hne
    rw [String.append_empty]
  · rcases ha : read a with e | l
    · have hquote : ∀ c ∈ w.toList, isQuote c = false := fun c hc => isQuote_of_isBlank (hw c hc)
      rw [read_append_of_open ha hquote]
    · have hempty : read "" = .ok { input := "", tokens := [] } := rfl
      have h := unplaced_append hw ha hne ""
      rw [hempty, String.append_empty] at h
      simpa [Except.map, unplaced] using h

end Spaced

/-- The blanks at the ends of a line change none of its tokens. -/
theorem unplaced_trim (s : String) : (read (trim s)).map unplaced = (read s).map unplaced := by
  obtain ⟨front, back, hfront, hback, hs⟩ := exists_trim s
  conv_rhs => rw [hs]
  rw [unplaced_append_blanks hback, unplaced_blanks_append hfront]

/-- Texts that are tokens each, with blanks in between, are read as these tokens. -/
theorem unplaced_joined {w : String} (hw : ∀ c ∈ w.toList, isBlank c) (hne : w.toList ≠ []) :
    ∀ {ss : List String}, (∀ s ∈ ss, IsTokenText s) →
      (read (w.intercalate ss)).map unplaced = .ok (ss.map Token.ofText)
  | [], _ => by rfl
  | s :: ss, h => by
    obtain ⟨hs, hss⟩ := List.forall_mem_cons.1 h
    obtain ⟨l, t, hread, hl, ht, hliteral⟩ := read_tokenText hs
    have htoken : l.unplaced = [Token.ofText s] := by
      simp [unplaced, hl, Token.unplaced, Token.ofText, ht, hliteral]
    by_cases hnil : ss = []
    · rw [hnil, String.intercalate_singleton, hread]
      exact congrArg Except.ok htoken
    · have hrest := unplaced_joined hw hne hss
      rw [String.intercalate_cons_of_ne_nil hnil, unplaced_append hw hread hne, htoken]
      rcases hjoined : read (w.intercalate ss) with e | l'
      · simp [hjoined, Except.map] at hrest
      · simpa [hjoined, Except.map] using hrest

theorem unplaced_of_read {s : String} {l : Line} (h : read s = .ok l) :
    l.unplaced = (l.tokens.map (·.text)).map Token.ofText := by
  rw [unplaced, List.map_map]
  exact List.map_congr_left fun t ht => (whole_of_read h t ht).unplaced

end Line

namespace Registry

variable (r : Registry) (mode : ValidationMode)

/-- Lines are valid alike if their tokens differ in their places only. -/
theorem validateText_congr {s s' : String}
    (h : (Line.read s).map Line.unplaced = (Line.read s').map Line.unplaced) :
    r.validateText mode s = r.validateText mode s' := by
  rw [validateText, validateText]
  rcases hs : Line.read s with ⟨⟩ | l <;> rcases hs' : Line.read s' with ⟨⟩ | l' <;>
    simp only [hs, hs', Except.map, reduceCtorEq, Except.ok.injEq] at h ⊢
  rw [← validate_unplaced, ← r.validate_unplaced mode l'.tokens]
  exact congrArg (r.validate mode) h

variable {r mode}

/-- Behind a line and some blanks, what follows is read as it is on its own, only further to the
right. So a line means the same with or without blanks at its ends, and with any blanks between its
tokens. -/
theorem validateText_spaced {a w : String} {l : Line} (ha : Line.read a = .ok l)
    (hne : w.toList ≠ []) (hw : ∀ c ∈ w.toList, isBlank c) :
    (∀ b, (Line.read (a ++ w ++ b)).map Line.tokens = (Line.read b).map fun l' =>
        l.tokens.map Token.ended
          ++ l'.tokens.map (Token.moved (utf8Length (a ++ w).toList)))
      ∧ r.validateText mode (w.intercalate (l.tokens.map (·.text))) = r.validateText mode a
      ∧ ∀ s, r.validateText mode (trim s) = r.validateText mode s := by
  refine ⟨Line.tokens_append ha hne hw, r.validateText_congr mode ?_,
    fun s => r.validateText_congr mode (Line.unplaced_trim s)⟩
  have htexts : ∀ s ∈ l.tokens.map (·.text), IsTokenText s :=
    List.forall_mem_map.2 fun t ht => (Line.whole_of_read ha t ht).text
  rw [Line.unplaced_joined hw hne htexts, ha, ← Line.unplaced_of_read ha]
  rfl

def cabinet : Registry where
  name := "cabinet"
  fields := [{ name := "label", type := .string }]

/-- The blanks inside quotes stay as they are. -/
theorem validateText_spaced_cabinet : ∃ l, Line.read "label  = 'a  b'" = .ok l
    ∧ "\n\t".intercalate (l.tokens.map (·.text)) = "label\n\t=\n\t'a  b'"
    ∧ cabinet.validateText .full ("\n\t".intercalate (l.tokens.map (·.text)))
      = .ok { clauses := [.comparison "label" .eq "a  b"] }
    ∧ cabinet.validateText .full (trim " label  = 'a  b'\n")
      = .ok { clauses := [.comparison "label" .eq "a  b"] } := by
  obtain ⟨l, hread⟩ : ∃ l, Line.read "label  = 'a  b'" = .ok l := ⟨_, rfl⟩
  have hblank : ∀ c ∈ "\n\t".toList, isBlank c := List.all_eq_true.1 (by decide)
  obtain ⟨-, hjoined, htrim⟩ :=
    @validateText_spaced cabinet .full _ "\n\t" l hread (by decide) hblank
  refine ⟨l, hread, ?_, hjoined.trans (by decide +kernel), (htrim _).trans (by decide +kernel)⟩
  obtain rfl := Except.ok.inj hread
  decide

end Registry

end FieldQuery
