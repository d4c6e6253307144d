import FieldQuery.Proofs.Soundness
import Mathlib.Data.Nat.Digits.Defs

/-!
# Integer values

An integer literal is written by its sign and its digits, and denotes the number that the digits
denote by their places (`IntegerLiteral`). Reading takes exactly what is written in this way, with
any number of leading zeros (`integer?_eq_some_iff`), and whether it is in range is a matter of the
number alone (`integer64?_isSome_iff`). A comparison with an integer field is valid exactly if all
items of its value are literals in range, and otherwise the first one that is not is reported
(`Registry.validate_integer`).
-/

namespace FieldQuery

inductive Sign where
  | absent
  | plus
  | minus
deriving DecidableEq, Repr

def Sign.chars : Sign → List Char
  | absent => []
  | plus => ['+']
  | minus => ['-']

/-- The digits as they are written. -/
def digitChars (ds : List (Fin 10)) : List Char :=
  ds.map fun d => Nat.digitChar d.val

/-- The number that the digits denote by their places. -/
def placeValue (ds : List (Fin 10)) : Nat :=
  Nat.ofDigits 10 (ds.reverse.map Fin.val)

structure IntegerLiteral where
  sign : Sign := .absent
  /-- The decimal digits, the first one first. -/
  digits : List (Fin 10)
  digits_ne_nil : digits ≠ [] := by decide

namespace IntegerLiteral

def text (l : IntegerLiteral) : String :=
  String.ofList (l.sign.chars ++ digitChars l.digits)

def value (l : IntegerLiteral) : Int :=
  match l.sign with
  | .absent | .plus => placeValue l.digits
  | .minus => -placeValue l.digits

end IntegerLiteral

/-- The text is a literal of an integer that fits 64 bits with a sign. -/
def IsInteger64 (text : String) : Prop :=
  ∃ l : IntegerLiteral, l.text = text ∧ -2 ^ 63 ≤ l.value ∧ l.value ≤ 2 ^ 63 - 1

/-! ## Reading what is written -/

theorem exists_digitChar {c : Char} (h : c.isDigit) : ∃ d : Fin 10, Nat.digitChar d.val = c := by
  obtain ⟨hlow, hhigh⟩ := Char.isDigit_iff_toNat.1 h
  rw [show '0'.toNat = 48 from rfl] at hlow
  rw [show '9'.toNat = 57 from rfl] at hhigh
  have hten : c.toNat - 48 < 10 := by omega
  refine ⟨⟨c.toNat - 48, hten⟩, Char.toNat_inj.1 ?_⟩
  rw [Nat.toNat_digitChar_of_lt_ten hten]
  omega

theorem exists_digitChars : ∀ {cs : List Char}, cs.all Char.isDigit → ∃ ds, digitChars ds = cs
  | [], _ => ⟨[], rfl⟩
  | c :: cs, h => by
    rw [List.all_cons, Bool.and_eq_true] at h
    obtain ⟨d, rfl⟩ := exists_digitChar h.1
    obtain ⟨ds, rfl⟩ := exists_digitChars h.2
    exact ⟨d :: ds, rfl⟩

theorem all_isDigit_digitChars (ds : List (Fin 10)) : (digitChars ds).all Char.isDigit := by
  rw [digitChars, List.all_map, List.all_eq_true]
  intro d _
  rw [Function.comp_apply, Nat.isDigit_digitChar]
  exact decide_eq_true d.isLt

/-- Reading from the first digit on and counting places from the last come to one number. -/
theorem foldl_digitChars (ds : List (Fin 10)) :
    (digitChars ds).foldl (fun n c => 10 * n + (c.toNat - '0'.toNat)) 0 = placeValue ds := by
  induction ds using List.reverseRecOn with
  | nil => rfl
  | append_singleton ds d ih =>
    have hd : (Nat.digitChar d.val).toNat - '0'.toNat = d.val :=
      Nat.toNat_digitChar_sub_48_of_lt_ten d.isLt
    rw [digitChars, List.map_append, List.foldl_append, ← digitChars, ih, List.map_singleton,
      List.foldl_cons, List.foldl_nil, hd, placeValue, placeValue, List.reverse_append,
      List.reverse_singleton, List.singleton_append, List.map_cons, Nat.ofDigits_cons]
    omega

theorem natural?_eq_some_iff {cs : List Char} {n : Nat} :
    natural? cs = some n ↔ ∃ ds, ds ≠ [] ∧ digitChars ds = cs ∧ placeValue ds = n := by
  constructor
  · intro h
    rw [natural?] at h
    split_ifs at h with hcs
    obtain ⟨ds, rfl⟩ := exists_digitChars hcs.2
    rw [foldl_digitChars] at h
    exact ⟨ds, fun hds => hcs.1 (hds ▸ rfl), rfl, Option.some.inj h⟩
  · rintro ⟨ds, hne, rfl, rfl⟩
    rw [natural?, if_pos ⟨by simpa [digitChars] using hne, all_isDigit_digitChars ds⟩,
      foldl_digitChars]

theorem integer?_minus (cs : List Char) :
    integer? ('-' :: cs) = (natural? cs).map fun n : Nat => -(n : Int) := by
  rw [integer?]
  rcases natural? cs with _ | n <;> rfl

theorem integer?_unsigned {cs : List Char} (hminus : ∀ ds, cs ≠ '-' :: ds)
    (hplus : ∀ ds, cs ≠ '+' :: ds) : integer? cs = (natural? cs).map Int.ofNat :=
  integer?.eq_3 cs hminus hplus

/-- No digit is a sign. -/
theorem digitChars_ne_cons {c : Char} (hc : c = '-' ∨ c = '+') (ds : List (Fin 10))
    (cs : List Char) : digitChars ds ≠ c :: cs := by
  intro h
  have hdigit := all_isDigit_digitChars ds
  rw [h, List.all_cons, Bool.and_eq_true] at hdigit
  rcases hc with rfl | rfl <;> exact absurd hdigit.1 (by decide)

theorem integer?_text (l : IntegerLiteral) : integer? l.text.toList = some l.value := by
  have hdigits : natural? (digitChars l.digits) = some (placeValue l.digits) :=
    natural?_eq_some_iff.2 ⟨l.digits, l.digits_ne_nil, rfl, rfl⟩
  rw [IntegerLiteral.text, String.toList_ofList, IntegerLiteral.value]
  cases l.sign with
  | absent =>
    rw [Sign.chars, List.nil_append, integer?_unsigned (digitChars_ne_cons (.inl rfl) _)
      (digitChars_ne_cons (.inr rfl) _), hdigits]
    rfl
  | plus => simp [Sign.chars, integer?, hdigits]
  | minus => simp [Sign.chars, integer?_minus, hdigits]

theorem integer?_eq_some_iff {cs : List Char} {n : Int} :
    integer? cs = some n ↔ ∃ l : IntegerLiteral, l.text.toList = cs ∧ l.value = n := by
  constructor
  · intro h
    by_cases hminus : ∃ ds, cs = '-' :: ds
    · obtain ⟨cs, rfl⟩ := hminus
      rw [integer?_minus] at h
      obtain ⟨m, hm, rfl⟩ := Option.map_eq_some_iff.1 h
      obtain ⟨ds, hne, rfl, rfl⟩ := natural?_eq_some_iff.1 hm
      exact ⟨⟨.minus, ds, hne⟩, by simp [IntegerLiteral.text, Sign.chars], rfl⟩
    by_cases hplus : ∃ ds, cs = '+' :: ds
    · obtain ⟨cs, rfl⟩ := hplus
      obtain ⟨m, hm, rfl⟩ := Option.map_eq_some_iff.1 h
      obtain ⟨ds, hne, rfl, rfl⟩ := natural?_eq_some_iff.1 hm
      exact ⟨⟨.plus, ds, hne⟩, by simp [IntegerLiteral.text, Sign.chars], rfl⟩
    · rw [integer?_unsigned (not_exists.1 hminus) (not_exists.1 hplus)] at h
      obtain ⟨m, hm, rfl⟩ := Option.map_eq_some_iff.1 h
      obtain ⟨ds, hne, rfl, rfl⟩ := natural?_eq_some_iff.1 hm
      exact ⟨⟨.absent, ds, hne⟩, by simp [IntegerLiteral.text, Sign.chars], rfl⟩
  · rintro ⟨l, rfl, rfl⟩
    exact integer?_text l

theorem integer64?_isSome_iff {text : String} : (integer64? text).isSome ↔ IsInteger64 text := by
  rw [integer64?, Option.isSome_iff_exists]
  simp only [Option.filter_eq_some_iff, integer?_eq_some_iff, String.toList_inj,
    Bool.and_eq_true, decide_eq_true_eq]
  constructor
  · rintro ⟨n, ⟨l, htext, rfl⟩, hlow, hhigh⟩
    exact ⟨l, htext, hlow, Int.le_sub_one_of_lt hhigh⟩
  · rintro ⟨l, htext, hlow, hhigh⟩
    exact ⟨l.value, ⟨l, htext, rfl⟩, hlow, Int.lt_of_le_sub_one hhigh⟩

/-! ## Values of comparisons -/

/-- The items of a value: the trimmed pieces between commas for the two comparators that take a
list, and the whole value for the others. -/
structure Comparator.Splits (c : Comparator) (value : String) (items : List String) : Prop where
  list (h : c = .among ∨ c = .notAmong) : ∃ ps : List String, ps ≠ [] ∧ ",".intercalate ps = value
    ∧ (∀ p ∈ ps, ',' ∉ p.toList) ∧ items = ps.map trim
  whole (h : ¬ (c = .among ∨ c = .notAmong)) : items = [value]

theorem Comparator.splits_items (c : Comparator) (value : String) :
    c.Splits value (c.items value) where
  list h := by
    have hc : c.takesList := by rcases h with rfl | rfl <;> rfl
    refine ⟨splitAtChar ',' value, splitAtChar_ne_nil ',' value, intercalate_splitAtChar ',' value,
      fun p hp => not_mem_of_mem_splitAtChar hp, ?_⟩
    rw [items, if_pos hc]
  whole h := by
    have hc : c.takesList = false := by cases c <;> simp_all [takesList]
    rw [items, hc]
    rfl

/-- A value that is refused is refused for its first item that is not of the type. -/
theorem Field.checkValue_error_iff {f : Field} {c : Comparator} {value : String}
    {err : ValidationError} : f.checkValue c value = .error err ↔ ∃ before item after,
      c.items value = before ++ item :: after ∧ (∀ i ∈ before, f.type.accepts i)
        ∧ f.type.accepts item = false ∧ err = .invalidValue f.name item f.type.name := by
  rw [checkValue]
  split
  · rename_i item hitem
    obtain ⟨hrefused, before, after, hitems, hbefore⟩ := List.find?_eq_some_iff_append.1 hitem
    simp only [Bool.not_eq_true', Bool.not_not] at hrefused hbefore
    constructor
    · rintro ⟨⟩
      exact ⟨before, item, after, hitems, hbefore, hrefused, rfl⟩
    · rintro ⟨before', item', after', hitems', hbefore', hrefused', rfl⟩
      have hitem' : (c.items value).find? (fun i => !f.type.accepts i) = some item' :=
        List.find?_eq_some_iff_append.2 ⟨by simp [hrefused'], before', after', hitems',
          by simpa using hbefore'⟩
      rw [Option.some.inj (hitem.symm.trans hitem')]
  · rename_i hnone
    refine iff_of_false (by simp) ?_
    rintro ⟨before, item, after, hitems, -, hrefused, -⟩
    have haccepted := List.find?_eq_none.1 hnone item (by simp [hitems])
    simp [hrefused] at haccepted

namespace Registry

variable {r : Registry}

/-- Three tokens that make up a comparison are valid if the value can be cut and is valid. -/
theorem validate_comparison {name symbol : Token} {f : Field} {c : Comparator}
    (hn : name.isName) (hs : symbol.isSymbol) (hf : r.checkField name.text = .ok f)
    (hc : f.checkComparator symbol.text = .ok c) (value : Token) :
    r.validateAny .full [name, symbol, value] = match value.unquoted? with
      | none => .error (.uncut value)
      | some text => ((f.checkValue c text).mapError .invalid).map fun _ =>
        { clauses := [.comparison f.name c text] } := by
  rw [validateAny, validateBy_eq_parseBy, parseBy, phrases_comparison hn hs, phrases, readPhrasesBy,
    readPhrasesBy, readPhraseBy, hf]
  rcases hu : value.unquoted? with _ | text
  · simp [hc, hu, Reading.any, Except.mapError, bind, Except.bind]
  · rcases hv : f.checkValue c text with e | u <;>
      simp [hc, hu, hv, Reading.any, Except.mapError, bind, Except.bind, pure, Except.pure,
        Except.map, joined, joinedAfter]

/-- A comparison with an integer field, under any of its keys that is no keyword, is valid exactly
if every item of the value is an integer literal of 64 bits. Otherwise the first item that is not
is reported. A value that cannot be cut has no items. -/
theorem validate_integer (hb : r.Built) {f : Field} (hf : f ∈ r.fields)
    (henabled : f.completionEnabled) (htype : f.type = .integer) {name symbol : Token}
    (hname : name.text ∈ f.keys) (hnameLiteral : name.literal = false)
    (hconnective : Connective.ofWord? name.text = none)
    (hoperator : PrefixOperator.ofWord? name.text = none) {c : Comparator}
    (hc : f.type.supports c) (hsymbol : symbol.text = c.symbol)
    (hsymbolLiteral : symbol.literal = false) (value : Token) :
    (value.unquoted? = none → r.validateAny .full [name, symbol, value] = .error (.uncut value))
      ∧ ∀ text, value.unquoted? = some text → c.Splits text (c.items text)
        ∧ (∀ q, r.validateAny .full [name, symbol, value] = .ok q ↔
          (∀ item ∈ c.items text, IsInteger64 item)
            ∧ q = { clauses := [.comparison f.name c text] })
        ∧ ∀ halt, r.validateAny .full [name, symbol, value] = .error halt ↔ ∃ before item after,
          c.items text = before ++ item :: after ∧ (∀ i ∈ before, IsInteger64 i)
            ∧ ¬ IsInteger64 item ∧ halt = .invalid (.invalidValue f.name item "integer") := by
  have hn : name.isName := Token.isName_iff.2 ⟨hconnective, hoperator, hnameLiteral⟩
  have hs : symbol.isSymbol := Comparator.isSymbol_symbol hsymbol hsymbolLiteral
  have hfield : r.checkField name.text = .ok f :=
    checkField_ok_iff.2 ⟨hb.resolve? hf hname, henabled⟩
  have hcomparator : f.checkComparator symbol.text = .ok c :=
    hsymbol ▸ checkComparator_symbol (by simpa [FieldType.supports] using hc)
  have haccepts : ∀ item, f.type.accepts item ↔ IsInteger64 item := fun item => by
    rw [htype, ← integer64?_isSome_iff]
    rfl
  rw [validate_comparison hn hs hfield hcomparator]
  refine ⟨fun h => by rw [h], fun text htext => ?_⟩
  simp only [htext]
  refine ⟨c.splits_items text, fun q => ?_, fun halt => ?_⟩
  · simp only [← haccepts, ← Field.checkValue_ok_iff_items]
    rcases f.checkValue c text with e | u <;> simp [Except.map, Except.mapError, eq_comm]
  · have hname : f.type.name = "integer" := htype ▸ rfl
    have herror : (((f.checkValue c text).mapError Halt.invalid).map fun _ => Query.mk
        [.comparison f.name c text]) = .error halt
          ↔ ∃ err, f.checkValue c text = .error err ∧ halt = .invalid err := by
      rcases f.checkValue c text with e | u <;> simp [Except.map, Except.mapError, eq_comm]
    simp only [herror, Field.checkValue_error_iff, hname, ← haccepts, Bool.not_eq_true]
    constructor
    · rintro ⟨_, ⟨before, item, after, hitems, hbefore, hitem, rfl⟩, rfl⟩
      exact ⟨before, item, after, hitems, hbefore, hitem, rfl⟩
    · rintro ⟨before, item, after, hitems, hbefore, hitem, rfl⟩
      exact ⟨_, ⟨before, item, after, hitems, hbefore, hitem, rfl⟩, rfl⟩

def abacus : Registry where
  name := "abacus"
  fields := [{ name := "and", type := .integer, aliases := ["beads"] },
    { name := "row", type := .integer }]

def beads : Token where
  text := "'-9223372036854775808,\u3000+007 ,9223372036854775808,'"
  literal := true

/-- A literal that starts with no quote, but with a character of two bytes. -/
def shell : Token where
  text := "é1é"
  literal := true

/-- The smallest number, a plus sign and leading zeros between blanks, a number that is one too
large, and nothing behind the last comma. What cannot be cut is not compared with anything. -/
theorem validate_integer_abacus : abacus.Built
    ∧ beads.unquoted? = some "-9223372036854775808,\u3000+007 ,9223372036854775808,"
    ∧ Comparator.notAmong.items "-9223372036854775808,\u3000+007 ,9223372036854775808,"
      = ["-9223372036854775808", "+007", "9223372036854775808", ""]
    ∧ abacus.validateAny .full [{ text := "beads" }, { text := "!^" }, beads]
      = .error (.invalid (.invalidValue "and" "9223372036854775808" "integer"))
    ∧ abacus.validateAny .full [{ text := "beads" }, { text := "!^" }, shell]
      = .error (.uncut shell) := by
  have hb : abacus.Built := ⟨{ name := "abacus", fields := abacus.fields }, by decide⟩
  have htext : beads.unquoted? = some "-9223372036854775808,\u3000+007 ,9223372036854775808," := by
    decide +kernel
  have hitems : Comparator.notAmong.items "-9223372036854775808,\u3000+007 ,9223372036854775808,"
      = ["-9223372036854775808", "+007", "9223372036854775808", ""] := by decide +kernel
  have hbefore : ∀ i ∈ ["-9223372036854775808", "+007"], IsInteger64 i := by
    simp only [← integer64?_isSome_iff]
    decide +kernel
  have hlarge : ¬ IsInteger64 "9223372036854775808" := by
    rw [← integer64?_isSome_iff]
    decide +kernel
  have hvalue := @validate_integer abacus hb abacus.fields[0] (List.getElem_mem _) rfl rfl
    { text := "beads" } { text := "!^" } (by decide) rfl (by decide) (by decide) .notAmong
    (by decide) rfl rfl
  obtain ⟨-, -, herror⟩ := (hvalue beads).2 _ htext
  refine ⟨hb, htext, hitems, (herror _).2 ?_, (hvalue shell).1 (by decide +kernel)⟩
  rw [hitems]
  exact ⟨["-9223372036854775808", "+007"], "9223372036854775808", [""], rfl, hbefore, hlarge, rfl⟩

end Registry

end FieldQuery
