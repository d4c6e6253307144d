import FieldQuery.Report.Basic
import Mathlib.Data.List.Forall2

/-!
# Colour and text

Reports are coloured piece by piece, with a style sequence before a piece and one after it. A
coloured text goes with a plain one if taking the sequences out leaves the plain text in front of
whatever follows (`Colors`), so pieces can be joined. A row of the table of fields is painted before
it is trimmed. The type of the field is not blank, so trimming reaches neither the name nor its
padding (`Plain.fieldRow_eq`), and flags end in a bracket or a sequence, so only a row without flags
is trimmed, and what is trimmed there has no colour (`Plain.trimEnd_rowMiddle`).
-/

namespace FieldQuery

/-! ## Style sequences -/

/-- What comes after the style sequence at the start of the text, if there is one: an escape and a
bracket, numbers and semicolons, and the letter `m`. -/
def afterSequence? : List Char → Option (List Char)
  | '\x1b' :: '[' :: cs =>
    match cs.dropWhile fun c => c.isDigit || c == ';' with
    | 'm' :: rest => some rest
    | _ => none
  | _ => none

theorem length_lt_of_afterSequence? {cs rest : List Char} (h : afterSequence? cs = some rest) :
    rest.length < cs.length := by
  unfold afterSequence? at h
  split at h
  · rename_i cs
    split at h
    · rename_i rest' hrest
      obtain rfl := Option.some.inj h
      have hle := (List.dropWhile_suffix (l := cs) fun c => c.isDigit || c == ';').length_le
      rw [hrest] at hle
      simp only [List.length_cons] at hle ⊢
      omega
    · simp at h
  · simp at h

/-- The text without its style sequences. -/
def withoutSequences (cs : List Char) : List Char :=
  match h : afterSequence? cs with
  | some rest =>
    have := length_lt_of_afterSequence? h
    withoutSequences rest
  | none =>
    match cs with
    | [] => []
    | c :: cs => c :: withoutSequences cs
termination_by cs.length

theorem afterSequence?_of_ne {c : Char} (hc : c ≠ '\x1b') (cs : List Char) :
    afterSequence? (c :: cs) = none := by
  unfold afterSequence?
  split
  · rename_i h
    exact absurd (List.cons.inj h).1 hc
  · rfl

theorem withoutSequences_nil : withoutSequences [] = [] := by
  rw [withoutSequences]
  rfl

theorem withoutSequences_cons {c : Char} (hc : c ≠ '\x1b') (cs : List Char) :
    withoutSequences (c :: cs) = c :: withoutSequences cs := by
  have hnone := afterSequence?_of_ne hc cs
  rw [withoutSequences]
  split <;> simp_all

theorem withoutSequences_of_some {cs rest : List Char} (h : afterSequence? cs = some rest) :
    withoutSequences cs = withoutSequences rest := by
  rw [withoutSequences]
  split <;> simp_all

theorem isDigit_of_mem_toString {n : Nat} {c : Char} (h : c ∈ (toString n).toList) : c.isDigit :=
  Nat.isDigit_of_mem_toDigits (b := 10) (by decide) (by decide) (by simpa using h)

/-- What holds of the characters of the separator and the pieces holds of those of the join. -/
theorem forall_mem_intercalate {P : Char → Prop} {sep : String} (hsep : ∀ c ∈ sep.toList, P c) :
    ∀ {ss : List String}, (∀ s ∈ ss, ∀ c ∈ s.toList, P c) → ∀ c ∈ (sep.intercalate ss).toList, P c
  | [], _ => by simp
  | [s], h => by simpa using h
  | s :: t :: ss, h => by
    obtain ⟨hs, hss⟩ := List.forall_mem_cons.1 h
    rw [String.intercalate_cons_cons, String.toList_append, String.toList_append,
      List.forall_mem_append, List.forall_mem_append]
    exact ⟨⟨hs, hsep⟩, forall_mem_intercalate hsep hss⟩

theorem afterSequence?_sequence (numbers : List Nat) (rest : List Char) :
    afterSequence? ((Style.sequence numbers).toList ++ rest) = some rest := by
  have hmiddle : ∀ c ∈ (";".intercalate (numbers.map toString)).toList,
      (c.isDigit || c == ';') := by
    refine forall_mem_intercalate (by simp) fun s hs c hc => ?_
    obtain ⟨n, -, rfl⟩ := List.mem_map.1 hs
    simp [isDigit_of_mem_toString hc]
  have hsequence : (Style.sequence numbers).toList ++ rest = '\x1b' :: '['
      :: ((";".intercalate (numbers.map toString)).toList ++ 'm' :: rest) := by
    simp [Style.sequence]
  rw [hsequence, afterSequence?, List.dropWhile_append_of_pos hmiddle]
  simp

/-- Whatever follows, taking the style sequences out of the coloured text leaves the plain text. -/
def Colors (plain colored : String) : Prop :=
  ∀ rest, withoutSequences (colored.toList ++ rest) = plain.toList ++ withoutSequences rest

namespace Colors

variable {a a' b b' : String}

theorem eq (h : Colors a b) : withoutSequences b.toList = a.toList := by
  have hnil := h []
  rwa [withoutSequences_nil, List.append_nil, List.append_nil] at hnil

theorem append (h : Colors a b) (h' : Colors a' b') : Colors (a ++ a') (b ++ b') := by
  intro rest
  rw [String.toList_append, String.toList_append, List.append_assoc, h, h', List.append_assoc]

theorem of_text (h : '\x1b' ∉ a.toList) : Colors a a := by
  intro rest
  induction hcs : a.toList generalizing a with
  | nil => rfl
  | cons c cs ih =>
    rw [hcs, List.mem_cons, not_or] at h
    have hrest := ih (a := String.ofList cs) (by simpa using h.2) String.toList_ofList
    rw [List.cons_append, withoutSequences_cons (Ne.symm h.1), hrest, List.cons_append]

theorem sequence (numbers : List Nat) : Colors "" (Style.sequence numbers) := fun rest =>
  withoutSequences_of_some (afterSequence?_sequence numbers rest)

theorem paint (s : Style) (h : '\x1b' ∉ a.toList) : Colors a (s.paint a) := by
  rw [Style.paint]
  split
  · exact of_text h
  · have hopening : Colors "" s.opening := by
      rw [Style.opening]
      split
      · exact of_text (by simp)
      · exact sequence s.numbers
    simpa [Style.reset] using (hopening.append (of_text h)).append (sequence [0])

theorem intercalate {sep : String} (hsep : '\x1b' ∉ sep.toList) : ∀ {as bs : List String},
    List.Forall₂ Colors as bs → Colors (sep.intercalate as) (sep.intercalate bs)
  | _, _, .nil => of_text (by simp)
  | _, _, .cons h .nil => by simpa using h
  | _, _, .cons h (.cons h' hrest) => by
    rw [String.intercalate_cons_cons, String.intercalate_cons_cons]
    exact (h.append (of_text hsep)).append (intercalate hsep (.cons h' hrest))

theorem forall_map {α : Type} {f g : α → String} {xs : List α} (h : ∀ x ∈ xs, Colors (f x) (g x)) :
    List.Forall₂ Colors (xs.map f) (xs.map g) :=
  List.forall₂_map_left_iff.2 (List.forall₂_map_right_iff.2 (List.forall₂_same.2 h))

end Colors

/-! ## Lines -/

/-- The text has no escape character and no line break. -/
def IsLine (s : String) : Prop :=
  ∀ c ∈ s.toList, c ≠ '\x1b' ∧ c ≠ '\n'

instance (s : String) : Decidable (IsLine s) :=
  List.decidableBAll (fun c => c ≠ '\x1b' ∧ c ≠ '\n') s.toList

theorem isLine_append {s t : String} : IsLine (s ++ t) ↔ IsLine s ∧ IsLine t := by
  rw [IsLine, String.toList_append, List.forall_mem_append]
  rfl

namespace IsLine

variable {s : String}

theorem no_escape (h : IsLine s) : '\x1b' ∉ s.toList := fun hmem => (h _ hmem).1 rfl

theorem no_break (h : IsLine s) : '\n' ∉ s.toList := fun hmem => (h _ hmem).2 rfl

theorem colors (h : IsLine s) : Colors s s := .of_text h.no_escape

theorem intercalate {sep : String} {ss : List String} (hsep : IsLine sep)
    (h : ∀ s ∈ ss, IsLine s) : IsLine (sep.intercalate ss) :=
  forall_mem_intercalate hsep h

theorem trimEnd (h : IsLine s) : IsLine (trimEnd s) := fun c hc =>
  h c ((trimEnd_isPrefix s).subset hc)

theorem spaces (n : Nat) : IsLine (String.ofList (List.replicate n ' ')) := by
  intro c hc
  rw [String.toList_ofList] at hc
  rw [List.eq_of_mem_replicate hc]
  decide

theorem padRight (h : IsLine s) (width : Nat) : IsLine (padRight width s) :=
  isLine_append.2 ⟨h, spaces _⟩

theorem toString (n : Nat) : IsLine (toString n) := by
  intro c hc
  have hdigit := isDigit_of_mem_toString hc
  constructor <;> rintro rfl <;> exact absurd hdigit (by decide)

end IsLine

/-! ## Queries -/

theorem Role.colors_paint (role : Role) {text : String} (h : '\x1b' ∉ text.toList) :
    Colors (role.paint false text) (role.paint true text) :=
  .paint role.style h

theorem Comparator.isLine_symbol (c : Comparator) : IsLine c.symbol := by
  cases c <;> decide

theorem FieldType.isLine_name (t : FieldType) : IsLine t.name := by
  cases t <;> decide

namespace Plain

theorem colors_clause {c : Clause} (h : '\x1b' ∉ c.text.toList) :
    Colors (clause false c) (clause true c) := by
  have hspace : Colors " " " " := .of_text (by decide)
  cases c with
  | comparison field comparator value =>
    change '\x1b' ∉ (field ++ " " ++ comparator.symbol ++ " " ++ quoteIfNeeded value).toList at h
    simp only [String.toList_append, List.mem_append, not_or] at h
    obtain ⟨⟨⟨⟨hfield, -⟩, hsymbol⟩, -⟩, hvalue⟩ := h
    exact ((((Role.field.colors_paint hfield).append hspace).append
      (Role.operator.colors_paint hsymbol)).append hspace).append (Role.value.colors_paint hvalue)
  | presence operator field =>
    change '\x1b' ∉ (operator.keyword ++ " " ++ field).toList at h
    simp only [String.toList_append, List.mem_append, not_or] at h
    obtain ⟨⟨hkeyword, -⟩, hfield⟩ := h
    exact ((Role.operator.colors_paint hkeyword).append hspace).append
      (Role.field.colors_paint hfield)
  | freeText text => exact Role.value.colors_paint h
  | logical connective => exact Role.operator.colors_paint h

theorem colors_query {q : Query} (h : ∀ c ∈ q.clauses, '\x1b' ∉ c.text.toList) :
    Colors (query false q) (query true q) :=
  .intercalate (by decide) (Colors.forall_map fun c hc => colors_clause (h c hc))

/-! ## Rows -/

/-- A row up to its type. -/
def rowFront (color : Bool) (width : Nat) (f : Field) : String :=
  "  " ++ Role.field.paint color (padRight width f.name) ++ "  " ++ f.type.name

/-- The rest of the type column, and the aliases. -/
def rowMiddle (f : Field) : String :=
  String.ofList (List.replicate (8 - f.type.name.length) ' ')
    ++ if f.aliases.isEmpty then "" else "  aliases: " ++ ", ".intercalate f.aliases

/-- The flags at the end of a row. -/
def rowEnd (color : Bool) (f : Field) : String :=
  if (flags f).isEmpty then "" else "  " ++ Role.detail.paint color (" ".intercalate (flags f))

/-- Trimming a row does not reach its type. -/
theorem fieldRow_eq (color : Bool) (width : Nat) (f : Field) : fieldRow color width f
    = rowFront color width f ++ trimEnd (rowMiddle f ++ rowEnd color f) := by
  obtain ⟨x, hlast, hx⟩ : ∃ x, f.type.name.toList.getLast? = some x ∧ isBlank x = false := by
    cases f.type <;> exact ⟨_, rfl, rfl⟩
  have hfront : ∀ c ∈ (rowFront color width f).toList.getLast?, isBlank c = false := by
    rw [rowFront, String.toList_append, List.getLast?_append, hlast, Option.some_or]
    rintro _ ⟨rfl⟩
    exact hx
  rw [← trimEnd_append hfront, fieldRow, rowFront, rowMiddle, rowEnd, padRight.eq_1 8]
  simp only [String.append_assoc]

theorem flag_cases {f : Field} {flag : String} (h : flag ∈ flags f) : flag = "[explicit]"
    ∨ flag = "[disabled]" ∨ flag = "[values]" ∨ ∃ c : Comparator,
      flag = "[default " ++ c.symbol ++ "]" := by
  rw [flags] at h
  rcases List.mem_append.1 h with h | h
  · rcases List.mem_append.1 h with h | h
    · rcases List.mem_append.1 h with h | h
      · split_ifs at h
        · exact .inl (List.mem_singleton.1 h)
        · simp at h
      · split_ifs at h
        · simp at h
        · exact .inr (.inl (List.mem_singleton.1 h))
    · split_ifs at h
      · exact .inr (.inr (.inl (List.mem_singleton.1 h)))
      · simp at h
  · obtain ⟨c, -, rfl⟩ := Option.map_eq_some_iff.1 (Option.mem_toList.1 h)
    exact .inr (.inr (.inr ⟨c, rfl⟩))

theorem isLine_of_flag {f : Field} {flag : String} (h : flag ∈ flags f) : IsLine flag := by
  rcases flag_cases h with rfl | rfl | rfl | ⟨c, rfl⟩
  · decide
  · decide
  · decide
  · exact isLine_append.2 ⟨isLine_append.2 ⟨by decide, c.isLine_symbol⟩, by decide⟩

theorem getLast?_of_flag {f : Field} {flag : String} (h : flag ∈ flags f) :
    flag.toList.getLast? = some ']' := by
  rcases flag_cases h with rfl | rfl | rfl | ⟨c, rfl⟩
  · rfl
  · rfl
  · rfl
  · rw [String.toList_append]
    exact List.getLast?_concat

theorem getLast?_intercalate {sep : String} {x : Char} : ∀ {ss : List String}, ss ≠ [] →
    (∀ s ∈ ss, s.toList.getLast? = some x) → (sep.intercalate ss).toList.getLast? = some x
  | [], hne, _ => absurd rfl hne
  | [s], _, h => by simpa using h
  | s :: t :: ss, _, h => by
    have hrest : (sep.intercalate (t :: ss)).toList.getLast? = some x :=
      getLast?_intercalate (List.cons_ne_nil t ss) (List.forall_mem_cons.1 h).2
    rw [String.intercalate_cons_cons, String.toList_append, List.getLast?_append, hrest,
      Option.some_or]

theorem getLast?_paint (color : Bool) (role : Role) {text : String} {x : Char}
    (h : text.toList.getLast? = some x) : (role.paint color text).toList.getLast? = some x
      ∨ (role.paint color text).toList.getLast? = some 'm' := by
  cases color with
  | false => exact .inl h
  | true =>
    right
    have hreset : Style.reset.toList.getLast? = some 'm' := by decide +kernel
    have hstyle : role.style.numbers.isEmpty = false := by cases role <;> rfl
    simp only [Role.paint, ↓reduceIte, Style.paint, hstyle, Bool.false_eq_true]
    rw [String.toList_append, List.getLast?_append, hreset, Option.some_or]

/-- Only what stands behind the aliases is trimmed off a row, and nothing if there are flags. -/
theorem trimEnd_rowMiddle (color : Bool) (f : Field) : trimEnd (rowMiddle f ++ rowEnd color f)
    = if (flags f).isEmpty then trimEnd (rowMiddle f) else rowMiddle f ++ rowEnd color f := by
  rw [rowEnd]
  split
  · rw [String.append_empty]
  · rename_i h
    have hflags : (" ".intercalate (flags f)).toList.getLast? = some ']' :=
      getLast?_intercalate (mt List.isEmpty_iff.2 h) fun _ => getLast?_of_flag
    refine trimEnd_eq_self fun c hc => ?_
    -- The row ends in the bracket of the last flag, or in the sequence that ends the colour.
    rcases getLast?_paint color .detail hflags with hlast | hlast <;>
      simp only [String.toList_append, List.getLast?_append, hlast, Option.some_or] at hc <;>
      obtain rfl := Option.some.inj hc <;> rfl

theorem isLine_rowFront {f : Field} (h : IsLine f.name) (width : Nat) :
    IsLine (rowFront false width f) := by
  simp only [rowFront, isLine_append]
  exact ⟨⟨⟨by decide, h.padRight width⟩, by decide⟩, f.type.isLine_name⟩

theorem isLine_rowMiddle {f : Field} (h : ∀ a ∈ f.aliases, IsLine a) : IsLine (rowMiddle f) := by
  refine isLine_append.2 ⟨.spaces _, ?_⟩
  split
  · decide
  · exact isLine_append.2 ⟨by decide, .intercalate (by decide) h⟩

theorem isLine_flags (f : Field) : IsLine (" ".intercalate (flags f)) :=
  .intercalate (by decide) fun _ => isLine_of_flag

theorem isLine_rowEnd (f : Field) : IsLine (rowEnd false f) := by
  rw [rowEnd]
  split
  · decide
  · exact isLine_append.2 ⟨by decide, isLine_flags f⟩

theorem isLine_fieldRow {f : Field} (h : ∀ k ∈ f.keys, IsLine k) (width : Nat) :
    IsLine (fieldRow false width f) := by
  obtain ⟨hname, haliases⟩ := List.forall_mem_cons.1 h
  rw [fieldRow_eq, isLine_append]
  exact ⟨isLine_rowFront hname width,
    (isLine_append.2 ⟨isLine_rowMiddle haliases, isLine_rowEnd f⟩).trimEnd⟩

theorem colors_rowFront {f : Field} (h : IsLine f.name) (width : Nat) :
    Colors (rowFront false width f) (rowFront true width f) := by
  have hgap : Colors "  " "  " := .of_text (by decide)
  exact ((hgap.append (Role.field.colors_paint (h.padRight width).no_escape)).append hgap).append
    f.type.isLine_name.colors

theorem colors_rowEnd (f : Field) : Colors (rowEnd false f) (rowEnd true f) := by
  rw [rowEnd, rowEnd]
  split
  · exact .of_text (by decide)
  · have hgap : Colors "  " "  " := .of_text (by decide)
    exact hgap.append (Role.detail.colors_paint (isLine_flags f).no_escape)

theorem colors_fieldRow {f : Field} (h : ∀ k ∈ f.keys, IsLine k) (width : Nat) :
    Colors (fieldRow false width f) (fieldRow true width f) := by
  obtain ⟨hname, haliases⟩ := List.forall_mem_cons.1 h
  have hmiddle := isLine_rowMiddle haliases
  rw [fieldRow_eq, fieldRow_eq, trimEnd_rowMiddle, trimEnd_rowMiddle]
  refine (colors_rowFront hname width).append ?_
  split
  · exact hmiddle.trimEnd.colors
  · exact hmiddle.colors.append (colors_rowEnd f)

/-! ## Tables -/

/-- The texts that a table of fields shows. -/
def texts (r : Registry) : List String :=
  r.name :: r.fields.flatMap Field.keys

def title (color : Bool) (r : Registry) : String :=
  Role.success.paint color r.name ++ " (" ++ toString r.fields.length ++ " fields)"

theorem fields_eq (color : Bool) (r : Registry) : fields color r
    = lines (title color r :: r.fields.map (fieldRow color (nameWidth r.fields))) := rfl

section Table

variable {r : Registry} (h : ∀ t ∈ texts r, IsLine t)

include h

theorem isLine_of_mem_keys : ∀ f ∈ r.fields, ∀ k ∈ f.keys, IsLine k := fun _ hf k hk =>
  h k (List.mem_cons_of_mem _ (List.mem_flatMap_of_mem hf hk))

theorem colors_fields : Colors (fields false r) (fields true r) := by
  have htitle : Colors (title false r) (title true r) :=
    (((Role.success.colors_paint (h r.name List.mem_cons_self).no_escape).append
      (.of_text (by decide))).append (IsLine.toString _).colors).append (.of_text (by decide))
  rw [fields_eq, fields_eq]
  exact .intercalate (by decide) (.cons htitle
    (Colors.forall_map fun f hf => colors_fieldRow (isLine_of_mem_keys h f hf) _))

theorem splitAtChar_fields : splitAtChar '\n' (fields false r)
    = title false r :: r.fields.map (fieldRow false (nameWidth r.fields)) := by
  have htitle : IsLine (title false r) := by
    simp only [title, isLine_append]
    exact ⟨⟨⟨h r.name List.mem_cons_self, by decide⟩, .toString _⟩, by decide⟩
  rw [fields_eq]
  refine splitAtChar_intercalate (List.cons_ne_nil _ _) (List.forall_mem_cons.2
    ⟨htitle.no_break, fun row hrow => ?_⟩)
  obtain ⟨f, hf, rfl⟩ := List.mem_map.1 hrow
  exact (isLine_fieldRow (isLine_of_mem_keys h f hf) _).no_break

end Table

theorem le_foldl_max : ∀ (ns : List Nat) (a : Nat),
    a ≤ ns.foldl max a ∧ ∀ n ∈ ns, n ≤ ns.foldl max a
  | [], a => by simp
  | m :: ns, a => by
    obtain ⟨ha, hns⟩ := le_foldl_max ns (max a m)
    rw [List.foldl_cons, List.forall_mem_cons]
    exact ⟨by omega, by omega, hns⟩

/-- No name has more characters than the column has. -/
theorem length_le_nameWidth {f : Field} {fs : List Field} (h : f ∈ fs) :
    f.name.length ≤ nameWidth fs :=
  Nat.le_trans (length_le_utf8Length f.name.toList)
    ((le_foldl_max _ 0).2 _ (List.mem_map_of_mem (f := fun f => utf8Length f.name.toList) h))

/-- There is a line for the title and one for each field, where the type of the field starts at the
character offset `n`, after the name and blanks. -/
structure HasTypeColumn (fs : List Field) (table : List String) (n : Nat) : Prop where
  length : table.length = fs.length + 1
  row {i : Nat} {f : Field} (h : fs[i]? = some f) : ∃ gap rest, isBlankText gap
    ∧ table[i + 1]? = some ("  " ++ f.name ++ gap ++ f.type.name ++ rest)
    ∧ ("  " ++ f.name ++ gap).length = n

theorem hasTypeColumn_fields {r : Registry} (h : ∀ t ∈ texts r, IsLine t) :
    HasTypeColumn r.fields (splitAtChar '\n' (fields false r)) (nameWidth r.fields + 4) where
  length := by rw [splitAtChar_fields h, List.length_cons, List.length_map]
  row {i f} hf := by
    have hwidth := length_le_nameWidth (List.mem_of_getElem? hf)
    refine ⟨String.ofList (List.replicate (nameWidth r.fields - f.name.length) ' ') ++ "  ",
      trimEnd (rowMiddle f ++ rowEnd false f), ?_, ?_, ?_⟩
    · have hspace : isBlank ' ' = true := by decide
      simp [isBlankText, hspace]
    · rw [splitAtChar_fields h, List.getElem?_cons_succ, List.getElem?_map, hf, Option.map_some,
        fieldRow_eq]
      simp [rowFront, padRight, Role.paint, String.append_assoc]
    · simp only [String.length_append, String.length_ofList, List.length_replicate,
        show "  ".length = 2 from rfl]
      omega

end Plain

namespace Reporter

/-- Colour adds style sequences to plain reports and changes nothing else, and the types of the
fields stand in one column. -/
theorem withoutSequences_color {q : Query} (hq : ∀ c ∈ q.clauses, '\x1b' ∉ c.text.toList)
    {registry : Registry} (hregistry : ∀ t ∈ Plain.texts registry, IsLine t) {e : Error}
    (he : '\x1b' ∉ e.message.toList) :
    withoutSequences ((Reporter.mk .plain true).query q).toList
        = ((Reporter.mk .plain false).query q).toList
      ∧ withoutSequences ((Reporter.mk .plain true).fields registry).toList
        = ((Reporter.mk .plain false).fields registry).toList
      ∧ withoutSequences ((Reporter.mk .plain true).error e).toList
        = ((Reporter.mk .plain false).error e).toList
      ∧ ∃ n, Plain.HasTypeColumn registry.fields
        (splitAtChar '\n' ((Reporter.mk .plain false).fields registry)) n := by
  have herror : '\x1b' ∉ ("Error: " ++ e.message).toList := by
    rw [String.toList_append, List.mem_append, not_or]
    exact ⟨by decide, he⟩
  exact ⟨(Plain.colors_query hq).eq, (Plain.colors_fields hregistry).eq,
    (Role.failure.colors_paint herror).eq, _, Plain.hasTypeColumn_fields hregistry⟩

end Reporter

/-- A café with a name that has more bytes than characters, and aliases that end in blanks. -/
def menu : Registry where
  name := "Café"
  fields := [{ name := "größe", type := .integer, aliases := ["size\u3000"] },
    { name := "sold", type := .datetime, aliases := ["on ", "am"], explicitOnly := true,
      defaultOperator := some .lt },
    { name := "price", type := .decimal }]

def order : Query where
  clauses := [.comparison "größe" .among "1, 2", .logical .or, .presence .null "price"]

theorem Reporter.withoutSequences_color_menu :
    ((∀ c ∈ order.clauses, '\x1b' ∉ c.text.toList) ∧ (∀ t ∈ Plain.texts menu, IsLine t)
      ∧ '\x1b' ∉ (Error.validation (.unknownField "prix")).message.toList)
    ∧ withoutSequences ((Reporter.mk .plain true).query order).toList
        = "größe ^ \"1, 2\" or null? price".toList
      ∧ withoutSequences ((Reporter.mk .plain true).fields menu).toList
        = ("Café (3 fields)\n  größe    integer   aliases: size\n"
          ++ "  sold     datetime  aliases: on , am  [explicit] [default <]\n"
          ++ "  price    decimal").toList
      ∧ withoutSequences
          ((Reporter.mk .plain true).error (.validation (.unknownField "prix"))).toList
        = "Error: Query error: Field 'prix' not recognized".toList
      ∧ ∃ n, Plain.HasTypeColumn menu.fields
        (splitAtChar '\n' ((Reporter.mk .plain false).fields menu)) n := by
  have hq : ∀ c ∈ order.clauses, '\x1b' ∉ c.text.toList := by decide +kernel
  have hregistry : ∀ t ∈ Plain.texts menu, IsLine t := by decide +kernel
  have he : '\x1b' ∉ (Error.validation (.unknownField "prix")).message.toList := by
    decide +kernel
  obtain ⟨hquery, hfields, herror, htype⟩ := withoutSequences_color hq hregistry he
  exact ⟨⟨hq, hregistry, he⟩, hquery.trans (congrArg String.toList (by decide +kernel)),
    hfields.trans (congrArg String.toList (by decide +kernel)),
    herror.trans (congrArg String.toList (by decide +kernel)), htype⟩

end FieldQuery
