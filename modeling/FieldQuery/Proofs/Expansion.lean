import FieldQuery.Proofs.Grouping
import FieldQuery.Proofs.Suggestion

/-!
# Typing the dot of a relation

Once the dot of a relation has been typed, the relation is collapsed no more, and no other relation
takes its members away. What is listed of a member are its advertised names, as far as they start
with the dotted relation (`Registry.mem_fieldCandidates_dotted`). A member without aliases is
advertised under its dotted path. A member with aliases is advertised under these alone, so it is
collapsed like the others but comes back only under an alias that starts with the dotted relation
(`Engine.complete_dotted`).
-/

namespace FieldQuery

/-- The fields that a position asks for, if it asks for a field. -/
def Position.scope? : Position → Option Scope
  | .start | .afterConnective => some .clause
  | .afterPrefix => some .afterPrefix
  | .afterField | .afterComparator | .afterClause => none

theorem Replay.context_of_scope {p : Replay} {scope : Scope} (h : p.position.scope? = some scope)
    (typed : String) : p.context typed = .field typed scope := by
  unfold context
  rcases hp : p.position <;> simp_all [Position.scope?]

theorem startsWith_self (s : String) : s.startsWith s :=
  String.startsWith_string_iff.2 (List.prefix_refl _)

theorem PrefixOperator.not_startsWith_dotted (op : PrefixOperator) (relation : String) :
    op.keyword.startsWith (relation ++ ".") = false := by
  rw [String.startsWith_string_eq_false_iff]
  intro h
  have hdot : '.' ∈ op.keyword.toList := h.subset (by simp)
  revert hdot
  cases op <;> decide

/-- A text that ends in a dot and one that ends in a space differ. -/
theorem dotted_ne_spaced (s t : String) : s ++ "." ≠ t ++ " " := by
  intro h
  have hlast := congrArg (fun u : String => u.toList.getLast?) h
  simp at hlast

theorem append_middle_inj {s t u v : String} : s ++ t ++ v = s ++ u ++ v ↔ t = u := by
  simp [← String.toList_inj]

namespace Registry

variable {r : Registry} {scope : Scope} {relation : String}

theorem terminal_of_mem_listing {typed : String} {c : Candidate}
    (h : c ∈ r.listing typed scope) : c.terminal := by
  rcases mem_listing.1 h with ⟨f, -, -, name, -, -, rfl⟩ | ⟨-, op, -, rfl⟩ <;> rfl

theorem listed_of_mem_fieldCandidates {threshold : Nat} {typed : String} {c : Candidate}
    (h : c ∈ r.fieldCandidates threshold typed scope) :
    c ∈ r.listing typed scope ∨ ∃ relation, typed.startsWith (relation ++ ".") = false
      ∧ c = .group relation := by
  simp only [fieldCandidates] at h
  split_ifs at h
  · exact .inl h
  · exact (of_mem_foldl_collapse h).imp_right fun ⟨g, _, h⟩ => ⟨g.relation, h⟩

theorem mem_fieldCandidates {threshold : Nat} {typed : String} {c : Candidate}
    (h : c ∈ r.listing typed scope) (hkeep : ∀ g ∈ r.groups,
      typed.startsWith (g.relation ++ ".") ∨ c.names (g.listable scope) = false) :
    c ∈ r.fieldCandidates threshold typed scope := by
  simp only [fieldCandidates]
  split_ifs
  · exact h
  · exact mem_foldl_collapse h hkeep

theorem Built.startsWith_dotted (hb : r.Built) {f : Field} (hf : f ∈ r.members relation) :
    f.name.startsWith (relation ++ ".") := by
  obtain ⟨hfields, hrelation⟩ := List.mem_filter.1 hf
  obtain ⟨way, hway, rfl⟩ : ∃ way, f.relation = some way ∧ way.name = relation := by
    simpa [Field.relationName?] using hrelation
  have hpath : way.path.toList = (way.name ++ ".").toList ++ way.remoteField.toList :=
    String.toList_append
  rw [hb.name_eq_path hfields hway, String.startsWith_string_iff, hpath]
  exact List.prefix_append _ _

/-- The name of a member is listed after the dot of its relation exactly if it is advertised and
starts with the dotted relation. -/
theorem mem_fieldCandidates_dotted (hb : r.Built) (threshold : Nat) {f : Field}
    (hf : f ∈ r.members relation) (hlistable : f.listable scope) {key : String}
    (hkey : key ∈ f.keys) :
    (∃ c ∈ r.fieldCandidates threshold (relation ++ ".") scope, c.terminal ∧ c.text = key)
      ↔ key ∈ f.advertisedNames ∧ key.startsWith (relation ++ ".") := by
  obtain ⟨hfields, hrelation⟩ := List.mem_filter.1 hf
  constructor
  · rintro ⟨c, hc, hterminal, rfl⟩
    rcases listed_of_mem_fieldCandidates hc with hc | ⟨relation', -, rfl⟩
    · rcases mem_listing.1 hc with ⟨f', hf', -, name, hname, hoffers, rfl⟩ | ⟨-, op, hop, -⟩
      · -- the key belongs to one field only
        have hsame : f' = f := hb.eq_of_key hf' hfields (Field.mem_keys_of_advertised hname) hkey
        subst hsame
        rw [Field.offers, Bool.and_eq_true] at hoffers
        exact ⟨hname, hoffers.1⟩
      · simp [op.not_startsWith_dotted relation] at hop
    · simp [Candidate.group] at hterminal
  · rintro ⟨hname, hstarts⟩
    refine ⟨.name key f.name, mem_fieldCandidates ?_ ?_, rfl, rfl⟩
    · rw [Field.listable, Bool.and_eq_true] at hlistable
      refine mem_listing.2 (.inl ⟨f, hfields, hlistable.1, key, hname, ?_, rfl⟩)
      rcases Bool.or_eq_true _ _ ▸ hlistable.2 with hscope | hexplicit
      · simp [Field.offers, hstarts, hscope]
      · simp [Field.offers, hstarts, hexplicit]
    · intro g hg
      obtain ⟨relation', -, rfl⟩ := mem_groups.1 hg
      by_cases hsame : relation' = relation
      · exact .inl (hsame ▸ startsWith_self _)
      · refine .inr (Bool.eq_false_iff.2 fun hnames => ?_)
        have hmem : f.name ∈ RelationGroup.listable { relation, members := r.members relation }
            scope := mem_listable.2 ⟨f, hfields, by simpa using hrelation, hlistable, rfl⟩
        exact hb.disjoint_listable hsame scope (Candidate.names_name.1 hnames) hmem

/-- What is suggested after the dot of a relation are the names of its members that are listed. -/
theorem mem_render_dotted (hb : r.Built) (threshold : Nat) (head : String) {f : Field}
    (hf : f ∈ r.members relation) (hlistable : f.listable scope) {key : String}
    (hkey : key ∈ f.keys) :
    head ++ " " ++ key ++ " " ∈ render head (r.fieldCandidates threshold (relation ++ ".") scope)
      ↔ key ∈ f.advertisedNames ∧ key.startsWith (relation ++ ".") := by
  rw [← mem_fieldCandidates_dotted hb threshold hf hlistable hkey, mem_render]
  constructor
  · rintro ⟨c, hc, hsame⟩
    rcases listed_of_mem_fieldCandidates hc with hlisted | ⟨relation', -, rfl⟩
    · have hterminal := terminal_of_mem_listing hlisted
      rw [Candidate.suggestion_terminal hterminal, append_middle_inj] at hsame
      exact ⟨c, hc, hterminal, hsame.symm⟩
    · rw [Candidate.suggestion_group] at hsame
      exact absurd hsame.symm (dotted_ne_spaced _ _)
  · rintro ⟨c, hc, hterminal, rfl⟩
    exact ⟨c, hc, (Candidate.suggestion_terminal hterminal _).symm⟩

theorem dot_not_mem_render (r : Registry) (threshold : Nat) (head relation : String)
    (scope : Scope) : head ++ " " ++ relation ++ "."
      ∉ render head (r.fieldCandidates threshold (relation ++ ".") scope) := by
  rw [mem_render]
  rintro ⟨c, hc, hsame⟩
  rcases listed_of_mem_fieldCandidates hc with hlisted | ⟨relation', htyped, rfl⟩
  · rw [Candidate.suggestion_terminal (terminal_of_mem_listing hlisted)] at hsame
    exact dotted_ne_spaced _ _ hsame
  · rw [Candidate.suggestion_group, append_middle_inj] at hsame
    simp [hsame, startsWith_self] at htyped

end Registry

namespace Engine

variable {σ : Type} {lookup : Lookup (StateM σ)} {st : σ}

theorem complete_field {e : Engine} {s : String} {l : Line} (hread : Line.read s = .ok l)
    (hquote : ∀ c ∈ s.toList, isQuote c = false) {scope : Scope}
    (hscope : (Replay.run l.closedTokens).position.scope? = some scope) :
    ((e.complete lookup s).run st).1
      = .ok (render l.head (e.registry.fieldCandidates e.threshold l.openText scope)) := by
  have hcontext : l.context = .field l.openText scope := Replay.context_of_scope hscope _
  rw [complete_eq hquote hread, completeLine_run, Registry.enumerate_run, hcontext]
  rfl

/-- After the dot of a relation has been typed, a member is offered under those of its advertised
names that start with the dotted relation, and under no other name. A member without aliases is
offered under its dotted path. The relation is not collapsed. -/
theorem complete_dotted {r : Registry} (hb : r.Built) (threshold : Nat)
    (lookup : Lookup (StateM σ)) (st : σ) {s : String} {l : Line} (hread : Line.read s = .ok l)
    (hquote : ∀ c ∈ s.toList, isQuote c = false) {scope : Scope}
    (hscope : (Replay.run l.closedTokens).position.scope? = some scope) {relation : String}
    (hword : IsWord (relation ++ ".")) :
    ∃ expanded, ((complete { registry := r, threshold } lookup
          (l.head ++ " " ++ relation ++ ".")).run st).1 = .ok expanded
      ∧ (∀ f ∈ r.members relation, f.listable scope → ∀ key ∈ f.keys,
        l.head ++ "  " ++ key ++ " " ∈ expanded
          ↔ key ∈ f.advertisedNames ∧ key.startsWith (relation ++ "."))
      ∧ (∀ f ∈ r.members relation, f.listable scope → f.aliases = [] →
        f.name.startsWith (relation ++ ".") ∧ l.head ++ "  " ++ f.name ++ " " ∈ expanded)
      ∧ l.head ++ "  " ++ relation ++ "." ∉ expanded := by
  obtain ⟨l', hread', hclosed, hopen, hhead⟩ := Line.read_word hread hword
  have hquote' := Line.no_quote_after_head hread hquote hword.noQuote
  have htext : l.head ++ " " ++ (relation ++ ".") = l.head ++ " " ++ relation ++ "." :=
    String.append_assoc.symm
  rw [htext] at hread' hquote'
  have hcomplete : ((complete { registry := r, threshold } lookup
        (l.head ++ " " ++ relation ++ ".")).run st).1
      = .ok (render l'.head (r.fieldCandidates threshold l'.openText scope)) :=
    complete_field hread' hquote' (hclosed ▸ hscope)
  have hspaces : l.head ++ "  " = l'.head ++ " " := by
    rw [hhead, String.append_assoc]
    rfl
  rw [hopen] at hcomplete
  refine ⟨_, hcomplete, fun f hf hlistable key hkey => ?_, fun f hf hlistable haliases => ?_, ?_⟩
  · rw [hspaces]
    exact Registry.mem_render_dotted hb threshold l'.head hf hlistable hkey
  · have hstarts := hb.startsWith_dotted hf
    have hname : f.name ∈ f.advertisedNames := by simp [Field.advertisedNames, haliases]
    refine ⟨hstarts, ?_⟩
    rw [hspaces, Registry.mem_render_dotted hb threshold l'.head hf hlistable List.mem_cons_self]
    exact ⟨hname, hstarts⟩
  · rw [hspaces]
    exact Registry.dot_not_mem_render r threshold l'.head relation scope

def gallery : Registry where
  name := "gallery"
  fields := [{ name := "title", type := .string },
    { Field.related "bars" "size" .integer with aliases := ["size"] }]

/-- The only member of the relation goes by an alias: the dot stands for it, and leads nowhere. -/
theorem complete_dotted_gallery_loses_size :
    gallery.Built
      ∧ ((complete { registry := gallery, threshold := 1 } (Lookup.none : Lookup (StateM Unit))
          " ").run ()).1 = .ok ["  title ", "  bars.", "  has ", "  not ", "  null? ", "  set? "]
      ∧ (∃ f ∈ gallery.members "bars", f.listable .clause ∧ "size" ∈ f.keys)
      ∧ ((complete { registry := gallery, threshold := 1 } (Lookup.none : Lookup (StateM Unit))
          "  bars.").run ()).1 = .ok [] := by
  refine ⟨⟨{ name := "gallery", fields := gallery.fields }, by decide⟩, by decide +kernel, ?_,
    by decide +kernel⟩
  exact ⟨{ Field.related "bars" "size" .integer with aliases := ["size"] }, by decide, by decide,
    by decide⟩

def workshop : Registry where
  name := "workshop"
  fields := [{ name := "title", type := .string }, Field.related "bars" "size" .integer,
    { Field.related "bars" "colour" .string with aliases := ["bars.color", "tint"] }]

/-- One member comes back under its path and one under an alias. -/
theorem complete_dotted_workshop :
    workshop.Built
      ∧ ((complete { registry := workshop, threshold := 2 } (Lookup.none : Lookup (StateM Unit))
          "has title or ").run ()).1 = .ok ["has title or  title ", "has title or  bars.",
            "has title or  has ", "has title or  not ", "has title or  null? ",
            "has title or  set? "]
      ∧ ∃ expanded,
        ((complete { registry := workshop, threshold := 2 } (Lookup.none : Lookup (StateM Unit))
          "has title or  bars.").run ()).1 = .ok expanded
        ∧ "has title or   bars.size " ∈ expanded ∧ "has title or   bars.color " ∈ expanded
        ∧ "has title or   bars.colour " ∉ expanded ∧ "has title or   bars." ∉ expanded := by
  have hb : workshop.Built := ⟨{ name := "workshop", fields := workshop.fields }, by decide⟩
  refine ⟨hb, by decide +kernel, ?_⟩
  obtain ⟨l, hread, hhead, hscope⟩ : ∃ l, Line.read "has title or " = .ok l
      ∧ l.head = "has title or "
      ∧ (Replay.run l.closedTokens).position.scope? = some .clause := ⟨_, rfl, by decide, by decide⟩
  obtain ⟨expanded, hcomplete, hoffered, hplain, hdot⟩ :=
    complete_dotted hb 2 (Lookup.none : Lookup (StateM Unit)) () hread (by simp [isQuote]) hscope
      (show IsWord ("bars" ++ ".") by decide)
  rw [hhead] at hcomplete hoffered hplain hdot
  have hcolour := hoffered
    { Field.related "bars" "colour" .string with aliases := ["bars.color", "tint"] } (by decide)
    (by decide)
  refine ⟨expanded, hcomplete, ?_, ?_, ?_, hdot⟩
  · exact (hplain (Field.related "bars" "size" .integer) (by decide) (by decide) rfl).2
  · exact (hcolour "bars.color" (by decide)).2 ⟨by decide, by decide +kernel⟩
  · exact fun h => absurd ((hcolour "bars.colour" (by decide)).1 h).1 (by decide)

end Engine

end FieldQuery
