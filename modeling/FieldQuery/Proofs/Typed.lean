import FieldQuery.Proofs.Collapsing
import FieldQuery.Proofs.Expansion

/-!
# What has been typed

Every candidate goes on with what has been typed, or stands for a known value that does, with one
exception (`Registry.enumerate_fits`). The dot of a relation is made from the name of the relation,
while its members are listed by their aliases, if they have any. A member that is listed under a
name with the dotted relation at its start makes the dot go on with what has been typed, because of
two starts of one name one is a start of the other. If all members are listed under other names, the
dot may have nothing to do with what has been typed (`Registry.enumerate_depot`).
-/

namespace FieldQuery

theorem startsWith_or_startsWith {s t u : String} (ht : s.startsWith t) (hu : s.startsWith u) :
    t.startsWith u ∨ u.startsWith t := by
  rw [String.startsWith_string_iff] at ht hu
  rw [String.startsWith_string_iff, String.startsWith_string_iff]
  exact List.prefix_or_prefix_of_prefix hu ht

/-- The members that may be listed go by aliases, and those that go on with what has been typed do
not have the dotted relation at their start. -/
def RelationGroup.Renamed (g : RelationGroup) (typed : String) (scope : Scope) : Prop :=
  ∀ f ∈ g.members, f.listable scope → f.aliases ≠ []
    ∧ ∀ name ∈ f.aliases, name.startsWith typed → name.startsWith (g.relation ++ ".") = false

namespace Registry

variable {r : Registry}

theorem of_mem_grouped {typed : String} {scope : Scope} {cs : List Candidate} {c : Candidate}
    (h : c ∈ r.grouped typed scope cs) : c ∈ cs ∨ ∃ g ∈ r.groups, g.Collapses typed scope cs
      ∧ c = .group g.relation := by
  refine (of_mem_placed h).imp_right ?_
  rintro ⟨g, hg, rfl⟩
  obtain ⟨hg, hcollapses⟩ := List.mem_filter.1 hg
  exact ⟨g, hg, by simpa using hcollapses, rfl⟩

theorem startsWith_of_mem_listing {typed : String} {scope : Scope} {c : Candidate}
    (h : c ∈ r.listing typed scope) : c.text.startsWith typed := by
  rcases mem_listing.1 h with ⟨f, -, -, name, -, hoffers, rfl⟩ | ⟨-, op, hop, rfl⟩
  · rw [Field.offers, Bool.and_eq_true] at hoffers
    exact hoffers.1
  · exact hop

/-- A member that is listed is listed under one of its advertised names. -/
theorem Built.name_of_listed (hb : r.Built) {typed : String} {scope : Scope} {f : Field}
    (hf : f ∈ r.fields) (h : ∃ c ∈ r.listing typed scope, c.field = some f.name) :
    ∃ name ∈ f.advertisedNames, name.startsWith typed := by
  obtain ⟨c, hc, hfield⟩ := h
  have hstarts := startsWith_of_mem_listing hc
  rcases mem_listing.1 hc with ⟨f', hf', -, name, hname, -, rfl⟩ | ⟨-, op, -, rfl⟩
  · have hsame : f'.name = f.name := Option.some.inj hfield
    obtain rfl : f' = f :=
      hb.eq_of_key hf' hf List.mem_cons_self (List.mem_cons.2 (.inl hsame))
    exact ⟨name, hname, hstarts⟩
  · simp at hfield

/-- The dot of a relation that collapses goes on with what has been typed, unless all its members
are listed under aliases that have nothing to do with the dot. -/
theorem Built.dot_startsWith (hb : r.Built) {typed : String} {scope : Scope} {g : RelationGroup}
    (hg : g ∈ r.groups) (h : g.Collapses typed scope (r.listing typed scope)) :
    (g.relation ++ ".").startsWith typed ∨ g.Renamed typed scope := by
  by_cases hdot : (g.relation ++ ".").startsWith typed
  · exact .inl hdot
  · -- no name goes on with what has been typed and with the dot
    have hother : ∀ name : String, name.startsWith typed →
        name.startsWith (g.relation ++ ".") = false := by
      intro name htyped
      refine Bool.eq_false_iff.2 fun hname => ?_
      rcases startsWith_or_startsWith htyped hname with hstarts | hstarts
      · simp [h.notTyped] at hstarts
      · exact hdot hstarts
    refine .inr fun f hf hlistable => ⟨fun haliases => ?_, fun name _ => hother name⟩
    obtain ⟨relation, -, rfl⟩ := mem_groups.1 hg
    have hfields : f ∈ r.fields := (List.mem_filter.1 hf).1
    have hlisted : f.name ∈ RelationGroup.listable { relation, members := r.members relation }
        scope := List.mem_map_of_mem (List.mem_filter.2 ⟨hf, hlistable⟩)
    obtain ⟨name, hname, htyped⟩ := hb.name_of_listed hfields (h.listed f.name hlisted)
    obtain rfl : name = f.name := by simpa [Field.advertisedNames, haliases] using hname
    have hpath := hb.startsWith_dotted hf
    simp [hother f.name htyped] at hpath

/-- The candidate has to do with what has been typed in the context, where `known` are the known
values. -/
def Fits (r : Registry) (known : List String) : Context → Candidate → Prop
  | .field typed scope, c => c.text.startsWith typed
      ∨ ∃ g ∈ r.groups, c = .group g.relation ∧ g.Renamed typed scope
  | .comparator _ typed, c | .connective typed, c => c.text.startsWith typed
  | .value _ _ typed, c => ∃ value ∈ known, value.startsWith typed ∧ c = valueCandidate value
  | .nothing, _ => False

theorem startsWith_of_mem_wordCandidates {typed : String} {words : List String} {c : Candidate}
    (h : c ∈ wordCandidates typed words) : c.text.startsWith typed := by
  obtain ⟨w, -, hw, rfl⟩ := mem_wordCandidates.1 h
  exact hw

theorem Built.fits_fieldCandidates (hb : r.Built) {threshold : Nat} {typed : String}
    {scope : Scope} {c : Candidate} (h : c ∈ r.fieldCandidates threshold typed scope)
    (known : List String) : r.Fits known (.field typed scope) c := by
  simp only [fieldCandidates, hb.foldl_collapse] at h
  split_ifs at h
  · exact .inl (startsWith_of_mem_listing h)
  · rcases of_mem_grouped h with h | ⟨g, hg, hcollapses, rfl⟩
    · exact .inl (startsWith_of_mem_listing h)
    · exact (hb.dot_startsWith hg hcollapses).imp_right fun hrenamed => ⟨g, hg, rfl, hrenamed⟩

theorem Built.fits_candidates (hb : r.Built) {threshold : Nat} {known : List String} {ctx : Context}
    {c : Candidate} (h : c ∈ r.candidates threshold known ctx) : r.Fits known ctx c := by
  cases ctx with
  | field typed scope => exact hb.fits_fieldCandidates h known
  | comparator field typed =>
    simp only [candidates, comparatorCandidates] at h
    split at h
    · exact startsWith_of_mem_wordCandidates h
    · simp at h
  | value field comparator typed =>
    obtain ⟨value, hvalue, rfl⟩ := List.mem_map.1 h
    obtain ⟨hknown, hstarts⟩ := List.mem_filter.1 hvalue
    exact ⟨value, hknown, hstarts, rfl⟩
  | connective typed => exact startsWith_of_mem_wordCandidates h
  | nothing => simp [candidates] at h

/-- The known values that a context asks for, none if it asks for none. -/
def knownFor {σ : Type} (r : Registry) (lookup : Lookup (StateM σ)) (st : σ) (ctx : Context) :
    KnownResult :=
  match r.valueField? ctx with
  | some f => ((lookup f).run st).1
  | none => .ok []

theorem enumerate_eq_map {σ : Type} (r : Registry) (threshold : Nat) (lookup : Lookup (StateM σ))
    (st : σ) (ctx : Context) : ((r.enumerate threshold lookup ctx).run st).1
      = (r.knownFor lookup st ctx).map fun known => r.candidates threshold known ctx := by
  rw [enumerate_run, knownFor]
  cases r.valueField? ctx <;> rfl

/-- Every candidate goes on with what has been typed, or stands for a known value that does. The
only exception is the dot of a relation all of whose members are listed under aliases. -/
theorem enumerate_fits (hb : r.Built) {σ : Type} {threshold : Nat} {lookup : Lookup (StateM σ)}
    {st : σ} {ctx : Context} {cs : List Candidate}
    (h : ((r.enumerate threshold lookup ctx).run st).1 = .ok cs) :
    ∃ known, r.knownFor lookup st ctx = .ok known ∧ ∀ c ∈ cs, r.Fits known ctx c := by
  rw [enumerate_eq_map] at h
  rcases hknown : r.knownFor lookup st ctx with e | known
  · simp [hknown, Except.map] at h
  · obtain rfl : r.candidates threshold known ctx = cs := by simpa [hknown, Except.map] using h
    exact ⟨known, rfl, fun c hc => hb.fits_candidates hc⟩

def depot : Registry where
  name := "depot"
  fields := [Field.related "cars" "plate" .string, Field.related "cars" "wheel" .string,
    { Field.related "bars" "size" .integer with aliases := ["capacity"] }]

theorem depot_built : depot.Built :=
  ⟨{ name := "depot", fields := depot.fields }, by decide⟩

/-- The dot of a relation is offered for `ca` because a member of it goes by `capacity`. -/
theorem enumerate_depot :
    depot.Built
      ∧ depot.enumerate 1 (Lookup.none : Lookup (StateM Unit)) (.field "ca" .clause)
        = pure (.ok [.group "cars", .group "bars"])
      ∧ (Candidate.group "cars").text.startsWith "ca"
      ∧ (Candidate.group "bars").text.startsWith "ca" = false := by
  have hgrouped : depot.fieldCandidates 1 "ca" .clause = [.group "cars", .group "bars"] := by
    decide +kernel
  refine ⟨depot_built, ?_, by decide +kernel, by decide +kernel⟩
  simp only [enumerate, valueField?, candidates, hgrouped]

/-- The dot of one relation goes on with what has been typed, and the members of the other all go by
aliases. -/
theorem enumerate_fits_depot :
    depot.Built
      ∧ ((depot.enumerate 1 (Lookup.none : Lookup (StateM Unit)) (.field "ca" .clause)).run ()).1
        = .ok [.group "cars", .group "bars"]
      ∧ ∃ known, ∀ c ∈ [Candidate.group "cars", .group "bars"],
        depot.Fits known (.field "ca" .clause) c := by
  have hrun : ((depot.enumerate 1 (Lookup.none : Lookup (StateM Unit))
      (.field "ca" .clause)).run ()).1 = .ok [.group "cars", .group "bars"] := by decide +kernel
  obtain ⟨known, -, hfits⟩ := enumerate_fits depot_built hrun
  exact ⟨depot_built, hrun, known, hfits⟩

end Registry

end FieldQuery
