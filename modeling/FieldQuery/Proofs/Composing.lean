import FieldQuery.Proofs.Indexing
import Mathlib.Data.List.Forall2

/-!
# Schemas that extend others

A builder tells declarations apart by the names they come with, and gives related fields their
dotted paths only when it builds. A schema that extends another one starts with the fields as they
were built, so a field may then have another name than the one it was declared by. Extending gives
the same as declaring everything at once if every later declaration meets an earlier field by the
one name exactly if it meets it by the other (`Composes`), and gives the same registry only then.
-/

namespace FieldQuery

/-- A later declaration has the name that an earlier field was declared by exactly if it has the
name under which the field enters a registry. -/
def Composes (base more : List Field) : Prop :=
  ∀ f ∈ more, ∀ g ∈ declared base, f.name = g.name ↔ f.name = g.finalName

instance (base more : List Field) : Decidable (Composes base more) :=
  inferInstanceAs <| Decidable <|
    ∀ f ∈ more, ∀ g ∈ declared base, f.name = g.name ↔ f.name = g.finalName

/-! ## Builders that build the same -/

/-- The fields are built as one field, and declarations by these names do not tell them apart. -/
structure Field.Alike (names : List String) (g h : Field) : Prop where
  renamed : g.renamed = h.renamed
  meets : ∀ name ∈ names, name = g.name ↔ name = h.name

theorem declare_alike {names : List String} {f : Field} (hf : f.name ∈ names) {gs hs : List Field}
    (h : List.Forall₂ (Field.Alike names) gs hs) :
    List.Forall₂ (Field.Alike names) (declare f gs) (declare f hs) := by
  induction h with
  | nil => exact .cons ⟨rfl, fun _ _ => Iff.rfl⟩ .nil
  | @cons g h gs hs hgh hrest ih =>
    have hiff : g.name = f.name ↔ h.name = f.name := by
      rw [eq_comm, hgh.meets _ hf, eq_comm]
    rw [declare, declare]
    by_cases hname : g.name = f.name
    · rw [if_pos hname, if_pos (hiff.1 hname)]
      exact .cons ⟨rfl, fun _ _ => Iff.rfl⟩ hrest
    · rw [if_neg hname, if_neg (mt hiff.2 hname)]
      exact .cons hgh ih

theorem map_renamed_of_alike {names : List String} {gs hs : List Field}
    (h : List.Forall₂ (Field.Alike names) gs hs) : gs.map Field.renamed = hs.map Field.renamed := by
  rw [← List.forall₂_eq_eq_eq, List.forall₂_map_left_iff, List.forall₂_map_right_iff]
  exact h.imp fun _ _ hgh => hgh.renamed

namespace Builder

theorem addFields_name (fs : List Field) (b : Builder) : (b.addFields fs).name = b.name :=
  (congrArg Builder.name (addFields_rename b.name fs b)).trans rfl

theorem addFields_alike {names : List String} : ∀ (fs : List Field) (b b' : Builder),
    (∀ f ∈ fs, f.name ∈ names) → List.Forall₂ (Field.Alike names) b.fields b'.fields →
      List.Forall₂ (Field.Alike names) (b.addFields fs).fields (b'.addFields fs).fields
  | [], _, _, _, h => h
  | f :: fs, b, b', hfs, h => by
    obtain ⟨hf, hfs⟩ := List.forall_mem_cons.1 hfs
    exact addFields_alike fs (b.field f) (b'.field f) hfs (declare_alike hf h)

theorem build_congr {b b' : Builder} (hname : b.name = b'.name)
    (hfields : b.fields.map Field.renamed = b'.fields.map Field.renamed) : b.build = b'.build := by
  rcases hbuild : b'.build with e | r
  · exact build_error_iff.2 (hfields ▸ build_error_iff.1 hbuild)
  · exact build_ok_iff.2 (hname ▸ hfields ▸ build_ok_iff.1 hbuild)

end Builder

/-! ## Places of declarations -/

/-- Later declarations leave the names before them in their places. -/
theorem name_place {fs : List Field} {i : Nat} {f : Field} (h : (declared fs)[i]? = some f)
    (gs : List Field) : ((declared (fs ++ gs)).map Field.name)[i]? = some f.name := by
  have hprefix : (declared fs).map Field.name <+: (declared (fs ++ gs)).map Field.name := by
    rw [(declares_declared fs).names, (declares_declared (fs ++ gs)).names, List.map_append,
      List.eraseDups_append]
    exact List.prefix_append _ _
  obtain ⟨hi, rfl⟩ := List.getElem?_eq_some_iff.1 h
  rw [List.prefix_iff_getElem?.1 hprefix i (by simpa using hi), List.getElem_map]

/-- What is declared last by a name does not depend on what comes before all declarations of it. -/
theorem find?_of_mem_declared {fs gs : List Field} {f : Field} (hf : f ∈ declared (fs ++ gs))
    (hname : f.name ∈ gs.map Field.name) :
    gs.reverse.find? (fun g => g.name = f.name) = some f := by
  have hlast := (declares_declared (fs ++ gs)).last f hf
  rw [List.reverse_append, List.find?_append] at hlast
  rcases hfind : gs.reverse.find? (fun g => g.name = f.name) with _ | g
  · obtain ⟨g, hg, hgname⟩ := List.mem_map.1 hname
    have hne := List.find?_eq_none.1 hfind g (List.mem_reverse.2 hg)
    simp [hgname] at hne
  · rw [hfind] at hlast
    exact hfind.trans hlast

/-- Where two lists of declarations are built as the same fields, what they both end in has the same
places in both. -/
theorem place_of_renamed_eq {fs fs' gs : List Field}
    (hsame : (declared (fs ++ gs)).map Field.renamed = (declared (fs' ++ gs)).map Field.renamed)
    (hnodup : ((declared (fs ++ gs)).map Field.finalName).Nodup) {name : String}
    (hname : name ∈ gs.map Field.name) {i : Nat}
    (hi : ((declared (fs ++ gs)).map Field.name)[i]? = some name) :
    ((declared (fs' ++ gs)).map Field.name)[i]? = some name := by
  obtain ⟨f, hf, rfl⟩ : ∃ f, (declared (fs ++ gs))[i]? = some f ∧ f.name = name := by
    simpa using hi
  obtain ⟨f', hf', hf'name⟩ : ∃ f' ∈ declared (fs' ++ gs), f'.name = f.name := by
    refine List.mem_map.1 ?_
    rw [(declares_declared _).names, List.mem_eraseDups, List.map_append]
    exact List.mem_append_right _ hname
  obtain ⟨j, hj⟩ := List.mem_iff_getElem?.1 hf'
  obtain rfl : f = f' := by
    have hfind := find?_of_mem_declared hf' (hf'name ▸ hname)
    rw [hf'name, find?_of_mem_declared (List.mem_of_getElem? hf) hname] at hfind
    exact Option.some.inj hfind
  have hfinal : (declared (fs ++ gs)).map Field.finalName
      = (declared (fs' ++ gs)).map Field.finalName := by
    simpa [Function.comp_def, Field.renamed] using congrArg (List.map Field.name) hsame
  obtain rfl : i = j := by
    refine (List.getElem?_inj ?_ hnodup).1 ?_
    · simpa using (List.getElem?_eq_some_iff.1 hf).1
    · rw [List.getElem?_map, hf, hfinal, List.getElem?_map, hj]
  rw [List.getElem?_map, hj]
  rfl

theorem Registry.Built.declared_fields {r : Registry} (hb : r.Built) :
    declared r.fields = r.fields := by
  have h := hb.addFields_fields r.name
  rw [Builder.addFields_eq] at h
  exact congrArg Builder.fields h

namespace Builder

variable {name : String} {base : List Field} {r : Registry}

theorem finalNames_nodup (h : (addFields { name } base).build = .ok r) :
    ((declared base).map Field.finalName).Nodup := by
  have hnodup := Registry.Built.names_nodup ⟨_, h⟩
  rwa [fields_of_build h, List.map_map] at hnodup

/-- Later declarations that compose with a schema may be made on top of it as well as at once. If
both ways give the same registry, they do compose. -/
theorem build_extend (hr : (addFields { name } base).build = .ok r) (name' : String)
    (more : List Field) :
    (Composes base more → ((r.extend name').addFields more).build
        = (addFields { name := name' } (base ++ more)).build)
      ∧ ∀ r', ((r.extend name').addFields more).build = .ok r' →
        (addFields { name := name' } (base ++ more)).build = .ok r' → Composes base more := by
  have hb : r.Built := ⟨_, hr⟩
  have hfields := fields_of_build hr
  constructor
  · intro hcomposes
    rw [addFields_append, addFields_eq name' base]
    refine build_congr (by simp only [addFields_name, Registry.extend]) ?_
    refine map_renamed_of_alike (addFields_alike more _ _ (fun f => List.mem_map_of_mem) ?_)
    rw [Registry.extend, hfields, List.forall₂_map_left_iff, List.forall₂_same]
    refine fun g hg => ⟨g.renamed_renamed, fun a ha => ?_⟩
    obtain ⟨f, hf, rfl⟩ := List.mem_map.1 ha
    exact (hcomposes f hf g hg).symm
  · intro r' hext hall f hf g hg
    rw [hb.extend_addFields] at hext
    have hsame := (fields_of_build hall).symm.trans (fields_of_build hext)
    have hname : f.name ∈ more.map Field.name := List.mem_map_of_mem hf
    obtain ⟨i, hi⟩ := List.mem_iff_getElem?.1 hg
    have hplace := name_place hi more
    have hplace' : ((declared (r.fields ++ more)).map Field.name)[i]? = some g.finalName := by
      refine name_place (f := g.renamed) ?_ more
      rw [hb.declared_fields, hfields, List.getElem?_map, hi]
      rfl
    constructor
    · intro h
      rw [← h] at hplace
      have hf' := place_of_renamed_eq hsame (finalNames_nodup hall) hname hplace
      exact Option.some.inj (hf'.symm.trans hplace')
    · intro h
      rw [← h] at hplace'
      have hf' := place_of_renamed_eq hsame.symm (finalNames_nodup hext) hname hplace'
      exact Option.some.inj (hf'.symm.trans hplace)

def zoo : List Field :=
  [{ name := "size", type := .integer, relation := some { name := "bars", remoteField := "size" } },
    { name := "keeper", type := .string }]

def annex : List Field :=
  [.related "cars" "wheel" .integer, { name := "keeper", type := .set, aliases := ["staff"] }]

/-- One declaration comes behind the earlier ones and the other one replaces one of them. -/
theorem build_extend_zoo : ∃ r, (addFields { name := "zoo" } zoo).build = .ok r
    ∧ Composes zoo annex
    ∧ ((r.extend "park").addFields annex).build
      = (addFields { name := "park" } (zoo ++ annex)).build := by
  have hr : (addFields { name := "zoo" } zoo).build
      = .ok { name := "zoo", fields := zoo.map Field.renamed } := by decide
  have hcomposes : Composes zoo annex := by decide
  exact ⟨_, hr, hcomposes, (build_extend hr "park" annex).1 hcomposes⟩

/-- The same declaration replaces the field if both are made at once. On top of the built field,
which goes by its path, it is another field and takes the same path when it is built. -/
theorem build_extend_redeclared : ∃ r, (addFields { name := "zoo" } zoo).build = .ok r
    ∧ ((r.extend "park").addFields zoo).build = .error (.duplicateName "bars.size")
    ∧ (addFields { name := "park" } (zoo ++ zoo)).build
      = .ok { name := "park", fields := zoo.map Field.renamed } := by
  exact ⟨{ name := "zoo", fields := zoo.map Field.renamed }, by decide, by decide, by decide⟩

end Builder

end FieldQuery
