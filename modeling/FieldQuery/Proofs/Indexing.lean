import FieldQuery.Proofs.Hiding
import Mathlib.Data.List.Induction

/-!
# From declarations to a registry

A builder keeps, for each name, the last declaration of it in the place of the first (`declared`).
Building fails with the first offence that the loop over the fields meets (`Offence`), and otherwise
gives a registry whose index and look-ups are faithful to its fields (`Registry.Faithful`). The loop
goes on exactly while the fields behind it are clean, with their index filled, so where it stops is
told by the fields alone (`Offence.iff_fill`).
-/

namespace FieldQuery

/-! ## Declarations -/

/-- The declarations that count: for each name, in the order in which names are first declared, the
last declaration of it. -/
def declared (fs : List Field) : List Field :=
  (fs.map Field.name).eraseDups.filterMap fun name => fs.reverse.find? fun f => f.name = name

theorem names_declare (f : Field) : ∀ gs : List Field, (declare f gs).map Field.name
    = if f.name ∈ gs.map Field.name then gs.map Field.name else gs.map Field.name ++ [f.name]
  | [] => rfl
  | g :: gs => by
    rw [declare]
    by_cases h : g.name = f.name
    · simp [h]
    · rw [if_neg h, List.map_cons, names_declare f gs]
      simp only [List.map_cons, List.mem_cons, Ne.symm h, false_or]
      split_ifs <;> rfl

theorem of_mem_declare {f g : Field} : ∀ {gs : List Field}, (gs.map Field.name).Nodup →
    g ∈ declare f gs → g = f ∨ g ∈ gs ∧ g.name ≠ f.name
  | [], _, h => .inl (List.mem_singleton.1 h)
  | g' :: gs, hnodup, h => by
    rw [List.map_cons, List.nodup_cons] at hnodup
    rw [declare] at h
    split_ifs at h with hname
    · refine (List.mem_cons.1 h).imp_right fun h => ⟨List.mem_cons_of_mem _ h, fun hsame => ?_⟩
      exact hnodup.1 (hname.trans hsame.symm ▸ List.mem_map_of_mem h)
    · rcases List.mem_cons.1 h with rfl | h
      · exact .inr ⟨List.mem_cons_self, hname⟩
      · exact (of_mem_declare hnodup.2 h).imp_right (And.imp_left (List.mem_cons_of_mem _))

/-- The fields have the names that `fs` declares, in their order, each as it is declared last. -/
structure Declares (fs gs : List Field) : Prop where
  names : gs.map Field.name = (fs.map Field.name).eraseDups
  last : ∀ g ∈ gs, fs.reverse.find? (fun f => f.name = g.name) = some g

theorem Declares.eq {fs gs : List Field} (h : Declares fs gs) : gs = declared fs := by
  rw [declared, ← h.names, List.filterMap_map]
  exact ((List.filterMap_congr h.last).trans List.filterMap_some).symm

/-- One declaration more. -/
theorem Declares.concat {fs gs : List Field} (h : Declares fs gs) (f : Field) :
    Declares (fs ++ [f]) (declare f gs) := by
  have hmem : f.name ∈ gs.map Field.name ↔ f.name ∈ fs.map Field.name := by
    rw [h.names, List.mem_eraseDups]
  refine ⟨?_, fun g hg => ?_⟩
  · rw [names_declare, List.map_append, List.map_singleton, eraseDups_concat, ← h.names]
    simp only [hmem]
  · rw [List.reverse_concat, List.find?_cons]
    rcases of_mem_declare (h.names ▸ nodup_eraseDups _) hg with rfl | ⟨hg, hne⟩
    · simp
    · simpa [Ne.symm hne] using h.last g hg

theorem Builder.addFields_append (b : Builder) (fs gs : List Field) :
    b.addFields (fs ++ gs) = (b.addFields fs).addFields gs :=
  List.foldl_append

theorem Builder.addFields_rename (name : String) : ∀ (fs : List Field) (b : Builder),
    addFields { b with name } fs = { b.addFields fs with name }
  | [], _ => rfl
  | f :: fs, b => addFields_rename name fs (b.field f)

theorem Builder.exists_declares (name : String) (fs : List Field) :
    ∃ gs, addFields { name } fs = { name, fields := gs } ∧ Declares fs gs := by
  induction fs using List.reverseRecOn with
  | nil => exact ⟨[], rfl, rfl, by simp⟩
  | append_singleton fs f ih =>
    obtain ⟨gs, hadd, hdeclares⟩ := ih
    refine ⟨declare f gs, ?_, hdeclares.concat f⟩
    rw [addFields_append, hadd]
    rfl

theorem Builder.addFields_eq (name : String) (fs : List Field) :
    addFields { name } fs = { name, fields := declared fs } := by
  obtain ⟨gs, hadd, hdeclares⟩ := exists_declares name fs
  rw [hadd, hdeclares.eq]

theorem declares_declared (fs : List Field) : Declares fs (declared fs) := by
  obtain ⟨gs, -, h⟩ := Builder.exists_declares "" fs
  exact h.eq ▸ h

theorem Builder.of_build {name : String} {fs : List Field} {r : Registry}
    (h : (addFields { name } fs).build = .ok r) :
    r = { name, fields := (declared fs).map Field.renamed } := by
  rw [addFields_eq] at h
  exact (build_ok_iff.1 h).2

theorem Builder.exists_build_iff (name : String) (fs : List Field) :
    (∃ r, (addFields { name } fs).build = .ok r)
      ↔ Clean ((declared fs).map Field.renamed) := by
  simp only [addFields_eq, build_ok_iff, exists_and_left, exists_eq, and_true]

theorem Builder.fields_of_build {name : String} {fs : List Field} {r : Registry}
    (h : (addFields { name } fs).build = .ok r) : r.fields = (declared fs).map Field.renamed :=
  congrArg Registry.fields (of_build h)

/-! ## Offences -/

/-- The first offence of a scan through the fields: the name of a field is blank, or one of its
keys, of which the name comes first, is taken by a field before it or stands twice among them. -/
inductive Offence : List Field → SchemaError → Prop
  | emptyName {before after : List Field} {f : Field} (hbefore : Clean before)
    (hname : isBlankText f.name) : Offence (before ++ f :: after) .emptyName
  | duplicateName {before after : List Field} {f : Field} {keys keys' : List String} {key : String}
    (hbefore : Clean before) (hname : isBlankText f.name = false)
    (hkeys : f.keys = keys ++ key :: keys') (hfree : (before.flatMap Field.keys ++ keys).Nodup)
    (htaken : key ∈ before.flatMap Field.keys ++ keys) :
    Offence (before ++ f :: after) (.duplicateName key)

/-- A fold that stops does so at one element, and has gone through all before it. -/
theorem foldlM_error_iff {α σ ε : Type} {g : σ → α → Except ε σ} {e : ε} :
    ∀ {xs : List α} {s : σ}, xs.foldlM g s = .error e ↔ ∃ before x after s',
      xs = before ++ x :: after ∧ before.foldlM g s = .ok s' ∧ g s' x = .error e
  | [], s => by simp [pure, Except.pure]
  | x :: xs, s => by
    rw [List.foldlM_cons]
    rcases hg : g s x with e' | s'
    · constructor
      · intro h
        exact ⟨[], x, xs, s, rfl, rfl, hg.trans h⟩
      · rintro ⟨before, y, after, t, hxs, hok, herror⟩
        cases before with
        | nil =>
          obtain ⟨rfl, -⟩ := List.cons.inj hxs
          obtain rfl : s = t := Except.ok.inj hok
          exact hg.symm.trans herror
        | cons z before =>
          obtain ⟨rfl, -⟩ := List.cons.inj hxs
          simp [hg, bind, Except.bind] at hok
    · have hstep : ∀ ys : List α, (x :: ys).foldlM g s = ys.foldlM g s' := by
        intro ys
        rw [List.foldlM_cons, hg]
        rfl
      refine (foldlM_error_iff (s := s')).trans ⟨?_, ?_⟩
      · rintro ⟨before, y, after, t, rfl, hok, herror⟩
        exact ⟨x :: before, y, after, t, rfl, (hstep before).trans hok, herror⟩
      · rintro ⟨before, y, after, t, hxs, hok, herror⟩
        cases before with
        | nil =>
          obtain ⟨rfl, -⟩ := List.cons.inj hxs
          obtain rfl : s = t := Except.ok.inj hok
          simp [hg] at herror
        | cons z before =>
          obtain ⟨rfl, rfl⟩ := List.cons.inj hxs
          exact ⟨before, y, after, t, rfl, (hstep before).symm.trans hok, herror⟩

def claimKey (i : Nat) (taken : List (String × Nat)) (key : String) :
    Except SchemaError (List (String × Nat)) :=
  match taken.lookup key with
  | some _ => .error (.duplicateName key)
  | none => .ok (taken ++ [(key, i)])

theorem claimKeys_eq_foldlM (i : Nat) : ∀ (keys : List String) (taken : List (String × Nat)),
    claimKeys i taken keys = keys.foldlM (claimKey i) taken
  | [], _ => rfl
  | key :: keys, taken => by
    rw [claimKeys, List.foldlM_cons, claimKey]
    rcases taken.lookup key with _ | j
    · exact claimKeys_eq_foldlM i keys _
    · rfl

theorem claimKey_error_iff {i : Nat} {taken : List (String × Nat)} {key : String}
    {e : SchemaError} :
    claimKey i taken key = .error e ↔ key ∈ taken.map Prod.fst ∧ e = .duplicateName key := by
  have htaken : taken.lookup key = none ↔ key ∉ taken.map Prod.fst := lookup_eq_none_iff
  rw [claimKey]
  rcases hkey : taken.lookup key with _ | j <;> rw [hkey] at htaken
  · simp [htaken.1 rfl]
  · simp [Decidable.not_not.1 (mt htaken.2 (by simp)), eq_comm]

/-- Claiming keys fails at the first one that is taken, or that stands before it too. -/
theorem claimKeys_error_iff {i : Nat} {keys : List String} {taken : List (String × Nat)}
    {e : SchemaError} : claimKeys i taken keys = .error e ↔ ∃ ks key ks', keys = ks ++ key :: ks'
      ∧ ks.Nodup ∧ (∀ k ∈ ks, k ∉ taken.map Prod.fst) ∧ (key ∈ taken.map Prod.fst ∨ key ∈ ks)
      ∧ e = .duplicateName key := by
  rw [claimKeys_eq_foldlM, foldlM_error_iff]
  constructor
  · rintro ⟨ks, key, ks', taken', hkeys, hok, herror⟩
    rw [← claimKeys_eq_foldlM] at hok
    obtain ⟨hnodup, hfree, rfl⟩ := claimKeys_ok_iff.1 hok
    obtain ⟨htaken, rfl⟩ := claimKey_error_iff.1 herror
    exact ⟨ks, key, ks', hkeys, hnodup, hfree, by simpa using htaken, rfl⟩
  · rintro ⟨ks, key, ks', hkeys, hnodup, hfree, htaken, rfl⟩
    refine ⟨ks, key, ks', taken ++ ks.map (·, i), hkeys, ?_,
      claimKey_error_iff.2 ⟨by simpa using htaken, rfl⟩⟩
    rw [← claimKeys_eq_foldlM]
    exact claimKeys_ok_iff.2 ⟨hnodup, hfree, rfl⟩

namespace Index

/-- Entering one field more fails if its name is blank, and else at the first of its keys that leads
to a field before it or stands twice among its own. -/
theorem enter_error_iff {fs : List Field} {f : Field} {e : SchemaError} :
    (of fs).enter fs.length f = .error e ↔ isBlankText f.name ∧ e = .emptyName
      ∨ isBlankText f.name = false ∧ ∃ keys key keys', f.keys = keys ++ key :: keys'
        ∧ keys.Nodup ∧ (∀ k ∈ keys, k ∉ fs.flatMap Field.keys)
        ∧ (key ∈ fs.flatMap Field.keys ∨ key ∈ keys) ∧ e = .duplicateName key := by
  rw [← map_fst_of_keys, ← claimKeys_error_iff (i := fs.length), enter]
  rcases hname : isBlankText f.name with _ | _
  · rcases claimKeys fs.length (of fs).keys f.keys with e' | keys <;>
      simp [bind, Except.bind, pure, Except.pure]
  · simp [bind, Except.bind, eq_comm]

/-- The loop stops at one field, with the index of the fields before it filled. -/
theorem fill_error_iff {fs : List Field} {e : SchemaError} : fill fs = .error e ↔
    ∃ before f after, fs = before ++ f :: after ∧ Clean before
      ∧ (of before).enter before.length f = .error e := by
  rw [fill, foldlM_error_iff]
  constructor
  · rintro ⟨_, _, _, x, hzip, hok, herror⟩
    obtain ⟨before, rest, rfl, rfl, hrest⟩ := List.zipIdx_eq_append_iff.1 hzip
    obtain ⟨f, after, rfl, rfl, -⟩ := List.zipIdx_eq_cons_iff.1 hrest.symm
    obtain ⟨hclean, rfl⟩ := fill_ok_iff.1 hok
    exact ⟨before, f, after, rfl, hclean, by simpa using herror⟩
  · rintro ⟨before, f, after, rfl, hclean, herror⟩
    exact ⟨before.zipIdx, (f, before.length), after.zipIdx (before.length + 1), of before,
      by simp [List.zipIdx_append], fill_ok_iff.2 ⟨hclean, rfl⟩, herror⟩

end Index

theorem Offence.iff_fill {fs : List Field} {e : SchemaError} :
    Offence fs e ↔ Index.fill fs = .error e := by
  rw [Index.fill_error_iff]
  symm
  constructor
  · rintro ⟨before, f, after, rfl, hclean, herror⟩
    rcases Index.enter_error_iff.1 herror with ⟨hname, rfl⟩
      | ⟨hname, keys, key, keys', hkeys, hnodup, hfree, htaken, rfl⟩
    · exact .emptyName hclean hname
    · refine .duplicateName hclean hname hkeys ?_ (List.mem_append.2 htaken)
      refine List.nodup_append.2 ⟨hclean.distinct, hnodup, ?_⟩
      rintro k hk k' hk' rfl
      exact hfree k hk' hk
  · intro h
    cases h with
    | emptyName hclean hname =>
      exact ⟨_, _, _, rfl, hclean, Index.enter_error_iff.2 (.inl ⟨hname, rfl⟩)⟩
    | @duplicateName before after f keys keys' key hclean hname hkeys hfree htaken =>
      obtain ⟨-, hnodup, hdisjoint⟩ := List.nodup_append.1 hfree
      refine ⟨_, _, _, rfl, hclean, Index.enter_error_iff.2 (.inr ⟨hname, keys, key, keys', hkeys,
        hnodup, fun k hk hk' => ?_, List.mem_append.1 htaken, rfl⟩)⟩
      exact hdisjoint k hk' k hk rfl

/-! ## Look-ups -/

/-- Without repeats, values stand in the order of the elements that they first come from. -/
theorem pairwise_eraseDups {α β : Type} [DecidableEq β] (g : α → Option β) (xs : List α) :
    (xs.filterMap g).eraseDups.Pairwise fun a b =>
      xs.findIdx (fun x => g x = some a) < xs.findIdx (fun x => g x = some b) := by
  induction xs using List.reverseRecOn with
  | nil => exact List.Pairwise.nil
  | append_singleton xs x ih =>
    have hlt : ∀ a ∈ (xs.filterMap g).eraseDups,
        xs.findIdx (fun x => g x = some a) < xs.length := by
      intro a ha
      obtain ⟨y, hy, hya⟩ := List.mem_filterMap.1 (List.mem_eraseDups.1 ha)
      exact List.findIdx_lt_length_of_exists ⟨y, hy, by simpa using hya⟩
    have hold : ∀ a ∈ (xs.filterMap g).eraseDups, (xs ++ [x]).findIdx (fun x => g x = some a)
        = xs.findIdx fun x => g x = some a := by
      intro a ha
      rw [List.findIdx_append, if_pos (hlt a ha)]
    have ih' : (xs.filterMap g).eraseDups.Pairwise fun a b =>
        (xs ++ [x]).findIdx (fun x => g x = some a) < (xs ++ [x]).findIdx (fun x => g x = some b) :=
      ih.imp_of_mem fun ha hb h => by rwa [hold _ ha, hold _ hb]
    rw [List.filterMap_append]
    rcases hx : g x with _ | y
    · simpa [hx] using ih'
    · rw [show [x].filterMap g = [y] by simp [hx], eraseDups_concat]
      split_ifs with hy
      · exact ih'
      · refine List.pairwise_append.2 ⟨ih', List.pairwise_singleton _ _, fun a ha b hb => ?_⟩
        obtain rfl : b = y := List.mem_singleton.1 hb
        have hnone : xs.findIdx (fun x => g x = some b) = xs.length := by
          refine List.findIdx_eq_length.2 fun z hz => decide_eq_false fun hzy => ?_
          exact hy (List.mem_filterMap.2 ⟨z, hz, hzy⟩)
        rw [hold a ha, List.findIdx_append, if_neg (by omega)]
        have := hlt a ha
        omega

theorem mem_positions {fs : List Field} {relation : String} {i : Nat} :
    i ∈ positions fs relation ↔ ∃ f, fs[i]? = some f ∧ f.relationName? = some relation := by
  simp only [positions, List.mem_map, List.mem_filter, List.mem_zipIdx_iff_getElem?,
    decide_eq_true_eq]
  constructor
  · rintro ⟨⟨f, i⟩, h, rfl⟩
    exact ⟨f, h⟩
  · rintro ⟨f, h⟩
    exact ⟨(f, i), h, rfl⟩

theorem pairwise_positions (fs : List Field) (relation : String) :
    (positions fs relation).Pairwise (· < ·) := by
  have hall : (fs.zipIdx.map Prod.snd).Pairwise (· < ·) := by
    rw [List.zipIdx_map_snd]
    exact List.pairwise_lt_range' 1
  exact hall.sublist (List.filter_sublist.map _)

namespace Registry

/-- The index is what the loop fills from the fields, and look-ups tell what the fields are: no key
leads to two fields, and the relation groups share the fields that are reached through a relation
out among themselves, in the order of declaration. -/
structure Faithful (r : Registry) : Prop where
  filled : Index.fill r.fields = .ok r.index
  key : ∀ key i, r.index.keys.lookup key = some i ↔ ∃ f, r.fields[i]? = some f ∧ key ∈ f.keys
  positions : ∀ g ∈ r.index.groups, g.2.Pairwise (· < ·)
    ∧ ∀ i, i ∈ g.2 ↔ ∃ f, r.fields[i]? = some f ∧ f.relationName? = some g.1
  named : ∀ f ∈ r.fields, isBlankText f.name = false
  distinct : (r.fields.flatMap Field.keys).Nodup
  resolve : ∀ key f, r.resolve? key = some f ↔ f ∈ r.fields ∧ key ∈ f.keys
  path : ∀ f ∈ r.fields, ∀ way, f.relation = some way → f.name = way.path
  group : ∀ f ∈ r.fields, f.relation.isSome → ∃! g, g ∈ r.groups ∧ f ∈ g.members
  members : ∀ g ∈ r.groups, g.members ≠ []
    ∧ g.members = r.fields.filter fun f => f.relationName? = some g.relation
  first : r.groups.Pairwise fun g g' =>
    r.fields.findIdx (fun f => f.relationName? = some g.relation)
      < r.fields.findIdx (fun f => f.relationName? = some g'.relation)

variable {r : Registry}

theorem Built.lookup_iff (hb : r.Built) {key : String} {i : Nat} :
    r.index.keys.lookup key = some i ↔ ∃ f, r.fields[i]? = some f ∧ key ∈ f.keys := by
  rw [lookup_index, List.findIdx?_eq_some_iff_getElem]
  constructor
  · rintro ⟨hi, hkey, -⟩
    exact ⟨r.fields[i], List.getElem?_eq_getElem hi, by simpa using hkey⟩
  · rintro ⟨f, hf, hkey⟩
    obtain ⟨hi, rfl⟩ := List.getElem?_eq_some_iff.1 hf
    refine ⟨hi, by simpa using hkey, fun j hji hkey' => ?_⟩
    have hdisjoint := List.pairwise_iff_getElem.1 (List.nodup_flatMap.1 hb.keys_nodup).2
    exact hdisjoint j i (Nat.lt_trans hji hi) hi hji (by simpa using hkey') hkey

theorem Built.resolve?_iff (hb : r.Built) {key : String} {f : Field} :
    r.resolve? key = some f ↔ f ∈ r.fields ∧ key ∈ f.keys := by
  constructor
  · intro h
    rw [resolve?_eq] at h
    exact ⟨List.mem_of_find?_eq_some h, by simpa using List.find?_some h⟩
  · rintro ⟨hf, hkey⟩
    exact hb.resolve? hf hkey

theorem positions_of_mem_index {g : String × List Nat} (hg : g ∈ r.index.groups) :
    g.2 = positions r.fields g.1 := by
  rw [r.index_eq] at hg
  obtain ⟨relation, -, rfl⟩ := List.mem_map.1 hg
  rfl

/-- A field that is reached through a relation is in the group of that relation alone. -/
theorem existsUnique_group {f : Field} (hf : f ∈ r.fields) (h : f.relation.isSome) :
    ∃! g, g ∈ r.groups ∧ f ∈ g.members := by
  obtain ⟨way, hway⟩ := Option.isSome_iff_exists.1 h
  have hrelation : f.relationName? = some way.name := by simp [Field.relationName?, hway]
  refine ⟨{ relation := way.name, members := r.members way.name }, ⟨?_, ?_⟩, ?_⟩
  · exact mem_groups.2 ⟨way.name, mem_relationsOf.2 ⟨f, hf, hrelation⟩, rfl⟩
  · exact List.mem_filter.2 ⟨hf, by simpa using hrelation⟩
  · rintro g ⟨hg, hmem⟩
    obtain ⟨relation, -, rfl⟩ := mem_groups.1 hg
    have hsame : f.relationName? = some relation := by simpa using (List.mem_filter.1 hmem).2
    obtain rfl : way.name = relation := Option.some.inj (hrelation.symm.trans hsame)
    rfl

theorem Built.faithful (hb : r.Built) : r.Faithful where
  filled := Index.fill_ok_iff.2 ⟨(built_iff.1 hb).2, r.index_eq⟩
  key _ _ := hb.lookup_iff
  positions g hg := by
    rw [positions_of_mem_index hg]
    exact ⟨pairwise_positions r.fields g.1, fun i => mem_positions⟩
  named := (built_iff.1 hb).2.named
  distinct := hb.keys_nodup
  resolve _ _ := hb.resolve?_iff
  path _ hf _ hway := hb.name_eq_path hf hway
  group _ hf h := existsUnique_group hf h
  members g hg := by
    obtain ⟨relation, hmem, rfl⟩ := mem_groups.1 hg
    obtain ⟨f, hf, hrelation⟩ := mem_relationsOf.1 hmem
    exact ⟨List.ne_nil_of_mem (List.mem_filter.2 ⟨hf, by simpa using hrelation⟩), rfl⟩
  first := by
    rw [groups_eq, List.pairwise_map]
    exact pairwise_eraseDups Field.relationName? r.fields

theorem Built.addFields_fields (hb : r.Built) (name : String) :
    Builder.addFields { name } r.fields = r.extend name :=
  Builder.addFields_of_nodup hb.names_nodup

/-- A builder that starts with the fields of a registry is one that has been given them. -/
theorem Built.extend_addFields (hb : r.Built) (name : String) (fs : List Field) :
    (r.extend name).addFields fs = Builder.addFields { name } (r.fields ++ fs) := by
  rw [Builder.addFields_append, hb.addFields_fields]

end Registry

/-- Building the declared fields fails with the first offence in them, and otherwise gives a
registry of these fields whose look-ups are faithful. -/
theorem Builder.build_addFields (name : String) (fs : List Field) :
    (∀ e, (Builder.addFields { name } fs).build = .error e
        ↔ Offence ((declared fs).map Field.renamed) e)
      ∧ ((∃ e, Offence ((declared fs).map Field.renamed) e)
        ∨ ∃ r, (Builder.addFields { name } fs).build = .ok r ∧ r.name = name
          ∧ r.fields = (declared fs).map Field.renamed ∧ r.Faithful) := by
  rw [addFields_eq]
  refine ⟨fun e => build_error_iff.trans Offence.iff_fill.symm, ?_⟩
  rcases hbuild : build { name, fields := declared fs } with e | r
  · exact .inl ⟨e, Offence.iff_fill.2 (build_error_iff.1 hbuild)⟩
  · obtain ⟨-, hr⟩ := build_ok_iff.1 hbuild
    exact .inr ⟨r, rfl, by rw [hr], by rw [hr], Registry.Built.faithful ⟨_, hbuild⟩⟩

/-- An alias takes the dotted path of a field that is declared after it under another name. -/
example : (Builder.addFields { name := "shop" } [
      { name := "length", type := .integer, aliases := ["bars.size"] },
      { name := "size", type := .integer,
        relation := some { name := "bars", remoteField := "size" } }
    ]).build = .error (.duplicateName "bars.size") := by decide

end FieldQuery
