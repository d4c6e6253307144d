import FieldQuery.Schema.Error
import FieldQuery.Schema.Field
import FieldQuery.Text.Blank

/-!
# The index of a schema

Fields are indexed one after another, and told by their positions from then on. A field has to have
a name, claims its keys, and joins the other members of its relation. The first key that is already
taken is an error. What the loop has filled after some fields is the index of those fields and of no
others (`Index.fill_ok_iff`).
-/

namespace FieldQuery

structure Index where
  /-- The position of the field that goes by a key. -/
  keys : List (String × Nat) := []
  /-- The positions of the members of each relation, in the order in which relations first occur. -/
  groups : List (String × List Nat) := []
deriving DecidableEq, Repr

/-- The groups with position `i` among the members of the relation. -/
def joinGroup (relation : String) (i : Nat) : List (String × List Nat) → List (String × List Nat)
  | [] => [(relation, [i])]
  | g :: gs =>
    if g.1 = relation then (g.1, g.2 ++ [i]) :: gs else g :: joinGroup relation i gs

/-- The keys that are taken once the field at position `i` has claimed its own. -/
def claimKeys (i : Nat) (taken : List (String × Nat)) :
    List String → Except SchemaError (List (String × Nat))
  | [] => .ok taken
  | key :: keys =>
    match taken.lookup key with
    | some _ => .error (.duplicateName key)
    | none => claimKeys i (taken ++ [(key, i)]) keys

namespace Index

/-- The index with the field at position `i` in it. -/
def enter (x : Index) (i : Nat) (f : Field) : Except SchemaError Index := do
  if isBlankText f.name then .error .emptyName
  let groups := match f.relationName? with
    | some relation => joinGroup relation i x.groups
    | none => x.groups
  let keys ← claimKeys i x.keys f.keys
  return { keys, groups }

def fill (fs : List Field) : Except SchemaError Index :=
  fs.zipIdx.foldlM (fun x p => x.enter p.2 p.1) {}

end Index

/-! ## What the index of fields is -/

/-- The relations of the fields, each where it first occurs. -/
def relationsOf (fs : List Field) : List String :=
  (fs.filterMap Field.relationName?).eraseDups

def positions (fs : List Field) (relation : String) : List Nat :=
  (fs.zipIdx.filter fun p => p.1.relationName? = some relation).map (·.2)

/-- Every key of every field, and every relation, with the positions that they lead to. -/
def Index.of (fs : List Field) : Index where
  keys := fs.zipIdx.flatMap fun p => p.1.keys.map (·, p.2)
  groups := (relationsOf fs).map fun relation => (relation, positions fs relation)

/-- A scan gets past the fields: no name is blank, and no key is there twice. -/
structure Clean (fs : List Field) : Prop where
  named : ∀ f ∈ fs, isBlankText f.name = false
  distinct : (fs.flatMap Field.keys).Nodup

theorem clean_concat {fs : List Field} {f : Field} : Clean (fs ++ [f]) ↔ Clean fs
    ∧ isBlankText f.name = false ∧ f.keys.Nodup ∧ ∀ k ∈ f.keys, k ∉ fs.flatMap Field.keys := by
  have hdistinct : ((fs ++ [f]).flatMap Field.keys).Nodup ↔ (fs.flatMap Field.keys).Nodup
      ∧ f.keys.Nodup ∧ ∀ k ∈ f.keys, k ∉ fs.flatMap Field.keys := by
    rw [List.flatMap_append, List.flatMap_singleton, List.nodup_append]
    refine and_congr_right fun _ => and_congr_right fun _ => ⟨fun h k hk hk' => ?_, fun h => ?_⟩
    · exact h k hk' k hk rfl
    · rintro k hk _ hk' rfl
      exact h k hk' hk
  constructor
  · rintro ⟨hnamed, h⟩
    obtain ⟨hfs, hf⟩ := List.forall_mem_append.1 hnamed
    obtain ⟨hold, hnew, hfree⟩ := hdistinct.1 h
    exact ⟨⟨hfs, hold⟩, hf f List.mem_cons_self, hnew, hfree⟩
  · rintro ⟨⟨hfs, hold⟩, hf, hnew, hfree⟩
    exact ⟨List.forall_mem_append.2 ⟨hfs, by simpa using hf⟩, hdistinct.2 ⟨hold, hnew, hfree⟩⟩

theorem Clean.of_append {fs gs : List Field} (h : Clean (fs ++ gs)) : Clean fs where
  named f hf := h.named f (List.mem_append_left gs hf)
  distinct := by
    have hdistinct := h.distinct
    rw [List.flatMap_append] at hdistinct
    exact (List.nodup_append.1 hdistinct).1

/-! ## Keys -/

theorem lookup_eq_none_iff {taken : List (String × Nat)} {key : String} :
    taken.lookup key = none ↔ key ∉ taken.map Prod.fst := by
  rw [List.lookup_eq_none_iff]
  simp only [bne_iff_ne, List.mem_map, not_exists, not_and]
  exact forall_congr' fun p => forall_congr' fun _ => ne_comm

theorem claimKeys_ok_iff {i : Nat} : ∀ {keys : List String} {taken taken' : List (String × Nat)},
    claimKeys i taken keys = .ok taken' ↔ keys.Nodup ∧ (∀ k ∈ keys, k ∉ taken.map Prod.fst)
      ∧ taken' = taken ++ keys.map (·, i)
  | [], taken, taken' => by simp [claimKeys, eq_comm]
  | key :: keys, taken, taken' => by
    rw [claimKeys]
    rcases hkey : taken.lookup key with _ | j
    · rw [lookup_eq_none_iff] at hkey
      simp only [claimKeys_ok_iff, List.nodup_cons, List.forall_mem_cons, List.map_append,
        List.map_cons, List.map_nil, List.mem_append, List.mem_singleton, not_or, List.append_assoc,
        List.singleton_append]
      constructor
      · rintro ⟨hnodup, hfree, rfl⟩
        exact ⟨⟨fun h => (hfree key h).2 rfl, hnodup⟩, ⟨hkey, fun k hk => (hfree k hk).1⟩, rfl⟩
      · rintro ⟨⟨hfirst, hnodup⟩, ⟨-, hfree⟩, rfl⟩
        exact ⟨hnodup, fun k hk => ⟨hfree k hk, fun h => hfirst (h ▸ hk)⟩, rfl⟩
    · have htaken : key ∈ taken.map Prod.fst :=
        Decidable.not_not.1 (mt lookup_eq_none_iff.2 (by simp [hkey]))
      simp only [reduceCtorEq, false_iff]
      exact fun h => h.2.1 key List.mem_cons_self htaken

namespace Index

theorem map_fst_of_keys (fs : List Field) : (of fs).keys.map Prod.fst = fs.flatMap Field.keys := by
  have hzip : ∀ (fs : List Field) (n : Nat),
      (fs.zipIdx n).flatMap (fun p => p.1.keys) = fs.flatMap Field.keys := by
    intro fs
    induction fs with
    | nil => exact fun n => rfl
    | cons f fs ih => exact fun n => congrArg (f.keys ++ ·) (ih (n + 1))
  rw [of, List.map_flatMap, ← hzip fs 0]
  simp [Function.comp_def]

theorem of_keys_concat (fs : List Field) (f : Field) :
    (of (fs ++ [f])).keys = (of fs).keys ++ f.keys.map (·, fs.length) := by
  simp [of, List.zipIdx_append]

end Index

/-! ## Groups -/

theorem eraseDups_concat {α : Type} [DecidableEq α] (xs : List α) (x : α) :
    (xs ++ [x]).eraseDups = if x ∈ xs then xs.eraseDups else xs.eraseDups ++ [x] := by
  rw [List.eraseDups_append]
  split <;> rename_i h <;> simp [List.removeAll, h, List.eraseDups_cons]

theorem nodup_eraseDups : ∀ names : List String, names.eraseDups.Nodup
  | [] => List.nodup_nil
  | name :: names => by
    rw [List.eraseDups_cons, List.nodup_cons, List.mem_eraseDups]
    exact ⟨by simp, nodup_eraseDups _⟩
termination_by names => names.length
decreasing_by exact Nat.lt_succ_of_le (List.length_filter_le _ _)

theorem mem_relationsOf {fs : List Field} {relation : String} :
    relation ∈ relationsOf fs ↔ ∃ f ∈ fs, f.relationName? = some relation := by
  rw [relationsOf, List.mem_eraseDups, List.mem_filterMap]

theorem relationsOf_concat (fs : List Field) (f : Field) : relationsOf (fs ++ [f])
    = match f.relationName? with
      | some relation =>
        if relation ∈ relationsOf fs then relationsOf fs else relationsOf fs ++ [relation]
      | none => relationsOf fs := by
  rw [relationsOf, List.filterMap_append]
  rcases hf : f.relationName? with _ | relation
  · simp [hf, relationsOf]
  · rw [show [f].filterMap Field.relationName? = [relation] by simp [hf], eraseDups_concat]
    simp only [relationsOf, List.mem_eraseDups]

theorem positions_concat (fs : List Field) (f : Field) (relation : String) :
    positions (fs ++ [f]) relation = positions fs relation
      ++ if f.relationName? = some relation then [fs.length] else [] := by
  rw [positions, List.zipIdx_append, List.filter_append, List.map_append, positions]
  congr 1
  split <;> rename_i h <;> simp [h]

theorem positions_of_not_mem {fs : List Field} {relation : String}
    (h : relation ∉ relationsOf fs) : positions fs relation = [] := by
  rw [positions, List.map_eq_nil_iff, List.filter_eq_nil_iff]
  intro p hp hrelation
  exact h (mem_relationsOf.2 ⟨p.1, List.fst_mem_of_mem_zipIdx hp, by simpa using hrelation⟩)

/-- A member joins the group of its relation and no other. -/
theorem joinGroup_map (relation : String) (i : Nat) (g : String → List Nat) :
    ∀ {rs : List String}, rs.Nodup → joinGroup relation i (rs.map fun r => (r, g r))
      = if relation ∈ rs then rs.map fun r => (r, if r = relation then g r ++ [i] else g r)
        else rs.map (fun r => (r, g r)) ++ [(relation, [i])]
  | [], _ => rfl
  | r :: rs, hnodup => by
    obtain ⟨hr, hrs⟩ := List.nodup_cons.1 hnodup
    rw [List.map_cons, joinGroup]
    by_cases hrelation : r = relation
    · subst hrelation
      have hrest : rs.map (fun r' => (r', g r'))
          = rs.map fun r' => (r', if r' = r then g r' ++ [i] else g r') :=
        List.map_congr_left fun r' hr' => by
          have hne : r' ≠ r := fun h => hr (h ▸ hr')
          rw [if_neg hne]
      simp [hrest]
    · rw [if_neg hrelation, joinGroup_map relation i g hrs]
      simp only [List.mem_cons, Ne.symm hrelation, false_or]
      split <;> simp [hrelation]

theorem Index.of_groups_concat (fs : List Field) (f : Field) : (of (fs ++ [f])).groups
    = match f.relationName? with
      | some relation => joinGroup relation fs.length (of fs).groups
      | none => (of fs).groups := by
  simp only [of, relationsOf_concat, positions_concat]
  rcases f.relationName? with _ | relation
  · simp
  · simp only [Option.some.injEq]
    have hnodup : (relationsOf fs).Nodup := nodup_eraseDups _
    rw [joinGroup_map relation fs.length (positions fs) hnodup]
    split
    · exact List.map_congr_left fun r _ => by
        by_cases h : relation = r <;> simp [h, eq_comm]
    · rename_i hnew
      have hold : ∀ r ∈ relationsOf fs, ¬ relation = r := fun r hr h => hnew (h ▸ hr)
      rw [List.map_append, List.map_singleton, positions_of_not_mem hnew]
      congr 1
      · exact List.map_congr_left fun r hr => by simp [hold r hr]
      · simp

/-! ## The loop -/

namespace Index

/-- One field more, on top of the index of the fields before it. -/
theorem enter_ok_iff {fs : List Field} {f : Field} {x : Index} :
    (of fs).enter fs.length f = .ok x ↔ isBlankText f.name = false ∧ f.keys.Nodup
      ∧ (∀ k ∈ f.keys, k ∉ fs.flatMap Field.keys) ∧ x = of (fs ++ [f]) := by
  have hof : of (fs ++ [f]) = Index.mk ((of fs).keys ++ f.keys.map (·, fs.length))
      (of (fs ++ [f])).groups := by
    rw [← of_keys_concat]
  rw [enter, hof, of_groups_concat, ← map_fst_of_keys]
  by_cases hblank : isBlankText f.name
  · simp [hblank, bind, Except.bind]
  · simp only [Bool.not_eq_true] at hblank
    rcases hclaim : claimKeys fs.length (of fs).keys f.keys with e | keys
    · have hnone : ¬ (f.keys.Nodup ∧ ∀ k ∈ f.keys, k ∉ (of fs).keys.map Prod.fst) := by
        rintro ⟨hnodup, hfree⟩
        rw [claimKeys_ok_iff.2 ⟨hnodup, hfree, rfl⟩] at hclaim
        cases hclaim
      simp only [hblank, bind, Except.bind, Bool.false_eq_true, if_false, reduceCtorEq, false_iff]
      exact fun ⟨_, hnodup, hfree, _⟩ => hnone ⟨hnodup, hfree⟩
    · obtain ⟨hnodup, hfree, rfl⟩ := claimKeys_ok_iff.1 hclaim
      simp only [hblank, bind, Except.bind, pure, Except.pure, Bool.false_eq_true, if_false,
        Except.ok.injEq, hnodup, true_and, and_iff_right hfree, eq_comm]

/-- From the index of some fields, the loop gets past those after them exactly if they are all clean
together, and then has filled the index of all of them. -/
theorem foldlM_enter_ok_iff {x : Index} : ∀ (after before : List Field), Clean before →
    ((after.zipIdx before.length).foldlM (fun x p => x.enter p.2 p.1) (of before) = .ok x
      ↔ Clean (before ++ after) ∧ x = of (before ++ after))
  | [], before, h => by simp [pure, Except.pure, h, eq_comm]
  | f :: after, before, h => by
    have happend : before ++ f :: after = (before ++ [f]) ++ after := by simp
    rw [List.zipIdx_cons, List.foldlM_cons, happend]
    rcases henter : (of before).enter before.length f with e | y
    · have hunclean : ¬ Clean (before ++ [f]) := by
        intro hclean
        rw [enter_ok_iff.2 ⟨(clean_concat.1 hclean).2.1, (clean_concat.1 hclean).2.2.1,
          (clean_concat.1 hclean).2.2.2, rfl⟩] at henter
        cases henter
      simp only [bind, Except.bind, reduceCtorEq, false_iff]
      exact fun hclean => hunclean hclean.1.of_append
    · obtain ⟨hname, hnodup, hfree, rfl⟩ := enter_ok_iff.1 henter
      have ih := foldlM_enter_ok_iff (x := x) after (before ++ [f])
        (clean_concat.2 ⟨h, hname, hnodup, hfree⟩)
      rwa [List.length_append, List.length_singleton] at ih

/-- The loop gets past the fields exactly if they are clean, and then has filled their index. -/
theorem fill_ok_iff {fs : List Field} {x : Index} : fill fs = .ok x ↔ Clean fs ∧ x = of fs :=
  foldlM_enter_ok_iff fs [] ⟨by simp, List.nodup_nil⟩

end Index

end FieldQuery
