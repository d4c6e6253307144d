import FieldQuery.Proofs.Grouping
import FieldQuery.Proofs.Hiding
import Mathlib.Data.List.Induction

/-!
# All relations at once

Relations are collapsed one after another, each in the list that the one before it has left. What
comes out is the listing with every entry kept, replaced or taken away by what the listing itself
says (`Registry.grouped`): whether a relation is collapsed is told by the listing, and an entry for
one of its members is replaced if no entry before it is for a member too. The reason is that no two
relations share a member. Collapsing one relation more then changes the places of that relation
alone (`replaceNames_placed`), and the fold over the relations places all of them
(`foldl_collapse_eq_placed`).
-/

namespace FieldQuery

instance (g : RelationGroup) (typed : String) (scope : Scope) (cs : List Candidate) :
    Decidable (g.Collapses typed scope cs) :=
  decidable_of_iff (typed.startsWith (g.relation ++ ".") = false ∧ g.listable scope ≠ []
      ∧ ∀ name ∈ g.listable scope, ∃ c ∈ cs, c.field = some name)
    ⟨fun ⟨h, h', h''⟩ => ⟨h, h', h''⟩, fun ⟨h, h', h''⟩ => ⟨h, h', h''⟩⟩

/-- What becomes of an entry with the entries `before` it, when the relations `gs` are collapsed: an
entry for a member stands for the relation if it is the first one, and goes if it is not. -/
def place (scope : Scope) (gs : List RelationGroup) (before : List Candidate) (c : Candidate) :
    Option Candidate :=
  match gs.find? fun g => c.names (g.listable scope) with
  | none => some c
  | some g => if before.any (·.names (g.listable scope)) then none else some (.group g.relation)

/-- Every entry at its place. -/
def placed (scope : Scope) (gs : List RelationGroup) (cs : List Candidate) : List Candidate :=
  cs.zipIdx.filterMap fun (c, i) => place scope gs (cs.take i) c

section Placing

variable {scope : Scope} {g : RelationGroup} {gs : List RelationGroup}

theorem placed_concat (scope : Scope) (gs : List RelationGroup) (cs : List Candidate)
    (c : Candidate) : placed scope gs (cs ++ [c])
      = placed scope gs cs ++ (place scope gs cs c).toList := by
  have hbefore : cs.zipIdx.filterMap (fun (d, i) => place scope gs ((cs ++ [c]).take i) d)
      = placed scope gs cs := by
    refine List.filterMap_congr fun ⟨d, i⟩ hd => ?_
    have hi : i < cs.length := by simpa using List.snd_lt_of_mem_zipIdx hd
    simp only [List.take_append_of_le_length (Nat.le_of_lt hi)]
  have hlast : [c].zipIdx cs.length = [(c, cs.length)] := rfl
  rw [placed, List.zipIdx_append, List.filterMap_append, hbefore, Nat.zero_add, hlast]
  simp only [List.filterMap_cons, List.filterMap_nil, List.take_left]
  cases place scope gs cs c <;> rfl

theorem placed_nil (cs : List Candidate) : placed scope [] cs = cs := by
  induction cs using List.reverseRecOn with
  | nil => rfl
  | append_singleton cs c ih => rw [placed_concat, ih]; rfl

theorem replaceNames_concat (fields : List String) (c d : Candidate) : ∀ cs : List Candidate,
    replaceNames fields c (cs ++ [d]) = replaceNames fields c cs
      ++ if d.names fields then if cs.any (·.names fields) then [] else [c] else [d]
  | [] => by cases h : d.names fields <;> simp [replaceNames, h]
  | e :: cs => by
    rw [List.cons_append, replaceNames, replaceNames]
    by_cases he : e.names fields
    · rw [if_pos he, if_pos he, List.filter_append]
      cases hd : d.names fields <;> simp [he, hd]
    · rw [if_neg he, if_neg he, replaceNames_concat fields c d cs]
      simp [he]

theorem any_names_place (hdisjoint : ∀ g' ∈ gs, (g'.listable scope).Disjoint (g.listable scope))
    (before : List Candidate) (c : Candidate) :
    (place scope gs before c).any (·.names (g.listable scope)) = c.names (g.listable scope) := by
  unfold place
  split
  · rfl
  · rename_i g' hg'
    have hnames : c.names (g'.listable scope) := by simpa using List.find?_some hg'
    have hmem : g' ∈ gs := List.mem_of_find?_eq_some hg'
    rw [Candidate.names_of_disjoint (hdisjoint g' hmem) hnames]
    split_ifs <;> rfl

theorem of_mem_placed {cs : List Candidate} {d : Candidate} (h : d ∈ placed scope gs cs) :
    d ∈ cs ∨ ∃ g ∈ gs, d = .group g.relation := by
  obtain ⟨⟨c, i⟩, hc, hplace⟩ := List.mem_filterMap.1 h
  simp only [place] at hplace
  split at hplace
  · obtain rfl : c = d := Option.some.inj hplace
    exact .inl (List.fst_mem_of_mem_zipIdx hc)
  · rename_i g hg
    split_ifs at hplace
    exact .inr ⟨g, List.mem_of_find?_eq_some hg, (Option.some.inj hplace).symm⟩

/-- Placing other relations takes all the entries for the members of a relation over. -/
theorem any_names_placed (hdisjoint : ∀ g' ∈ gs, (g'.listable scope).Disjoint (g.listable scope))
    (cs : List Candidate) : (placed scope gs cs).any (·.names (g.listable scope))
      = cs.any (·.names (g.listable scope)) := by
  induction cs using List.reverseRecOn with
  | nil => rfl
  | append_singleton cs c ih =>
    have hplace := any_names_place hdisjoint cs c
    rw [placed_concat, List.any_append, List.any_append, ih]
    rcases hp : place scope gs cs c with _ | d <;> rw [hp] at hplace <;> simp_all

/-- Collapsing one relation more changes the places of that relation alone. -/
theorem replaceNames_placed
    (hdisjoint : ∀ g' ∈ gs, (g'.listable scope).Disjoint (g.listable scope)) (cs : List Candidate) :
    replaceNames (g.listable scope) (.group g.relation) (placed scope gs cs)
      = placed scope (gs ++ [g]) cs := by
  induction cs using List.reverseRecOn with
  | nil => rfl
  | append_singleton cs c ih =>
    have hany := any_names_placed hdisjoint cs
    rw [placed_concat, placed_concat, ← ih]
    by_cases hc : c.names (g.listable scope)
    · -- no other relation has the member that the entry names
      have hfind : gs.find? (fun g' => c.names (g'.listable scope)) = none := by
        refine List.find?_eq_none.2 fun g' hg' hnames => ?_
        rw [Candidate.names_of_disjoint (hdisjoint g' hg') hnames] at hc
        simp at hc
      have hplace : place scope gs cs c = some c := by rw [place, hfind]
      have hplace' : place scope (gs ++ [g]) cs c
          = if cs.any (·.names (g.listable scope)) then none else some (.group g.relation) := by
        rw [place, List.find?_append, hfind]
        simp [hc]
      rw [hplace, hplace', Option.toList_some, replaceNames_concat, if_pos hc, hany]
      split_ifs <;> rfl
    · have hplace : place scope (gs ++ [g]) cs c = place scope gs cs c := by
        rw [place, place, List.find?_append]
        simp [hc]
      have hnames := any_names_place hdisjoint cs c
      rw [hplace]
      rcases hp : place scope gs cs c with _ | d
      · simp
      · rw [hp] at hnames
        have hd : ¬ d.names (g.listable scope) := by simpa [hc] using hnames
        rw [Option.toList_some, replaceNames_concat, if_neg hd]

end Placing

section Folding

variable {typed : String} {scope : Scope}

theorem collapses_foldl_iff {g : RelationGroup} : ∀ {gs : List RelationGroup} {cs : List Candidate},
    (∀ g' ∈ gs, (g'.listable scope).Disjoint (g.listable scope)) →
      (g.Collapses typed scope (gs.foldl (collapse typed scope) cs)
        ↔ g.Collapses typed scope cs)
  | [], _, _ => Iff.rfl
  | g' :: gs, cs, h => by
    obtain ⟨hg', hgs⟩ := List.forall_mem_cons.1 h
    rw [List.foldl_cons, collapses_foldl_iff hgs, collapses_collapse_iff hg']

/-- Relations without a member in common that are collapsed one after another are collapsed all at
once. -/
theorem foldl_collapse_eq_placed {gs : List RelationGroup} (cs : List Candidate)
    (h : gs.Pairwise fun g g' => (g.listable scope).Disjoint (g'.listable scope)) :
    gs.foldl (collapse typed scope) cs
      = placed scope (gs.filter fun g => g.Collapses typed scope cs) cs := by
  induction gs using List.reverseRecOn with
  | nil => exact (placed_nil cs).symm
  | append_singleton gs g ih =>
    obtain ⟨hgs, -, hdisjoint⟩ := List.pairwise_append.1 h
    have hg : ∀ g' ∈ gs, (g'.listable scope).Disjoint (g.listable scope) :=
      fun g' hg' => hdisjoint g' hg' g List.mem_cons_self
    rw [List.foldl_append, List.foldl_cons, List.foldl_nil, List.filter_append]
    have hiff : g.Collapses typed scope (gs.foldl (collapse typed scope) cs)
        ↔ g.Collapses typed scope cs := collapses_foldl_iff hg
    by_cases hcollapses : g.Collapses typed scope cs
    · rw [collapse_of_collapses (hiff.2 hcollapses), ih hgs, replaceNames_placed]
      · simp [hcollapses]
      · exact fun g' hg' => hg g' (List.mem_filter.1 hg').1
    · rw [collapse_of_not_collapses (hiff.not.2 hcollapses), ih hgs]
      simp [hcollapses]

end Folding

namespace Registry

/-- Every advertised name with its field, in the order of declaration. -/
def advertised (r : Registry) : List (Field × String) :=
  r.fields.flatMap fun f => f.advertisedNames.map (f, ·)

/-- The names that go on with what has been typed, and the prefix operators that do. -/
def base (r : Registry) (typed : String) (scope : Scope) : List Candidate :=
  (r.advertised.filter fun (f, name) => f.completionEnabled && name.startsWith typed
      && (!f.explicitOnly || scope = .afterPrefix || name = typed)).map
    (fun (f, name) => .name name f.name)
  ++ if scope = .clause then
      ((PrefixOperator.all.map (·.keyword)).filter (·.startsWith typed)).map fun w => { text := w }
    else []

/-- The listing in which every relation that collapses stands for its members. -/
def grouped (r : Registry) (typed : String) (scope : Scope) (cs : List Candidate) :
    List Candidate :=
  placed scope (r.groups.filter fun g => g.Collapses typed scope cs) cs

variable {r : Registry}

theorem listing_eq_base (r : Registry) (typed : String) (scope : Scope) :
    r.listing typed scope = r.base typed scope := by
  rw [listing, base, advertised]
  congr 1
  rw [List.filter_flatMap, List.map_flatMap]
  congr 1
  funext f
  rw [List.filter_map, List.map_map, Field.candidates]
  split_ifs with h
  · congr 1
    refine List.filter_congr fun name _ => ?_
    simp [Field.offers, h]
  · simp [h]

theorem Built.pairwise_disjoint (hb : r.Built) (scope : Scope) :
    r.groups.Pairwise fun g g' => (g.listable scope).Disjoint (g'.listable scope) := by
  rw [groups_eq, List.pairwise_map]
  exact (nodup_eraseDups _).imp fun h => hb.disjoint_listable h scope

theorem Built.foldl_collapse (hb : r.Built) (typed : String) (scope : Scope)
    (cs : List Candidate) :
    r.groups.foldl (collapse typed scope) cs = r.grouped typed scope cs :=
  foldl_collapse_eq_placed cs (hb.pairwise_disjoint scope)

/-- What is offered for a field: the listing as it is if it is short, and otherwise the listing with
all relations that collapse in the place of their members. -/
theorem enumerate_field (hb : r.Built) {m : Type → Type} [Monad m] (threshold : Nat)
    (lookup : Lookup m) (typed : String) (scope : Scope) :
    r.enumerate threshold lookup (.field typed scope)
      = return .ok (if (r.base typed scope).length ≤ threshold then r.base typed scope
          else r.grouped typed scope (r.base typed scope)) := by
  simp only [enumerate, valueField?, candidates, fieldCandidates, listing_eq_base,
    hb.foldl_collapse]

def studio : Registry where
  name := "studio"
  fields := [{ Field.related "bars" "size" .integer with aliases := ["xl", "xs"] },
    { Field.related "bars" "code" .string with aliases := ["x"], explicitOnly := true },
    { Field.related "bars" "width" .integer with aliases := ["xx"] },
    { Field.related "cars" "plate" .string with aliases := ["x-plate"] },
    Field.related "cars" "wheel" .string]

/-- One relation collapses around an explicit member that has been typed in full, and one of which
not all members are listed stays. -/
theorem enumerate_field_studio :
    studio.Built
      ∧ studio.base "x" .clause = [.name "xl" "bars.size", .name "xs" "bars.size",
          .name "x" "bars.code", .name "xx" "bars.width", .name "x-plate" "cars.plate"]
      ∧ studio.enumerate 4 (Lookup.none : Lookup (StateM Unit)) (.field "x" .clause)
        = return .ok [.group "bars", .name "x" "bars.code", .name "x-plate" "cars.plate"] := by
  have hb : studio.Built := ⟨{ name := "studio", fields := studio.fields }, by decide⟩
  have hbase : studio.base "x" .clause = [.name "xl" "bars.size", .name "xs" "bars.size",
      .name "x" "bars.code", .name "xx" "bars.width", .name "x-plate" "cars.plate"] := by
    decide +kernel
  have hgrouped : studio.grouped "x" .clause (studio.base "x" .clause)
      = [.group "bars", .name "x" "bars.code", .name "x-plate" "cars.plate"] := by decide +kernel
  refine ⟨hb, hbase, ?_⟩
  rw [enumerate_field hb, hgrouped, hbase]
  rfl

end Registry

end FieldQuery
