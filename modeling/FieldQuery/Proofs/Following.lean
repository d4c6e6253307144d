import FieldQuery.Proofs.Flattening
import Mathlib.Data.List.Perm.Subperm

/-!
# The way from a document to its last base

Loading goes from every document to the one that it extends. As long as no location comes twice, the
way is no longer than there are files (`LeadsTo.length_le`), and loading goes it to its end
(`exists_ends`): to a document that extends nothing, to one that cannot be read, or back to a
location that is on it already. Only the last is reported as a cycle. A way that comes back later on
first comes back somewhere (`LeadsTo.exists_return`), so no cycle is missed, whatever paths lead
around it.
-/

namespace FieldQuery.Files

/-- Following what documents extend leads from the path `start` to a path, through documents that
can be read. Their locations are listed from the last one back to the first. -/
inductive LeadsTo (fs : Files) (start : String) : List Location → String → Prop
  | start : LeadsTo fs start [] start
  | next {path base : String} {l : Location} {ls : List Location} {d : SchemaDocument}
    (h : LeadsTo fs start ls path) (hl : fs.locate path = .ok l)
    (hd : fs.schemaDocument path l = .ok d) (hbase : d.base = some base) :
    LeadsTo fs start (l :: ls) (Path.join (Path.parent path) base)

/-- The way through the locations `ls` is at its end with this path, and with this error if it does
not end at a document that extends nothing. -/
inductive Ends (fs : Files) (ls : List Location) (path : String) : Option SchemaError → Prop
  | base {l : Location} {d : SchemaDocument} (hl : fs.locate path = .ok l) (hnew : l ∉ ls)
    (hd : fs.schemaDocument path l = .ok d) (hbase : d.base = none) : Ends fs ls path none
  | missing {e : FileError} (hl : fs.locate path = .error e) :
    Ends fs ls path (some (.unreadable path e))
  | broken {l : Location} {e : SchemaError} (hl : fs.locate path = .ok l) (hnew : l ∉ ls)
    (hd : fs.schemaDocument path l = .error e) : Ends fs ls path (some e)
  | cycle {l : Location} (hl : fs.locate path = .ok l) (hmem : l ∈ ls) :
    Ends fs ls path (some (.inheritanceCycle path))

variable {fs : Files} {start path : String} {ls : List Location}

namespace LeadsTo

theorem trans {other : String} {ms : List Location} (h : fs.LeadsTo start ls path)
    (h' : fs.LeadsTo path ms other) : fs.LeadsTo start (ms ++ ls) other := by
  induction h' with
  | start => exact h
  | next _ hl hd hbase ih => exact ih.next hl hd hbase

/-- A location on the way is that of some path on it, from which the way goes on. -/
theorem exists_passed (h : fs.LeadsTo start ls path) {l : Location} (hl : l ∈ ls) :
    ∃ ks ms passed, fs.LeadsTo start ks passed ∧ fs.LeadsTo passed ms path ∧ ms ≠ []
      ∧ fs.locate passed = .ok l := by
  induction h with
  | start => simp at hl
  | @next path base m ls d h hm hd hbase ih =>
    rcases List.mem_cons.1 hl with rfl | hl
    · exact ⟨ls, [l], path, h, LeadsTo.start.next hm hd hbase, List.cons_ne_nil _ _, hm⟩
    · obtain ⟨ks, ms, passed, hks, hms, -, hpassed⟩ := ih hl
      exact ⟨ks, m :: ms, passed, hks, hms.next hm hd hbase, List.cons_ne_nil _ _, hpassed⟩

/-- Where the way goes on from a path, the location of the path is on it. -/
theorem mem_of_ne_nil (h : fs.LeadsTo start ls path) (hne : ls ≠ []) {l : Location}
    (hl : fs.locate start = .ok l) : l ∈ ls := by
  induction h with
  | start => exact absurd rfl hne
  | @next path base m ls d h hm hd hbase ih =>
    by_cases hls : ls = []
    · subst hls
      cases h
      obtain rfl : l = m := Except.ok.inj (hl.symm.trans hm)
      exact List.mem_cons_self
    · exact List.mem_cons_of_mem m (ih hls)

theorem exists_entry (h : fs.LeadsTo start ls path) :
    ∀ l ∈ ls, ∃ e ∈ fs.entries, e.1 = l := by
  induction h with
  | start => simp
  | next h hl hd hbase ih => exact List.forall_mem_cons.2 ⟨file_of_schemaDocument hd, ih⟩

/-- Without a location that comes twice, a way is no longer than there are files. -/
theorem length_le (h : fs.LeadsTo start ls path) (hn : ls.Nodup) :
    ls.length ≤ fs.entries.length := by
  have hsub : ls ⊆ fs.entries.map Prod.fst := by
    intro l hl
    obtain ⟨e, he, rfl⟩ := h.exists_entry l hl
    exact List.mem_map_of_mem he
  simpa using (hn.subperm hsub).length_le

/-- A way on which a location comes twice comes back to a location for a first time. -/
theorem exists_return (h : fs.LeadsTo start ls path) (hn : ¬ ls.Nodup) :
    ∃ ks back l, fs.LeadsTo start ks back ∧ ks.Nodup ∧ fs.locate back = .ok l ∧ l ∈ ks := by
  induction h with
  | start => exact absurd List.nodup_nil hn
  | @next path base l ls d h hl hd hbase ih =>
    by_cases hls : ls.Nodup
    · have hmem : l ∈ ls := by
        by_contra hnew
        exact hn (List.nodup_cons.2 ⟨hnew, hls⟩)
      exact ⟨ls, path, l, h, hls, hl, hmem⟩
    · exact ih hls

/-- Loading goes the way: from its start it fails as it does from its end. -/
theorem chain_error_iff (h : fs.LeadsTo start ls path) (hn : ls.Nodup) {e : SchemaError} :
    fs.chain [] start = .error e ↔ fs.chain ls path = .error e := by
  induction h with
  | start => exact Iff.rfl
  | @next path base l ls d h hl hd hbase ih =>
    obtain ⟨hnew, hls⟩ := List.nodup_cons.1 hn
    rw [ih hls, chain_of_new hl hnew hd, hbase]
    rcases hrest : fs.chain (l :: ls) (Path.join (Path.parent path) base) with e' | sources <;>
      simp [hrest, Except.map]

end LeadsTo

theorem Ends.chain_error_iff {failure : Option SchemaError} (h : fs.Ends ls path failure)
    {e : SchemaError} : fs.chain ls path = .error e ↔ failure = some e := by
  cases h with
  | base hl hnew hd hbase => simp [chain_of_new hl hnew hd, hbase]
  | missing hl => simp [chain, hl]
  | cycle hl hmem => simp [chain, hl, hmem]
  | broken hl hnew hd =>
    rw [chain, hl]
    simp only [hnew, ↓reduceDIte]
    split
    · rename_i e' he'
      obtain rfl := Except.error.inj (hd.symm.trans he')
      simp
    · rename_i d hd'
      simp [hd] at hd'

/-- Every way goes on to an end without coming through a location twice. -/
theorem LeadsTo.exists_ends (h : fs.LeadsTo start ls path) (hn : ls.Nodup) :
    ∃ ms last failure, fs.LeadsTo start ms last ∧ ms.Nodup ∧ fs.Ends ms last failure := by
  -- Loading itself goes the way, so the cases are those of its recursion.
  fun_induction chain fs ls path with
  | case1 ls path e hl => exact ⟨ls, path, _, h, hn, .missing hl⟩
  | case2 ls path l hl hmem => exact ⟨ls, path, _, h, hn, .cycle hl hmem⟩
  | case3 ls path l hl hnew e hd => exact ⟨ls, path, _, h, hn, .broken hl hnew hd⟩
  | case4 ls path l hl hnew d hd hbase => exact ⟨ls, path, _, h, hn, .base hl hnew hd hbase⟩
  | case5 ls path l hl hnew d hd base hbase ih =>
    exact ih (h.next hl hd hbase) (List.nodup_cons.2 ⟨hnew, hn⟩)

/-! ## What is reported as a cycle -/

theorem schemaDocument_ne_cycle (fs : Files) (path other : String) (l : Location) :
    fs.schemaDocument path l ≠ .error (.inheritanceCycle other) := by
  rw [schemaDocument]
  rcases fs.textAt l with e | text
  · simp [Except.mapError, bind, Except.bind]
  · rcases hread : SchemaDocument.read text with e | d <;>
      simp [Except.mapError, bind, Except.bind, hread]

theorem chain_cycle_iff {back : String} : fs.chain [] start = .error (.inheritanceCycle back) ↔
    ∃ ls l, fs.LeadsTo start ls back ∧ ls.Nodup ∧ fs.locate back = .ok l ∧ l ∈ ls := by
  constructor
  · intro h
    obtain ⟨ls, last, failure, hlast, hn, hends⟩ := LeadsTo.start.exists_ends List.nodup_nil
    rw [hlast.chain_error_iff hn, hends.chain_error_iff] at h
    subst h
    cases hends with
    | broken hl hnew hd => exact absurd hd (schemaDocument_ne_cycle fs last back _)
    | cycle hl hmem => exact ⟨ls, _, hlast, hn, hl, hmem⟩
  · rintro ⟨ls, l, hback, hn, hl, hmem⟩
    rw [hback.chain_error_iff hn, (Ends.cycle hl hmem).chain_error_iff]

end Files

theorem FieldEntry.field_ne_cycle (e : FieldEntry) (path : String) :
    e.field ≠ .error (.inheritanceCycle path) := by
  rw [field]
  rcases FieldType.ofName? e.typeName with _ | type
  · simp
  · rcases e.defaultOperator with _ | symbol
    · simp [bind, Except.bind, pure, Except.pure]
    · rcases hc : Comparator.ofSymbol? symbol with _ | c <;>
        simp [hc, bind, Except.bind, pure, Except.pure]

/-- A list that is not converted has an element that is not. -/
theorem exists_of_mapM_error {α β ε : Type} {g : α → Except ε β} {e : ε} : ∀ {xs : List α},
    xs.mapM g = .error e → ∃ x ∈ xs, g x = .error e
  | [], h => by simp [pure, Except.pure] at h
  | x :: xs, h => by
    rw [List.mapM_cons] at h
    rcases hx : g x with e' | y
    · obtain rfl : e' = e := by simpa [hx, bind, Except.bind] using h
      exact ⟨x, List.mem_cons_self, hx⟩
    · rcases hxs : xs.mapM g with e' | ys
      · obtain rfl : e' = e := by simpa [hx, hxs, bind, Except.bind] using h
        obtain ⟨z, hz, herror⟩ := exists_of_mapM_error hxs
        exact ⟨z, List.mem_cons_of_mem x hz, herror⟩
      · simp [hx, hxs, bind, Except.bind, pure, Except.pure] at h

theorem Builder.build_ne_cycle (b : Builder) (path : String) :
    b.build ≠ .error (.inheritanceCycle path) := by
  rw [Ne, build_error_iff, ← Offence.iff_fill]
  generalize b.fields.map Field.renamed = fields
  rintro ⟨⟩

namespace Files

variable {fs : Files} {start : String}

/-- Nothing but a chain of documents is reported as a cycle. -/
theorem loadSchema_cycle_iff_chain {back : String} :
    fs.loadSchema start = .error (.inheritanceCycle back)
      ↔ fs.chain [] start = .error (.inheritanceCycle back) := by
  rcases hchain : fs.chain [] start with e | sources
  · rw [loadSchema, hchain]
    simp [bind, Except.bind]
  · refine iff_of_false (fun h => ?_) (by simp)
    rw [loadSchema_of_chain hchain] at h
    rcases hfields : (entriesOf sources).mapM FieldEntry.field with e | fields
    · obtain rfl : e = .inheritanceCycle back := by
        rw [hfields] at h
        exact Except.error.inj h
      obtain ⟨entry, -, hentry⟩ := exists_of_mapM_error hfields
      exact FieldEntry.field_ne_cycle entry back hentry
    · rw [hfields] at h
      rcases hbuild : (Builder.addFields
          { name := (sources.getLast?.map SchemaSource.name).getD "" } fields).build with e | r
      · obtain rfl : e = .inheritanceCycle back := by
          simpa [hbuild, bind, Except.bind] using h
        exact Builder.build_ne_cycle _ back hbuild
      · simp [hbuild, bind, Except.bind, pure, Except.pure] at h

/-- Loading a schema comes to an end, and reports a cycle exactly if there is one. Whatever the
files, the way from a document to its last base ends after no more documents than there are files,
and fails as its end does. A cycle is reported with the path by which the way first comes back to a
location that is on it. This happens exactly if following what documents extend leads to some path
and from there to another one with the same location. -/
theorem loadSchema_cycle (fs : Files) (start : String) :
    (∃ ls last failure, fs.LeadsTo start ls last ∧ ls.Nodup ∧ ls.length ≤ fs.entries.length
        ∧ fs.Ends ls last failure ∧ ∀ e, fs.chain [] start = .error e ↔ failure = some e)
      ∧ (∀ back, fs.loadSchema start = .error (.inheritanceCycle back) ↔
        ∃ ls l, fs.LeadsTo start ls back ∧ ls.Nodup ∧ fs.locate back = .ok l ∧ l ∈ ls)
      ∧ ((∃ back, fs.loadSchema start = .error (.inheritanceCycle back)) ↔
        ∃ ls ms passed back l, fs.LeadsTo start ls passed ∧ fs.LeadsTo passed ms back ∧ ms ≠ []
          ∧ fs.locate passed = .ok l ∧ fs.locate back = .ok l) := by
  have hcycle : ∀ back, fs.loadSchema start = .error (.inheritanceCycle back) ↔
      ∃ ls l, fs.LeadsTo start ls back ∧ ls.Nodup ∧ fs.locate back = .ok l ∧ l ∈ ls :=
    fun back => loadSchema_cycle_iff_chain.trans chain_cycle_iff
  refine ⟨?_, hcycle, ?_⟩
  · obtain ⟨ls, last, failure, hlast, hn, hends⟩ := LeadsTo.start.exists_ends List.nodup_nil
    refine ⟨ls, last, failure, hlast, hn, hlast.length_le hn, hends, fun e => ?_⟩
    rw [hlast.chain_error_iff hn, hends.chain_error_iff]
  · constructor
    · rintro ⟨back, h⟩
      obtain ⟨ls, l, hback, -, hl, hmem⟩ := (hcycle back).1 h
      obtain ⟨ks, ms, passed, hks, hms, hne, hpassed⟩ := hback.exists_passed hmem
      exact ⟨ks, ms, passed, back, l, hks, hms, hne, hpassed, hl⟩
    · rintro ⟨ls, ms, passed, back, l, hls, hms, hne, hpassed, hback⟩
      have hway : fs.LeadsTo start (ms ++ ls) back := hls.trans hms
      by_cases hn : (ms ++ ls).Nodup
      · have hmem : l ∈ ms ++ ls := List.mem_append_left ls (hms.mem_of_ne_nil hne hpassed)
        exact ⟨back, (hcycle back).2 ⟨_, l, hway, hn, hback, hmem⟩⟩
      · obtain ⟨ks, first, m, hks, hn, hm, hmem⟩ := hway.exists_return hn
        exact ⟨first, (hcycle first).2 ⟨ks, m, hks, hn, hm, hmem⟩⟩

end Files

end FieldQuery
