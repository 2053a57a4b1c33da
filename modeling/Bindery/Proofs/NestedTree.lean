import Bindery.Proofs.Generation
import Mathlib.Data.List.Induction

/-!
# Trees whose entries are in folders

In such a tree whatever is there can be reached without two dots. So a path without them that leads
to a folder once folders have been made either led there before, or its folder is new.
-/

namespace Bindery

namespace FileTree

variable {t u : FileTree}

/-- Every entry stands in a folder, and relative paths start in one. -/
structure Nested (t : FileTree) : Prop where
  parent : ∀ place, (t.entry? place).isSome → t.isFolderAt place.dropLast
  work : t.isFolderAt t.work

/-- It is enough to look at the entries. -/
theorem nested_of_entries (hentries : ∀ x ∈ t.entries, t.isFolderAt x.1.dropLast)
    (hwork : t.isFolderAt t.work) : t.Nested := by
  refine ⟨fun place hplace => ?_, hwork⟩
  by_cases hroot : place = []
  · rw [hroot]
    rfl
  · obtain ⟨e, he⟩ := Option.isSome_iff_exists.mp hplace
    rw [ entry?, if_neg (by simpa using hroot), List.lookup_eq_some_iff] at he
    obtain ⟨before, rest, heq, -⟩ := he
    exact hentries (place, e) (by rw [heq]; simp)

/-- All that is above a folder are folders. -/
theorem Nested.isFolderAt_above (h : t.Nested) {q p : Place} (hdown : q <+: p)
    (hp : t.isFolderAt p) : t.isFolderAt q := by
  obtain ⟨r, rfl⟩ := hdown
  induction r using List.reverseRecOn with
  | nil => rwa [List.append_nil] at hp
  | append_singleton r name ih =>
    apply ih
    have hparent := h.parent (q ++ (r ++ [name])) (by rw [isFolderAt_iff.mp hp]; rfl)
    rwa [← List.append_assoc, List.dropLast_concat] at hparent

theorem Nested.exists_folder_of_locate (h : t.Nested) {p : Path} {place : Place} {e : Option Entry}
    (hlocate : t.locate p = .ok (place, e)) (he : e ≠ some .folder) :
    ∃ q name, place = q ++ [name] ∧ t.isFolderAt q := by
  obtain ⟨q, name, -, hplace, hq⟩ :=
    exists_folder_of_follow (isFolderAt_start h.work _) (follow_of_locate hlocate) he
  exact ⟨q, name, hplace, hq⟩

theorem Nested.put (h : t.Nested) {q : Place} {name : String} (hq : t.isFolderAt q)
    (hfree : t.entry? (q ++ [name]) ≠ some .folder) (e : Entry) :
    Nested (t.put (q ++ [name]) e) := by
  have hk : t.Keeps (t.put (q ++ [name]) e) := keeps_put hfree
  refine ⟨fun place hplace => ?_, hk.folder _ h.work⟩
  by_cases hsame : place = q ++ [name]
  · rw [hsame, List.dropLast_concat]
    exact hk.folder q hq
  · rw [entry?_put_of_ne hsame] at hplace
    exact hk.folder _ (h.parent place hplace)

theorem nested_of_makeFolder {p : Path} (hmake : t.makeFolder p = .ok u) (h : t.Nested) :
    u.Nested := by
  obtain ⟨place, hlocate, rfl⟩ := makeFolder_eq_ok.mp hmake
  obtain ⟨q, name, rfl, hq⟩ := h.exists_folder_of_locate hlocate (by simp)
  have hnone := (locate_eq_ok hlocate).resolve_left (by simp)
  exact h.put hq (by simp [← hnone]) _

theorem nested_of_writeFile {p : Path} {c : Bytes} (hwrite : t.writeFile p c = .ok u)
    (h : t.Nested) : u.Nested := by
  obtain ⟨place, e, hlocate, he, rfl⟩ := writeFile_eq_ok.mp hwrite
  obtain ⟨q, name, rfl, hq⟩ := h.exists_folder_of_locate hlocate he
  rw [(locate_eq_ok hlocate).resolve_left he] at he
  exact h.put hq he _

theorem Extends.entry?_of_file (h : t.Extends u) {place : Place} {c : Bytes}
    (hfile : t.entry? place = some (.file c)) : u.entry? place = some (.file c) := by
  rcases h.entry place with hsame | ⟨hnone, -⟩
  · rw [hsame, hfile]
  · rw [hnone] at hfile
    cases hfile

theorem prefix_of_enter {s q : Place} {name : String} {e : Option Entry} (hname : name ≠ "..")
    (h : t.enter s name = .ok (q, e)) : s <+: q := by
  have hs := (enter_eq_ok h).1
  by_cases hproper : IsProper name
  · rw [enter_of_proper hs hproper] at h
    cases h
    exact List.prefix_append _ _
  · rw [enter_of_not_proper hs hproper, if_neg hname] at h
    split at h
    · cases h
      exact List.prefix_rfl
    · cases h

/-- A name leads to a folder that has been there before just as it did. -/
theorem enter_of_extends {s q : Place} {name : String} (hs : t.isFolderAt s) (hq : t.isFolderAt q)
    (h : u.enter s name = .ok (q, some .folder)) : t.enter s name = .ok (q, some .folder) := by
  have hsu := (enter_eq_ok h).1
  by_cases hproper : IsProper name
  · rw [enter_of_proper hsu hproper] at h
    obtain ⟨rfl, -⟩ := Prod.mk.inj (Except.ok.inj h)
    rw [enter_of_proper hs hproper, isFolderAt_iff.mp hq]
  · rw [enter_of_not_proper hsu hproper] at h
    rw [enter_of_not_proper hs hproper, h]

/-- Names without two dots lead down, so that they pass only what is above their end. -/
theorem follow_of_extends (ht : t.Nested) {s base : Place} {names : List String}
    (hnames : ".." ∉ names) (hbase : t.isFolderAt base)
    (h : u.follow s names = .ok (base, some .folder)) :
    s <+: base ∧ t.follow s names = .ok (base, some .folder) := by
  induction names generalizing s with
  | nil =>
    obtain ⟨rfl, -⟩ := Prod.mk.inj (Except.ok.inj h)
    exact ⟨List.prefix_rfl, by rw [follow, isFolderAt_iff.mp hbase]⟩
  | cons name rest ih =>
    obtain ⟨hname, hrest⟩ := List.ne_and_not_mem_of_not_mem_cons hnames
    by_cases hlast : rest = []
    · subst hlast
      have hdown := prefix_of_enter hname.symm h
      exact ⟨hdown, enter_of_extends (ht.isFolderAt_above hdown hbase) hbase h⟩
    · obtain ⟨q, henter, hfollow⟩ := (follow_cons_eq_ok hlast).mp h
      obtain ⟨hbelow, hsame⟩ := ih hrest hfollow
      have hdown := prefix_of_enter hname.symm henter
      have hs := ht.isFolderAt_above (hdown.trans hbelow) hbase
      have hq := ht.isFolderAt_above hbelow hbase
      exact ⟨hdown.trans hbelow,
        (follow_cons_eq_ok hlast).mpr ⟨q, enter_of_extends hs hq henter, hsame⟩⟩

/-- A path without two dots that leads to a folder which was there before led to it then. -/
theorem locate_of_extends (ht : t.Nested) (hextends : t.Extends u) {p : Path} {base : Place}
    (hp : ".." ∉ p.names) (hbase : t.isFolderAt base)
    (h : u.locate p = .ok (base, some .folder)) : t.locate p = .ok (base, some .folder) := by
  have hfits := fits_of_locate (t := u) (p := p) (by simp [h])
  have hstart : u.start p.isAbsolute = t.start p.isAbsolute := by
    rw [start, start, hextends.work]
  rw [locate_of_fits hfits, hstart] at h
  rw [locate_of_fits hfits]
  exact (follow_of_extends ht hp hbase h).2

end FileTree

theorem Binding.Generation.lasting_nested :
    Lasting fun t u => t.Nested → u.Nested where
  refl _ h := h
  trans h h' := fun ht => h' (h ht)
  made := FileTree.nested_of_makeFolder
  written := FileTree.nested_of_writeFile

end Bindery
