import Bindery.Files.Tree

/-!
# Changes of a file tree

Folders are never lost: what makes folders and writes files keeps every folder at its place, so a
path that leads to a folder leads there ever after.
-/

namespace Bindery

theorem Path.render_child_size (p : Path) (name : String) :
    p.render.utf8ByteSize ≤ max 1 (p.child name).render.utf8ByteSize := by
  obtain ⟨root, names⟩ := p
  have hchild : (child ⟨root, names⟩ name).render =
      root ++ String.intercalate "/" (names ++ [name]) := by
    simp [render, child]
  rw [hchild, String.utf8ByteSize_append]
  by_cases hnames : names = []
  · subst hnames
    by_cases hroot : root = ""
    · subst hroot
      exact Nat.le_max_left 1 _
    · have hparent : (render ⟨root, []⟩) = root := by simp [render, hroot]
      rw [hparent]
      omega
  · have hparent : (render ⟨root, names⟩) = root ++ String.intercalate "/" names := by
      simp [render, hnames]
    rw [hparent, String.intercalate_append_of_ne_nil hnames (List.cons_ne_nil name []),
      String.utf8ByteSize_append, String.utf8ByteSize_append, String.utf8ByteSize_append]
    omega

namespace FileTree

variable {t u v : FileTree}

/-- Trees with the same entries, in which relative paths start in the same folder. -/
def Same (t u : FileTree) : Prop := u.work = t.work ∧ ∀ place, u.entry? place = t.entry? place

theorem Same.refl (t : FileTree) : t.Same t := ⟨rfl, fun _ => rfl⟩

theorem isFolderAt_iff {place : Place} : t.isFolderAt place ↔ t.entry? place = some .folder := by
  unfold isFolderAt
  split <;> simp_all

theorem entry?_put_self {place : Place} (h : place ≠ []) (t : FileTree) (e : Entry) :
    entry? (t.put place e) place = some e := by
  simp [ entry?, put, h]

theorem lookup_filter_ne {q place : Place} (h : q ≠ place) (entries : List (Place × Entry)) :
    (entries.filter fun x => x.1 ≠ place).lookup q = entries.lookup q := by
  induction entries with
  | nil => rfl
  | cons x entries ih =>
    obtain ⟨p, e⟩ := x
    by_cases hp : p = place
    · have hq : (q == p) = false := beq_eq_false_iff_ne.mpr (hp ▸ h)
      rw [List.filter_cons_of_neg (by simpa using hp), ih, List.lookup_cons, hq]
    · rw [List.filter_cons_of_pos (by simpa using hp), List.lookup_cons, List.lookup_cons, ih]

theorem entry?_put_of_ne {q place : Place} (h : q ≠ place) (t : FileTree) (e : Entry) :
    entry? (t.put place e) q = t.entry? q := by
  have hq : (q == place) = false := beq_eq_false_iff_ne.mpr h
  simp only [ entry?, put, List.lookup_cons, hq]
  rw [lookup_filter_ne h]

structure Keeps (t u : FileTree) : Prop where
  work : u.work = t.work
  folder : ∀ place, t.isFolderAt place → u.isFolderAt place

theorem Keeps.refl (t : FileTree) : t.Keeps t := ⟨rfl, fun _ h => h⟩

theorem Keeps.trans (h : t.Keeps u) (h' : u.Keeps v) : t.Keeps v :=
  ⟨h'.work.trans h.work, fun place hp => h'.folder place (h.folder place hp)⟩

theorem keeps_put {place : Place} {e : Entry} (h : t.entry? place ≠ some .folder) :
    t.Keeps (t.put place e) := by
  refine ⟨rfl, fun q hq => ?_⟩
  have hne : q ≠ place := by
    rintro rfl
    exact h (isFolderAt_iff.mp hq)
  rw [isFolderAt_iff, entry?_put_of_ne hne]
  exact isFolderAt_iff.mp hq

theorem enter_eq_ok {s p : Place} {name : String} {e : Option Entry}
    (h : t.enter s name = .ok (p, e)) :
    t.isFolderAt s ∧ (e = some .folder ∨ p = s ++ [name] ∧ e = t.entry? p) := by
  unfold enter at h
  by_cases hs : t.isFolderAt s
  · refine ⟨hs, ?_⟩
    simp only [hs, Bool.not_true, Bool.false_eq_true, if_false] at h
    split at h
    · cases h
      exact .inl rfl
    split at h
    · cases h
      exact .inl rfl
    split at h
    · cases h
    · cases h
      exact .inr ⟨rfl, rfl⟩
  · simp [hs] at h

theorem enter_ne_missing {s : Place} {name : String} : t.enter s name ≠ .error .missing := by
  intro h
  unfold enter at h
  split at h
  · cases h
  split at h
  · cases h
  split at h
  · cases h
  split at h <;> cases h

def IsProper (name : String) : Prop :=
  name ≠ "" ∧ name ≠ "." ∧ name ≠ ".." ∧ name.utf8ByteSize ≤ nameLimit

theorem enter_of_proper {s : Place} {name : String} (hs : t.isFolderAt s) (h : IsProper name) :
    t.enter s name = .ok (s ++ [name], t.entry? (s ++ [name])) := by
  obtain ⟨hempty, hdot, hdots, hlength⟩ := h
  simp [enter, hs, hempty, hdot, hdots, Nat.not_lt.mpr hlength]

/-- Any other name leads to a folder whatever the tree holds, or is too long. -/
theorem enter_of_not_proper {s : Place} {name : String} (hs : t.isFolderAt s)
    (h : ¬ IsProper name) :
    t.enter s name =
      if name = "" ∨ name = "." then .ok (s, some .folder)
      else if name = ".." then .ok (s.dropLast, some .folder)
      else .error .nameTooLong := by
  have hlong : ¬ (name = "" ∨ name = ".") → name ≠ ".." → nameLimit < name.utf8ByteSize := by
    intro hhere habove
    rw [not_or] at hhere
    exact Nat.lt_of_not_le fun hshort => h ⟨hhere.1, hhere.2, habove, hshort⟩
  by_cases hhere : name = "" ∨ name = "."
  · simp [enter, hs, hhere]
  by_cases habove : name = ".."
  · simp [enter, hs, habove]
  · simp [enter, hs, hhere, habove, hlong hhere habove]

theorem enter_keeps (hk : t.Keeps u) {s p : Place} {name : String}
    (h : t.enter s name = .ok (p, some .folder)) : u.enter s name = .ok (p, some .folder) := by
  obtain ⟨hs, -⟩ := enter_eq_ok h
  have hs' := hk.folder s hs
  by_cases hproper : IsProper name
  · rw [enter_of_proper hs hproper] at h
    obtain ⟨rfl, hentry⟩ := Prod.mk.inj (Except.ok.inj h)
    rw [enter_of_proper hs' hproper, isFolderAt_iff.mp (hk.folder _ (isFolderAt_iff.mpr hentry))]
  · rw [← h, enter_of_not_proper hs hproper, enter_of_not_proper hs' hproper]

theorem follow_cons {s : Place} {name : String} {rest : List String} (h : rest ≠ []) :
    t.follow s (name :: rest) =
      match t.enter s name with
      | .error e => .error e
      | .ok (_, none) => .error .missing
      | .ok (p, some _) => t.follow p rest := by
  cases rest with
  | nil => exact absurd rfl h
  | cons next rest => rfl

theorem isFolderAt_of_follow {s : Place} {names : List String} (hnames : names ≠ [])
    {r : Place × Option Entry} (h : t.follow s names = .ok r) : t.isFolderAt s := by
  cases names with
  | nil => exact absurd rfl hnames
  | cons name rest =>
    cases hrest : rest with
    | nil =>
      rw [hrest] at h
      exact (enter_eq_ok h).1
    | cons next rest' =>
      rw [follow_cons (hrest ▸ List.cons_ne_nil next rest')] at h
      cases henter : t.enter s name with
      | error e => simp [henter] at h
      | ok q => exact (enter_eq_ok henter).1

/-- A name behind which others have led on has led to a folder. -/
theorem follow_cons_eq_ok {s : Place} {name : String} {rest : List String} (hrest : rest ≠ [])
    {r : Place × Option Entry} :
    t.follow s (name :: rest) = .ok r ↔
      ∃ q, t.enter s name = .ok (q, some .folder) ∧ t.follow q rest = .ok r := by
  rw [follow_cons hrest]
  constructor
  · intro h
    cases henter : t.enter s name with
    | error e => simp [henter] at h
    | ok r =>
      obtain ⟨q, e⟩ := r
      cases e with
      | none => simp [henter] at h
      | some e =>
        simp only [henter] at h
        have hfolder := isFolderAt_of_follow hrest h
        have he : e = .folder := by
          rcases (enter_eq_ok henter).2 with he | ⟨-, he⟩
          · exact Option.some.inj he
          · exact Option.some.inj (he.trans (isFolderAt_iff.mp hfolder))
        exact ⟨q, by rw [he], h⟩
  · rintro ⟨q, henter, h⟩
    rw [henter]
    exact h

theorem follow_keeps (hk : t.Keeps u) {s p : Place} {names : List String}
    (h : t.follow s names = .ok (p, some .folder)) :
    u.follow s names = .ok (p, some .folder) := by
  induction names generalizing s with
  | nil =>
    obtain ⟨rfl, hentry⟩ := Prod.mk.inj (Except.ok.inj h)
    rw [follow, isFolderAt_iff.mp (hk.folder s (isFolderAt_iff.mpr hentry))]
  | cons name rest ih =>
    by_cases hrest : rest = []
    · subst hrest
      exact enter_keeps hk h
    · obtain ⟨q, henter, hfollow⟩ := (follow_cons_eq_ok hrest).mp h
      exact (follow_cons_eq_ok hrest).mpr ⟨q, enter_keeps hk henter, ih hfollow⟩

theorem follow_append {s : Place} {names : List String} {name : String} (h : names ≠ []) :
    t.follow s (names ++ [name]) =
      match t.follow s names with
      | .error e => .error e
      | .ok (_, none) => .error .missing
      | .ok (p, some _) => t.enter p name := by
  induction names generalizing s with
  | nil => exact absurd rfl h
  | cons first rest ih =>
    rw [List.cons_append, follow_cons (by simp)]
    by_cases hrest : rest = []
    · subst hrest
      rfl
    · rw [follow_cons hrest]
      cases t.enter s first with
      | error e => rfl
      | ok r =>
        obtain ⟨p, e⟩ := r
        cases e with
        | none => rfl
        | some e => exact ih hrest

theorem follow_eq_ok {s p : Place} {names : List String} {e : Option Entry}
    (h : t.follow s names = .ok (p, e)) : e = some .folder ∨ e = t.entry? p := by
  induction names generalizing s with
  | nil =>
    cases h
    exact .inr rfl
  | cons name rest ih =>
    by_cases hrest : rest = []
    · subst hrest
      rcases (enter_eq_ok h).2 with he | ⟨-, he⟩
      · exact .inl he
      · exact .inr he
    · obtain ⟨q, -, hfollow⟩ := (follow_cons_eq_ok hrest).mp h
      exact ih hfollow

/-- What leads to nothing leads to the folder that is put there. -/
theorem follow_put_folder {s p : Place} {names : List String}
    (h : t.follow s names = .ok (p, none)) :
    follow (t.put p .folder) s names = .ok (p, some .folder) := by
  have hnone : t.entry? p = none := ((follow_eq_ok h).resolve_left (by simp)).symm
  have hp : p ≠ [] := by
    rintro rfl
    cases hnone
  have hk : t.Keeps (t.put p .folder) := keeps_put (by simp [hnone])
  have hself := entry?_put_self hp t .folder
  induction names generalizing s with
  | nil =>
    obtain ⟨rfl, -⟩ := Prod.mk.inj (Except.ok.inj h)
    rw [follow, hself]
  | cons name rest ih =>
    by_cases hrest : rest = []
    · subst hrest
      change t.enter s name = _ at h
      change enter _ s name = _
      have hs := (enter_eq_ok h).1
      by_cases hproper : IsProper name
      · rw [enter_of_proper hs hproper] at h
        obtain ⟨rfl, -⟩ := Prod.mk.inj (Except.ok.inj h)
        rw [enter_of_proper (hk.folder s hs) hproper, hself]
      · rw [enter_of_not_proper hs hproper] at h
        split at h
        · cases h
        · split at h <;> cases h
    · obtain ⟨q, henter, hfollow⟩ := (follow_cons_eq_ok hrest).mp h
      exact (follow_cons_eq_ok hrest).mpr ⟨q, enter_keeps hk henter, ih hfollow⟩

theorem isFolderAt_start (h : t.isFolderAt t.work) (absolute : Bool) :
    t.isFolderAt (t.start absolute) := by
  cases absolute with
  | true => rfl
  | false => exact h

/-- What leads to no folder leads to its last name in one. -/
theorem exists_folder_of_follow {s p : Place} {names : List String} {e : Option Entry}
    (hs : t.isFolderAt s) (h : t.follow s names = .ok (p, e)) (he : e ≠ some .folder) :
    ∃ q name, names.getLast? = some name ∧ p = q ++ [name] ∧ t.isFolderAt q := by
  induction names generalizing s with
  | nil =>
    cases h
    exact absurd (isFolderAt_iff.mp hs) he
  | cons name rest ih =>
    by_cases hrest : rest = []
    · subst hrest
      exact ⟨s, name, rfl, ((enter_eq_ok h).2.resolve_left he).1, hs⟩
    · obtain ⟨q, -, hfollow⟩ := (follow_cons_eq_ok hrest).mp h
      rw [List.getLast?_cons_of_ne_nil hrest]
      exact ih (isFolderAt_of_follow hrest hfollow) hfollow

theorem locate_of_fits {p : Path} (h : p.render.utf8ByteSize ≤ pathLimit) :
    t.locate p = t.follow (t.start p.isAbsolute) p.names := if_neg (Nat.not_lt.mpr h)

theorem fits_of_locate {p : Path} (h : t.locate p ≠ .error .nameTooLong) :
    p.render.utf8ByteSize ≤ pathLimit := by
  rcases Nat.lt_or_ge pathLimit p.render.utf8ByteSize with hlong | hfits
  · exact absurd (if_pos hlong) h
  · exact hfits

theorem follow_of_locate {p : Path} {r : Place × Option Entry} (h : t.locate p = .ok r) :
    t.follow (t.start p.isAbsolute) p.names = .ok r := by
  rwa [locate_of_fits (fits_of_locate (t := t) (p := p) (by simp [h]))] at h

theorem locate_keeps (hk : t.Keeps u) {p : Path} {base : Place}
    (h : t.locate p = .ok (base, some .folder)) : u.locate p = .ok (base, some .folder) := by
  have hfits := fits_of_locate (t := t) (p := p) (by simp [h])
  rw [locate_of_fits hfits] at h ⊢
  have hstart : u.start p.isAbsolute = t.start p.isAbsolute := by rw [start, start, hk.work]
  rw [hstart]
  exact follow_keeps hk h

theorem locate_child {p : Path} {base : Place} (h : t.locate p = .ok (base, some .folder))
    {name : String} (hfits : (p.child name).render.utf8ByteSize ≤ pathLimit) :
    t.locate (p.child name) = t.enter base name := by
  have hparent := fits_of_locate (t := t) (p := p) (by simp [h])
  rw [locate_of_fits hparent] at h
  rw [locate_of_fits hfits]
  change t.follow (t.start p.isAbsolute) (p.names ++ [name]) = _
  by_cases hnames : p.names = []
  · rw [hnames] at h ⊢
    obtain ⟨rfl, -⟩ := Prod.mk.inj (Except.ok.inj h)
    rfl
  · rw [follow_append hnames, h]

theorem writeFile_eq_ok {p : Path} {c : Bytes} :
    t.writeFile p c = .ok u ↔
      ∃ place e, t.locate p = .ok (place, e) ∧ e ≠ some .folder ∧ u = t.put place (.file c) := by
  unfold writeFile
  cases t.locate p with
  | error e => simp
  | ok r =>
    obtain ⟨place, e⟩ := r
    constructor
    · intro h
      split at h
      · rename_i heq
        cases heq
      · cases h
      · rename_i hne heq
        cases heq
        cases h
        exact ⟨place, e, rfl, hne, rfl⟩
    · rintro ⟨q, e', heq, he, rfl⟩
      obtain ⟨rfl, rfl⟩ := Prod.mk.inj (Except.ok.inj heq)
      split <;> simp_all

theorem writeFile_child_eq_ok {p : Path} {base : Place} (h : t.locate p = .ok (base, some .folder))
    {name : String} {c : Bytes} :
    t.writeFile (p.child name) c = .ok u ↔
      (p.child name).render.utf8ByteSize ≤ pathLimit ∧ IsProper name ∧ t.isFolderAt base ∧
        t.entry? (base ++ [name]) ≠ some .folder ∧ u = t.put (base ++ [name]) (.file c) := by
  rw [writeFile_eq_ok]
  constructor
  · rintro ⟨place, e, hlocate, he, rfl⟩
    have hfits := fits_of_locate (t := t) (p := p.child name) (by simp [hlocate])
    rw [locate_child h hfits] at hlocate
    obtain ⟨hbase, hplace⟩ := enter_eq_ok hlocate
    have hproper : IsProper name := by
      by_cases hproper : IsProper name
      · exact hproper
      rw [enter_of_not_proper hbase hproper] at hlocate
      split at hlocate
      · simp_all
      · split at hlocate <;> simp_all
    obtain ⟨rfl, rfl⟩ := hplace.resolve_left he
    exact ⟨hfits, hproper, hbase, he, rfl⟩
  · rintro ⟨hfits, hproper, hbase, hentry, rfl⟩
    exact ⟨_, _, (locate_child h hfits).trans (enter_of_proper hbase hproper), hentry, rfl⟩

theorem locate_eq_ok {p : Path} {place : Place} {e : Option Entry}
    (h : t.locate p = .ok (place, e)) : e = some .folder ∨ e = t.entry? place :=
  follow_eq_ok (follow_of_locate h)

theorem keeps_of_writeFile {p : Path} {c : Bytes} (h : t.writeFile p c = .ok u) : t.Keeps u := by
  obtain ⟨place, e, hlocate, he, rfl⟩ := writeFile_eq_ok.mp h
  apply keeps_put
  rw [← (locate_eq_ok hlocate).resolve_left he]
  exact he

theorem file?_eq_some_iff {p : Path} {c : Bytes} :
    t.file? p = some c ↔ ∃ place, t.locate p = .ok (place, some (.file c)) := by
  unfold file?
  split <;> simp_all

theorem locate_of_file?_child {p : Path} {base : Place}
    (h : t.locate p = .ok (base, some .folder)) {name : String} {c : Bytes}
    (hfile : t.file? (p.child name) = some c) :
    t.locate (p.child name) = .ok (base ++ [name], some (.file c)) ∧
      t.entry? (base ++ [name]) = some (.file c) := by
  obtain ⟨place, hlocate⟩ := file?_eq_some_iff.mp hfile
  have hfits := fits_of_locate (t := t) (p := p.child name) (by simp [hlocate])
  have henter := locate_child h hfits
  rw [hlocate] at henter
  obtain ⟨rfl, hentry⟩ := (enter_eq_ok henter.symm).2.resolve_left (by simp)
  exact ⟨hlocate, hentry.symm⟩

theorem file?_of_writeFile_child {p : Path} {base : Place}
    (h : t.locate p = .ok (base, some .folder)) {name : String} {c : Bytes}
    (hwrite : t.writeFile (p.child name) c = .ok u) (hk : u.Keeps v)
    (hentry : v.entry? (base ++ [name]) = u.entry? (base ++ [name])) :
    v.file? (p.child name) = some c := by
  have hlocate := locate_keeps ((keeps_of_writeFile hwrite).trans hk) h
  obtain ⟨hfits, hproper, hbase, -, rfl⟩ := (writeFile_child_eq_ok h).mp hwrite
  have hfolder := hk.folder base ((keeps_of_writeFile hwrite).folder base hbase)
  rw [entry?_put_self (by simp)] at hentry
  refine file?_eq_some_iff.mpr ⟨base ++ [name], ?_⟩
  rw [locate_child hlocate hfits, enter_of_proper hfolder hproper, hentry]

theorem makeFolder_eq_ok {p : Path} :
    t.makeFolder p = .ok u ↔ ∃ place, t.locate p = .ok (place, none) ∧ u = t.put place .folder := by
  unfold makeFolder
  cases t.locate p with
  | error e => simp
  | ok r =>
    obtain ⟨place, e⟩ := r
    cases e <;> simp [eq_comm]

theorem makeFolder_eq_missing_iff {p : Path} :
    t.makeFolder p = .error .missing ↔ t.locate p = .error .missing := by
  unfold makeFolder
  cases t.locate p with
  | error e => simp
  | ok r =>
    obtain ⟨place, e⟩ := r
    cases e <;> simp

theorem isFolder_iff {p : Path} :
    t.isFolder p ↔ ∃ base, t.locate p = .ok (base, some .folder) := by
  unfold isFolder
  split <;> simp_all

theorem keeps_of_makeFolder {p : Path} (h : t.makeFolder p = .ok u) : t.Keeps u := by
  obtain ⟨place, hlocate, rfl⟩ := makeFolder_eq_ok.mp h
  apply keeps_put
  rw [← (locate_eq_ok hlocate).resolve_left (by simp)]
  simp

theorem isFolder_of_makeFolder {p : Path} (h : t.makeFolder p = .ok u) : u.isFolder p := by
  obtain ⟨place, hlocate, rfl⟩ := makeFolder_eq_ok.mp h
  have hfits := fits_of_locate (t := t) (p := p) (by simp [hlocate])
  rw [locate_of_fits hfits] at hlocate
  refine isFolder_iff.mpr ⟨place, ?_⟩
  rw [locate_of_fits hfits]
  exact follow_put_folder hlocate

/-- A tree with the entries of another, and folders where that may have had nothing. -/
structure Extends (t u : FileTree) : Prop where
  work : u.work = t.work
  entry : ∀ place,
    u.entry? place = t.entry? place ∨ t.entry? place = none ∧ u.entry? place = some .folder

theorem Extends.refl (t : FileTree) : t.Extends t := ⟨rfl, fun _ => .inl rfl⟩

theorem Extends.trans (h : t.Extends u) (h' : u.Extends v) : t.Extends v := by
  refine ⟨h'.work.trans h.work, fun place => ?_⟩
  rcases h.entry place with hsame | ⟨hnone, hfolder⟩
  · rw [← hsame]
    exact h'.entry place
  · rcases h'.entry place with hsame' | ⟨hnone', -⟩
    · exact .inr ⟨hnone, hsame'.trans hfolder⟩
    · rw [hfolder] at hnone'
      cases hnone'

theorem extends_of_makeFolder {p : Path} (h : t.makeFolder p = .ok u) : t.Extends u := by
  obtain ⟨place, hlocate, rfl⟩ := makeFolder_eq_ok.mp h
  have hnone := ((locate_eq_ok hlocate).resolve_left (by simp)).symm
  have hplace : place ≠ [] := by
    rintro rfl
    cases hnone
  refine ⟨rfl, fun q => ?_⟩
  by_cases hq : q = place
  · subst hq
    exact .inr ⟨hnone, entry?_put_self hplace t .folder⟩
  · exact .inl (entry?_put_of_ne hq t .folder)

def Grown (t u : FileTree) : Prop := ∃ place, t.entry? place = none ∧ u.isFolderAt place

theorem grown_of_makeFolder {p : Path} (h : t.makeFolder p = .ok u) : t.Grown u := by
  obtain ⟨place, hlocate, rfl⟩ := makeFolder_eq_ok.mp h
  have hentry := ((locate_eq_ok hlocate).resolve_left (by simp)).symm
  have hplace : place ≠ [] := by
    rintro rfl
    cases hentry
  exact ⟨place, hentry, isFolderAt_iff.mpr (entry?_put_self hplace t .folder)⟩

theorem Grown.keeps (h : t.Grown u) (hk : u.Keeps v) : t.Grown v := by
  obtain ⟨place, hnone, hfolder⟩ := h
  exact ⟨place, hnone, hk.folder place hfolder⟩

theorem Grown.not_same (h : t.Grown u) : ¬ t.Same u := by
  obtain ⟨place, hnone, hfolder⟩ := h
  intro hsame
  rw [isFolderAt_iff, hsame.2, hnone] at hfolder
  cases hfolder

/-- A path that leads to nothing, or through nothing. -/
def Lacks (t : FileTree) (p : Path) : Prop :=
  (∃ place, t.locate p = .ok (place, none)) ∨ t.locate p = .error .missing

theorem locate_root_ne_missing (root : String) : t.locate ⟨root, []⟩ ≠ .error .missing := by
  unfold locate
  split <;> simp [follow]

/-- What lies on the way to a path that leads through nothing is lacking too. -/
theorem lacks_of_child {p : Path} {name : String}
    (h : t.locate (p.child name) = .error .missing) : t.Lacks p := by
  have hchild := fits_of_locate (t := t) (p := p.child name) (by simp [h])
  have hsize := p.render_child_size name
  have hparent : p.render.utf8ByteSize ≤ pathLimit := by
    have : 1 ≤ pathLimit := by decide
    omega
  rw [locate_of_fits hchild] at h
  change t.follow (t.start p.isAbsolute) (p.names ++ [name]) = _ at h
  rw [Lacks, locate_of_fits hparent]
  by_cases hnames : p.names = []
  · rw [hnames] at h
    exact absurd h enter_ne_missing
  rw [follow_append hnames] at h
  cases hfollow : t.follow (t.start p.isAbsolute) p.names with
  | error e =>
    rw [hfollow] at h
    exact .inr h
  | ok r =>
    obtain ⟨place, e⟩ := r
    cases e with
    | none => exact .inl ⟨place, rfl⟩
    | some e =>
      rw [hfollow] at h
      exact absurd h enter_ne_missing

theorem Same.enter (h : t.Same u) (s : Place) (name : String) :
    u.enter s name = t.enter s name := by
  have hs : u.isFolderAt s = t.isFolderAt s := by rw [isFolderAt, isFolderAt, h.2]
  simp only [FileTree.enter, hs, h.2]

theorem Same.follow (h : t.Same u) (s : Place) (names : List String) :
    u.follow s names = t.follow s names := by
  induction names generalizing s with
  | nil => rw [FileTree.follow, FileTree.follow, h.2]
  | cons name rest ih =>
    by_cases hrest : rest = []
    · subst hrest
      exact h.enter s name
    · simp only [follow_cons hrest, h.enter, ih]

theorem Same.file? (h : t.Same u) (p : Path) : u.file? p = t.file? p := by
  have hstart : u.start p.isAbsolute = t.start p.isAbsolute := by rw [start, start, h.1]
  simp only [FileTree.file?, locate, hstart, h.follow]

end FileTree

end Bindery
