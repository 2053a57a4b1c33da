import Bindery.Proofs.GeneratedFiles
import Bindery.Proofs.SplitText
import Mathlib.Data.List.Induction
import Mathlib.Data.List.Nodup

/-!
# Paths that a pattern finds

A component of a pattern adds names to the paths found before it. All but `**` add a fixed number of
them, so the paths of two folders stay apart behind such a component. `**` adds as many names as
there are folders to go through, so paths stay apart behind it only while they are of one length,
which is as long as there was no other `**`.
-/

namespace Bindery

namespace FileTree

variable {t : FileTree}

/-- A name that an entry can have, in the text of a path as well. -/
structure IsPlain (name : String) : Prop where
  proper : IsProper name
  noSlash : '/' ∉ name.toList

instance (name : String) : Decidable (IsPlain name) :=
  decidable_of_iff
    ((name ≠ "" ∧ name ≠ "." ∧ name ≠ ".." ∧ name.utf8ByteSize ≤ nameLimit) ∧ '/' ∉ name.toList)
    ⟨fun h => ⟨h.1, h.2⟩, fun h => ⟨h.proper, h.noSlash⟩⟩

/-- One entry at each place, under names that a path can spell, and relative paths start in a
folder. -/
structure Sound (t : FileTree) : Prop where
  nodup : (t.entries.map Prod.fst).Nodup
  plain : ∀ x ∈ t.entries, ∀ name ∈ x.1, IsPlain name
  work : t.isFolderAt t.work

/-- Entries of different places stay apart under any keys that tell their places. -/
theorem Sound.nodup_filterMap {α β : Type} (h : t.Sound) {f : Place × Entry → Option α}
    {key : α → β} (place : β → Place) (hf : ∀ x y, f x = some y → x.1 = place (key y)) :
    ((t.entries.filterMap f).map key).Nodup := by
  have hplaces : t.entries.Pairwise fun x x' => x.1 ≠ x'.1 := List.pairwise_map.mp h.nodup
  refine List.pairwise_map.mpr (List.Pairwise.filterMap f ?_ hplaces)
  intro x x' hne y hy y' hy' hkey
  exact hne (by rw [hf x y hy, hf x' y' hy', hkey])

theorem eq_of_namesIn {folder : Place} {x : Place × Entry} {y : String × Entry}
    (h : (match x.1.getLast? with
      | some name => if x.1.dropLast = folder then some (name, x.2) else none
      | none => none) = some y) : x = (folder ++ [y.1], y.2) := by
  obtain ⟨place, e⟩ := x
  split at h
  · rename_i name hname
    split at h
    · rename_i hfolder
      cases h
      rw [← hfolder, List.dropLast_append_getLast? name hname]
    · cases h
  · cases h

theorem mem_entries_of_namesIn {folder : Place} {y : String × Entry} (h : y ∈ t.namesIn folder) :
    (folder ++ [y.1], y.2) ∈ t.entries := by
  obtain ⟨x, hx, hy⟩ := List.mem_filterMap.mp h
  rwa [eq_of_namesIn hy] at hx

theorem Sound.nodup_namesIn (h : t.Sound) (folder : Place) :
    ((t.namesIn folder).map Prod.fst).Nodup :=
  h.nodup_filterMap (fun name => folder ++ [name]) fun _ _ hy => by
    rw [eq_of_namesIn hy]

theorem Sound.isPlain_of_namesIn (h : t.Sound) {folder : Place} {y : String × Entry}
    (hy : y ∈ t.namesIn folder) : IsPlain y.1 :=
  h.plain _ (mem_entries_of_namesIn hy) _ (by simp)

theorem eq_of_below {folder : Place} {x : Place × Entry} {y : List String × Entry}
    (h : (if folder.length < x.1.length ∧ x.1.take folder.length = folder then
      some (x.1.drop folder.length, x.2) else none) = some y) :
    x = (folder ++ y.1, y.2) ∧ y.1 ≠ [] := by
  split at h
  · rename_i hbelow
    obtain ⟨hlength, htake⟩ := hbelow
    obtain ⟨place, e⟩ := x
    cases h
    dsimp only at hlength htake ⊢
    refine ⟨?_, List.ne_nil_of_length_pos (by rw [List.length_drop]; omega)⟩
    nth_rewrite 1 [← htake]
    rw [List.take_append_drop]
  · cases h

theorem mem_entries_of_below {folder : Place} {y : List String × Entry} (h : y ∈ t.below folder) :
    (folder ++ y.1, y.2) ∈ t.entries ∧ y.1 ≠ [] := by
  obtain ⟨x, hx, hy⟩ := List.mem_filterMap.mp h
  obtain ⟨rfl, hnames⟩ := eq_of_below hy
  exact ⟨hx, hnames⟩

theorem Sound.nodup_below (h : t.Sound) (folder : Place) :
    ((t.below folder).map Prod.fst).Nodup :=
  h.nodup_filterMap (fun names => folder ++ names) fun _ _ hy => by
    rw [(eq_of_below hy).1]

theorem Sound.isPlain_of_below (h : t.Sound) {folder : Place} {y : List String × Entry}
    (hy : y ∈ t.below folder) : ∀ name ∈ y.1, IsPlain name := fun name hname =>
  h.plain _ (mem_entries_of_below hy).1 name (List.mem_append_right _ hname)

theorem eq_concat_of_enter {q p : Place} {name : String} {e : Option Entry}
    (hname : name ≠ "" ∧ name ≠ "." ∧ name ≠ "..") (h : t.enter q name = .ok (p, e)) :
    p = q ++ [name] := by
  obtain ⟨hempty, hdot, hdots⟩ := hname
  have hq := (enter_eq_ok h).1
  by_cases hproper : IsProper name
  · rw [enter_of_proper hq hproper] at h
    exact (Prod.mk.inj (Except.ok.inj h)).1.symm
  · rw [enter_of_not_proper hq hproper] at h
    simp [hempty, hdot, hdots] at h

/-- Names that do not lead up lead down, one step each. -/
theorem exists_of_follow_append {s p : Place} {xs ys : List String} {e : Option Entry}
    (hys : ∀ name ∈ ys, name ≠ "" ∧ name ≠ "." ∧ name ≠ "..")
    (h : t.follow s (xs ++ ys) = .ok (p, e)) :
    ∃ q e, t.follow s xs = .ok (q, e) ∧ p = q ++ ys := by
  induction ys using List.reverseRecOn generalizing p e with
  | nil =>
    rw [List.append_nil] at h
    exact ⟨p, e, h, (List.append_nil p).symm⟩
  | append_singleton ys name ih =>
    obtain ⟨hfirst, hlast⟩ := List.forall_mem_append.mp hys
    have hname := hlast name (List.mem_singleton_self name)
    rw [← List.append_assoc] at h
    by_cases hnames : xs ++ ys = []
    · obtain ⟨rfl, rfl⟩ := List.append_eq_nil_iff.mp hnames
      exact ⟨s, _, rfl, eq_concat_of_enter hname h⟩
    · rw [follow_append hnames] at h
      cases hfollow : t.follow s (xs ++ ys) with
      | error e => simp [hfollow] at h
      | ok r =>
        obtain ⟨q, e'⟩ := r
        cases e' with
        | none => simp [hfollow] at h
        | some e' =>
          rw [hfollow] at h
          obtain ⟨q', e'', hxs, rfl⟩ := ih hfirst hfollow
          exact ⟨q', e'', hxs, by rw [eq_concat_of_enter hname h, List.append_assoc]⟩

def SameFile (t : FileTree) (p q : Path) : Prop :=
  ∃ place c, t.locate p = .ok (place, some (.file c)) ∧ t.locate q = .ok (place, some (.file c))

theorem SameFile.symm {p q : Path} (h : t.SameFile p q) : t.SameFile q p := by
  obtain ⟨place, c, hp, hq⟩ := h
  exact ⟨place, c, hq, hp⟩

end FileTree

theorem Path.isAbsolute_ofText (cs : List Char) :
    (Path.ofText (String.ofList cs)).isAbsolute = decide (cs.head? = some '/') := by
  rw [isAbsolute, ofText, String.toList_ofList]
  cases cs with
  | nil => rfl
  | cons c cs =>
    by_cases hc : c = '/'
    · subst hc
      have hroot : rootOf ('/' :: cs) ≠ "" := by
        unfold rootOf
        split <;> simp_all
      simp [hroot]
    · simp [rootOf, hc]

namespace Glob

open FileTree

def namesOf (cs : List Char) : List String := (Path.ofText (String.ofList cs)).names

theorem namesOf_eq (cs : List Char) :
    namesOf cs =
      ((Path.split cs).filter fun part => part ≠ [] ∧ part ≠ ['.']).map String.ofList := by
  simp [namesOf, Path.ofText]

theorem namesOf_append_slash (xs ys : List Char) :
    namesOf (xs ++ '/' :: ys) = namesOf xs ++ namesOf ys := by
  have hsplit : Path.split (xs ++ '/' :: ys) = Path.split xs ++ Path.split ys :=
    Text.split_append_mark (by simp) xs ys
  rw [namesOf_eq, namesOf_eq, namesOf_eq, hsplit, List.filter_append, List.map_append]

theorem namesOf_join (folder name : List Char) :
    namesOf (join folder name) = namesOf folder ++ namesOf name := by
  unfold join
  split
  · rename_i hempty
    rw [List.isEmpty_iff.mp hempty]
    rfl
  split
  · rename_i hslash
    obtain ⟨front, rfl⟩ := List.getLast?_eq_some_iff.mp hslash
    have hfront : namesOf (front ++ ['/']) = namesOf front := by
      rw [namesOf_append_slash]
      exact List.append_nil _
    rw [List.append_assoc, List.singleton_append, namesOf_append_slash, hfront]
  · exact namesOf_append_slash folder name

theorem namesOf_of_no_slash {cs : List Char} (h : '/' ∉ cs) :
    namesOf cs = if cs = [] ∨ cs = ['.'] then [] else [String.ofList cs] := by
  rw [namesOf_eq, Path.split, Text.split_of_not_mem h]
  by_cases hempty : cs = []
  · simp [hempty]
  · by_cases hdot : cs = ['.']
    · simp [hdot]
    · simp [hempty, hdot]

theorem namesOf_name {name : String} (h : IsPlain name) : namesOf name.toList = [name] := by
  obtain ⟨hempty, hdot, -, -⟩ := h.proper
  have hname : ¬ (name.toList = [] ∨ name.toList = ['.']) := by
    rintro (hnil | hone)
    · exact hempty (String.toList_eq_nil_iff.mp hnil)
    · exact hdot (String.toList_injective hone)
  rw [namesOf_of_no_slash h.noSlash, if_neg hname, String.ofList_toList]

theorem namesOf_intercalate {names : List String} (h : ∀ name ∈ names, IsPlain name) :
    namesOf (String.intercalate "/" names).toList = names := by
  induction names with
  | nil => rfl
  | cons name rest ih =>
    obtain ⟨hname, hrest⟩ := List.forall_mem_cons.mp h
    by_cases hlast : rest = []
    · rw [hlast, String.intercalate_singleton, namesOf_name hname]
    · have hslash : ("/" : String).toList = ['/'] := rfl
      rw [String.intercalate_cons_of_ne_nil hlast, String.toList_append, String.toList_append,
        hslash, List.append_assoc, List.singleton_append, namesOf_append_slash,
        namesOf_name hname, ih hrest, List.singleton_append]

theorem head?_ne_slash {name : String} (h : IsPlain name) (rest : List Char) :
    (name.toList ++ rest).head? ≠ some '/' := by
  cases hname : name.toList with
  | nil => exact absurd (String.toList_eq_nil_iff.mp hname) h.proper.1
  | cons c cs =>
    have hc : c ∈ name.toList := by rw [hname]; exact List.mem_cons_self
    intro hhead
    exact h.noSlash (Option.some.inj hhead ▸ hc)

theorem head?_intercalate_ne_slash {names : List String} (h : ∀ name ∈ names, IsPlain name) :
    (String.intercalate "/" names).toList.head? ≠ some '/' := by
  cases names with
  | nil => simp
  | cons name rest =>
    have hname := h name List.mem_cons_self
    by_cases hlast : rest = []
    · simpa [hlast] using head?_ne_slash hname []
    · rw [String.intercalate_cons_of_ne_nil hlast, String.toList_append, String.toList_append,
        List.append_assoc]
      exact head?_ne_slash hname _

/-- The texts that a component puts behind a folder. -/
def steps (t : FileTree) (foldersOnly : Bool) (component folder : List Char) :
    List (List Char) :=
  if component = ['*', '*'] then deep t foldersOnly folder
  else if Wildcard.hasMagic component then named t foldersOnly folder component
  else literal t folder component

theorem expand_eq (t : FileTree) (foldersOnly : Bool) (component folder : List Char) :
    expand t foldersOnly component folder =
      (steps t foldersOnly component folder).map (join folder) := rfl

/-- The number of names that a component other than `**` puts behind a folder. -/
def width (component : List Char) : Nat :=
  if Wildcard.hasMagic component then 1 else (namesOf component).length

section Steps

variable {t : FileTree} {foldersOnly : Bool} {component folder : List Char}

theorem mem_named (ht : t.Sound) {x : List Char}
    (hx : x ∈ named t foldersOnly folder component) :
    ∃ name, IsPlain name ∧ x = name.toList := by
  unfold named at hx
  split at hx
  · cases hx
  · obtain ⟨y, hy, rfl⟩ := List.mem_map.mp hx
    exact ⟨y.1, ht.isPlain_of_namesIn (List.mem_filter.mp hy).1, rfl⟩

theorem mem_deep (ht : t.Sound) {x : List Char} (hx : x ∈ deep t foldersOnly folder) :
    ∃ names, (∀ name ∈ names, IsPlain name) ∧ x = (String.intercalate "/" names).toList := by
  unfold deep at hx
  rcases List.mem_cons.mp hx with rfl | hx
  · exact ⟨[], nofun, rfl⟩
  split at hx
  · cases hx
  · obtain ⟨y, hy, rfl⟩ := List.mem_map.mp hx
    exact ⟨y.1, ht.isPlain_of_below (List.mem_filter.mp hy).1, rfl⟩

theorem literal_cases (t : FileTree) (folder component : List Char) :
    literal t folder component = [component] ∨ literal t folder component = [] :=
  ite_eq_or_eq _ _ _

theorem mem_literal {x : List Char} (hx : x ∈ literal t folder component) : x = component := by
  rcases literal_cases t folder component with hthere | hnone
  · rw [hthere] at hx
    exact List.mem_singleton.mp hx
  · rw [hnone] at hx
    cases hx

/-- Texts stay apart where they are of different keys and their names tell the keys. -/
theorem nodup_map_filter {α : Type} {ys : List (α × Entry)} (h : (ys.map Prod.fst).Nodup)
    (p : α × Entry → Bool) {f : α × Entry → List Char} {key : α → List String}
    (hkey : Function.Injective key) (hf : ∀ y ∈ ys, namesOf (f y) = key y.1) :
    (((ys.filter p).map f).map namesOf).Nodup := by
  have hapart := (List.pairwise_map.mp h).filter p
  rw [List.Nodup, List.pairwise_map, List.pairwise_map]
  refine hapart.imp_of_mem fun {y y'} hy hy' hne heq => hne (hkey ?_)
  rw [← hf y (List.mem_filter.mp hy).1, ← hf y' (List.mem_filter.mp hy').1, heq]

theorem nodup_named (ht : t.Sound) :
    ((named t foldersOnly folder component).map namesOf).Nodup := by
  unfold named
  split
  · exact List.nodup_nil
  · exact nodup_map_filter (ht.nodup_namesIn _) _ List.singleton_injective fun y hy =>
      namesOf_name (ht.isPlain_of_namesIn hy)

theorem nodup_deep (ht : t.Sound) : ((deep t foldersOnly folder).map namesOf).Nodup := by
  unfold deep
  dsimp only
  split
  · exact List.nodup_singleton _
  · rename_i place _
    have hnames {y : List String × Entry} (hy : y ∈ t.below place) :
        namesOf (String.intercalate "/" y.1).toList = y.1 :=
      namesOf_intercalate (ht.isPlain_of_below hy)
    refine List.nodup_cons.mpr ⟨fun hnil => ?_, nodup_map_filter (ht.nodup_below place) _
      Function.injective_id fun y hy => hnames hy⟩
    obtain ⟨x, hx, hempty⟩ := List.mem_map.mp hnil
    obtain ⟨y, hy, rfl⟩ := List.mem_map.mp hx
    have hbelow := (List.mem_filter.mp hy).1
    rw [hnames hbelow] at hempty
    exact (mem_entries_of_below hbelow).2 hempty

theorem nodup_literal : ((literal t folder component).map namesOf).Nodup := by
  rcases literal_cases t folder component with hthere | hnone
  · rw [hthere]
    exact List.nodup_singleton _
  · rw [hnone]
    exact List.nodup_nil

/-- From one folder a component leads to no path in two ways. -/
theorem nodup_steps (ht : t.Sound) :
    ((steps t foldersOnly component folder).map namesOf).Nodup := by
  unfold steps
  split
  · exact nodup_deep ht
  split
  · exact nodup_named ht
  · exact nodup_literal

theorem length_of_mem_steps (ht : t.Sound) (hcomponent : component ≠ ['*', '*']) {x : List Char}
    (hx : x ∈ steps t foldersOnly component folder) : (namesOf x).length = width component := by
  rw [steps, if_neg hcomponent] at hx
  unfold width
  split at hx
  · rename_i hmagic
    obtain ⟨name, hname, rfl⟩ := mem_named ht hx
    rw [namesOf_name hname, if_pos hmagic, List.length_singleton]
  · rename_i hmagic
    rw [mem_literal hx, if_neg hmagic]

/-- A component that a text between slashes spells and that does not lead up. -/
structure LeadsDown (component : List Char) : Prop where
  noSlash : '/' ∉ component
  notUp : component ≠ ['.', '.']

theorem down_of_mem_steps (ht : t.Sound) (hcomponent : LeadsDown component) {x : List Char}
    (hx : x ∈ steps t foldersOnly component folder) :
    ".." ∉ namesOf x ∧ x.head? ≠ some '/' := by
  unfold steps at hx
  split at hx
  · obtain ⟨names, hnames, rfl⟩ := mem_deep ht hx
    rw [namesOf_intercalate hnames]
    exact ⟨fun hup => (hnames _ hup).proper.2.2.1 rfl, head?_intercalate_ne_slash hnames⟩
  split at hx
  · obtain ⟨name, hname, rfl⟩ := mem_named ht hx
    rw [namesOf_name hname]
    refine ⟨fun hup => hname.proper.2.2.1 (List.mem_singleton.mp hup).symm, ?_⟩
    simpa using head?_ne_slash hname []
  · obtain rfl := mem_literal hx
    refine ⟨fun hup => ?_, fun hhead => hcomponent.noSlash (List.mem_of_head? hhead)⟩
    rw [namesOf_of_no_slash hcomponent.noSlash] at hup
    split at hup
    · cases hup
    · have hdots := List.mem_singleton.mp hup
      exact hcomponent.notUp (String.ofList_injective hdots.symm)

end Steps

section Search

variable {t : FileTree} {foldersOnly : Bool} {component : List Char} {folders : List (List Char)}

theorem search_cons (t : FileTree) (folders : List (List Char)) (component : List Char)
    (rest : List (List Char)) :
    search t folders (component :: rest) =
      search t (folders.flatMap (expand t (!rest.isEmpty) component)) rest := by
  cases rest <;> rfl

/-- Folders that stay apart lead to paths that do, where the names before what a component adds to
them can be told. -/
theorem nodup_flatMap_expand (ht : t.Sound) (h : (folders.map namesOf).Nodup)
    (hcancel : ∀ f ∈ folders, ∀ g ∈ folders, ∀ x ∈ steps t foldersOnly component f,
      ∀ y ∈ steps t foldersOnly component g,
        namesOf f ++ namesOf x = namesOf g ++ namesOf y → namesOf f = namesOf g) :
    ((folders.flatMap (expand t foldersOnly component)).map namesOf).Nodup := by
  have hapart := List.pairwise_map.mp h
  have hjoin (folder : List Char) : (expand t foldersOnly component folder).map namesOf =
      ((steps t foldersOnly component folder).map namesOf).map (namesOf folder ++ ·) := by
    rw [expand_eq, List.map_map, List.map_map]
    exact List.map_congr_left fun x _ => namesOf_join folder x
  rw [List.map_flatMap, List.nodup_flatMap]
  refine ⟨fun folder _ => ?_, hapart.imp_of_mem fun {f g} hf hg hne => ?_⟩
  · rw [hjoin]
    exact (nodup_steps ht).map (List.append_right_injective _)
  · intro names hnames hnames'
    dsimp only at hnames hnames'
    rw [hjoin, List.map_map] at hnames hnames'
    obtain ⟨x, hx, rfl⟩ := List.mem_map.mp hnames
    obtain ⟨y, hy, heq⟩ := List.mem_map.mp hnames'
    exact hne (hcancel f hf g hg x hx y hy heq.symm)

theorem nodup_expand (ht : t.Sound) (hcomponent : component ≠ ['*', '*'])
    (h : (folders.map namesOf).Nodup) :
    ((folders.flatMap (expand t foldersOnly component)).map namesOf).Nodup := by
  refine nodup_flatMap_expand ht h fun f _ g _ x hx y hy heq => ?_
  -- As many names are added to either folder, so they can be taken off at the end.
  have hx := length_of_mem_steps ht hcomponent hx
  have hy := length_of_mem_steps ht hcomponent hy
  exact List.append_inj_left' heq (hx.trans hy.symm)

theorem nodup_expand_star (ht : t.Sound) {n : Nat}
    (hlength : ∀ f ∈ folders, (namesOf f).length = n) (h : (folders.map namesOf).Nodup) :
    ((folders.flatMap (expand t foldersOnly ['*', '*'])).map namesOf).Nodup := by
  refine nodup_flatMap_expand ht h fun f hf g hg x _ y _ heq => ?_
  -- The folders are as long as each other, so what is added starts at the same place.
  exact List.append_inj_left heq ((hlength f hf).trans (hlength g hg).symm)

theorem length_of_expand (ht : t.Sound) (hcomponent : component ≠ ['*', '*']) {n : Nat}
    (hlength : ∀ f ∈ folders, (namesOf f).length = n) :
    ∀ g ∈ folders.flatMap (expand t foldersOnly component),
      (namesOf g).length = n + width component := by
  intro g hg
  obtain ⟨f, hf, hg⟩ := List.mem_flatMap.mp hg
  rw [expand_eq] at hg
  obtain ⟨x, hx, rfl⟩ := List.mem_map.mp hg
  rw [namesOf_join, List.length_append, hlength f hf, length_of_mem_steps ht hcomponent hx]

/-- Before `**` all paths are of one length; behind it that no longer matters. -/
theorem nodup_search (ht : t.Sound) {components : List (List Char)}
    (hstars : components.count ['*', '*'] ≤ 1) (h : (folders.map namesOf).Nodup)
    (hlength : ['*', '*'] ∈ components → ∃ n, ∀ f ∈ folders, (namesOf f).length = n) :
    ((search t folders components).map namesOf).Nodup := by
  induction components generalizing folders with
  | nil => exact h
  | cons component rest ih =>
    rw [search_cons]
    by_cases hstar : component = ['*', '*']
    · subst hstar
      rw [List.count_cons_self] at hstars
      obtain ⟨n, hn⟩ := hlength List.mem_cons_self
      have hrest : ['*', '*'] ∉ rest := List.count_eq_zero.mp (by omega)
      exact ih (by omega) (nodup_expand_star ht hn h) fun hmem => absurd hmem hrest
    · rw [List.count_cons_of_ne hstar] at hstars
      refine ih hstars (nodup_expand ht hstar h) fun hmem => ?_
      obtain ⟨n, hn⟩ := hlength (List.mem_cons_of_mem _ hmem)
      exact ⟨n + width component, length_of_expand ht hstar hn⟩

theorem nodup_search_head (ht : t.Sound) {components : List (List Char)}
    (hstars : components.count ['*', '*'] ≤ 1) (head : List Char) :
    ((search t [head] components).map namesOf).Nodup :=
  nodup_search ht hstars (List.nodup_singleton _) fun _ => ⟨_, List.forall_mem_singleton.mpr rfl⟩

/-- A path that starts like another and goes on without leading up. -/
def Onwards (f g : List Char) : Prop :=
  ∃ names, namesOf g = namesOf f ++ names ∧ ".." ∉ names ∧
    (g.head? = some '/' ↔ f.head? = some '/')

theorem Onwards.refl (f : List Char) : Onwards f f :=
  ⟨[], (List.append_nil _).symm, List.not_mem_nil, .rfl⟩

theorem Onwards.trans {f g h : List Char} (hfg : Onwards f g) (hgh : Onwards g h) :
    Onwards f h := by
  obtain ⟨names, hg, hdown, hstart⟩ := hfg
  obtain ⟨more, hh, hdown', hstart'⟩ := hgh
  refine ⟨names ++ more, by rw [hh, hg, List.append_assoc], ?_, hstart'.trans hstart⟩
  rw [List.mem_append]
  exact not_or.mpr ⟨hdown, hdown'⟩

theorem onwards_join {folder name : List Char} (hdown : ".." ∉ namesOf name)
    (hhead : name.head? ≠ some '/') : Onwards folder (join folder name) := by
  refine ⟨namesOf name, namesOf_join folder name, hdown, ?_⟩
  cases folder with
  | nil => simpa [join] using hhead
  | cons c cs =>
    have hjoin : ∃ rest, join (c :: cs) name = c :: rest := by
      unfold join
      split
      · contradiction
      split
      · exact ⟨cs ++ name, rfl⟩
      · exact ⟨cs ++ '/' :: name, rfl⟩
    obtain ⟨rest, hrest⟩ := hjoin
    rw [hrest, List.head?_cons, List.head?_cons]

theorem onwards_search (ht : t.Sound) {components : List (List Char)}
    (hdown : ∀ component ∈ components, LeadsDown component) {g : List Char}
    (hg : g ∈ search t folders components) : ∃ f ∈ folders, Onwards f g := by
  induction components generalizing folders with
  | nil => exact ⟨g, hg, .refl g⟩
  | cons component rest ih =>
    obtain ⟨hcomponent, hrest⟩ := List.forall_mem_cons.mp hdown
    rw [search_cons] at hg
    obtain ⟨f', hf', hon⟩ := ih hrest hg
    obtain ⟨f, hf, hexpand⟩ := List.mem_flatMap.mp hf'
    rw [expand_eq] at hexpand
    obtain ⟨x, hx, rfl⟩ := List.mem_map.mp hexpand
    obtain ⟨hup, hhead⟩ := down_of_mem_steps ht hcomponent hx
    exact ⟨f, hf, (onwards_join hup hhead).trans hon⟩

end Search

theorem mem_split_of_mem_componentsOf {cs component : List Char}
    (h : component ∈ componentsOf cs) : component ∈ Path.split cs := by
  rcases List.mem_append.mp h with h | h
  · exact (List.dropLast_sublist _).subset (List.mem_filter.mp h).1
  · exact List.mem_of_mem_drop h

/-- The components of a pattern hold no slash. -/
theorem noSlash_of_mem_components {cs component : List Char}
    (h : component ∈ (Pattern.ofChars cs).components) : '/' ∉ component := fun hslash =>
  Text.not_isMark_of_mem_split (mem_split_of_mem_componentsOf h) hslash (by simp)

/-- A pattern that leads to no file in two ways: behind its head `**` stands once at most, and two
dots do not stand at all. -/
structure Direct (pattern : String) : Prop where
  stars : (Pattern.ofChars pattern.toList).components.count ['*', '*'] ≤ 1
  down : ['.', '.'] ∉ (Pattern.ofChars pattern.toList).components

instance (pattern : String) : Decidable (Direct pattern) :=
  decidable_of_iff (_ ∧ _) ⟨fun h => ⟨h.1, h.2⟩, fun h => ⟨h.stars, h.down⟩⟩

theorem ne_of_mem_namesOf {cs : List Char} {name : String} (h : name ∈ namesOf cs) :
    name ≠ "" ∧ name ≠ "." := by
  rw [namesOf_eq] at h
  obtain ⟨part, hpart, rfl⟩ := List.mem_map.mp h
  obtain ⟨-, hparts⟩ := List.mem_filter.mp hpart
  obtain ⟨hempty, hdot⟩ := of_decide_eq_true hparts
  exact ⟨fun h => hempty (String.ofList_injective h), fun h => hdot (String.ofList_injective h)⟩

/-- A path that goes on from a text leads from the place of that text down, name by name. -/
theorem Onwards.exists_of_locate {t : FileTree} {head f : List Char} (h : Onwards head f)
    {place : Place} {e : Option Entry}
    (hlocate : t.locate (.ofText (String.ofList f)) = .ok (place, e)) :
    ∃ q e' names, t.follow (t.start (head.head? = some '/')) (namesOf head) = .ok (q, e') ∧
      namesOf f = namesOf head ++ names ∧ place = q ++ names := by
  obtain ⟨names, hnames, hdown, hstart⟩ := h
  have hwhole := follow_of_locate hlocate
  rw [Path.isAbsolute_ofText, decide_eq_decide.mpr hstart] at hwhole
  change t.follow _ (namesOf f) = _ at hwhole
  have hproper : ∀ name ∈ names, name ≠ "" ∧ name ≠ "." ∧ name ≠ ".." := by
    intro name hname
    have hmem : name ∈ namesOf f := by rw [hnames]; exact List.mem_append_right _ hname
    obtain ⟨hempty, hdot⟩ := ne_of_mem_namesOf hmem
    exact ⟨hempty, hdot, ne_of_mem_of_not_mem hname hdown⟩
  rw [hnames] at hwhole
  obtain ⟨q, e', hfollow, hplace⟩ := exists_of_follow_append hproper hwhole
  exact ⟨q, e', names, hfollow, hnames, hplace⟩

theorem not_sameFile_of_onwards {t : FileTree} {head f g : List Char} (hf : Onwards head f)
    (hg : Onwards head g) (hne : namesOf f ≠ namesOf g) :
    ¬ t.SameFile (.ofText (String.ofList f)) (.ofText (String.ofList g)) := by
  rintro ⟨place, c, hfile, hfile'⟩
  obtain ⟨q, e, names, hfollow, hnames, hplace⟩ := hf.exists_of_locate hfile
  obtain ⟨q', e', names', hfollow', hnames', hplace'⟩ := hg.exists_of_locate hfile'
  obtain ⟨rfl, -⟩ := Prod.mk.inj (Except.ok.inj (hfollow.symm.trans hfollow'))
  obtain rfl := List.append_cancel_left (hplace.symm.trans hplace')
  exact hne (hnames.trans hnames'.symm)

/-- Under a direct pattern no file is found in two ways. -/
theorem pairwise_paths {t : FileTree} (ht : t.Sound) {pattern : String} (hpattern : Direct pattern)
    {all : List (List Char)} (h : paths t pattern = .ok all) :
    all.Pairwise fun f g =>
      ¬ t.SameFile (.ofText (String.ofList f)) (.ofText (String.ofList g)) := by
  unfold paths at h
  dsimp only at h
  split at h
  · split at h
    · cases h
    cases h
    have hleads : ∀ component ∈ (Pattern.ofChars pattern.toList).components,
        LeadsDown component := fun component hmem =>
      ⟨noSlash_of_mem_components hmem, ne_of_mem_of_not_mem hmem hpattern.down⟩
    have hone {head f : List Char}
        (hf : f ∈ search t [head] (Pattern.ofChars pattern.toList).components) :
        Onwards head f := by
      obtain ⟨_, hhead, hon⟩ := onwards_search ht hleads hf
      rwa [List.mem_singleton.mp hhead] at hon
    have hnames := nodup_search_head ht hpattern.stars (Pattern.ofChars pattern.toList).head
    exact (List.pairwise_map.mp hnames).imp_of_mem fun hf hg hne =>
      not_sameFile_of_onwards (hone hf) (hone hg) hne
  · cases h
    unfold plain
    split
    · exact List.pairwise_singleton _ _
    · exact .nil

theorem pairwise_files {t : FileTree} (ht : t.Sound) {pattern : String} (hpattern : Direct pattern)
    {inputs : List Path} (h : files t pattern = .ok inputs) :
    inputs.Pairwise fun p q => ¬ t.SameFile p q := by
  obtain ⟨texts, ⟨⟨all, hall, hperm⟩, -⟩, rfl⟩ := finds_of_files h
  refine List.pairwise_map.mpr (hperm.symm.pairwise ?_ fun hne hsame => hne hsame.symm)
  exact (List.pairwise_map.mpr (pairwise_paths ht hpattern hall)).filter _

end Glob

end Bindery
