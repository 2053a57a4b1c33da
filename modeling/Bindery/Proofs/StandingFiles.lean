import Bindery.Proofs.GeneratedFiles
import Bindery.Proofs.NestedTree

/-!
# Files that were there before

A call without force plans a binding only where it finds nothing, and writes it when the output
folder has been made. A path that led through nothing before may then come back, over two dots, to a
folder that was there all along; its files were not seen by the check and are written over. This is
the only way in which calls change a file that they find, other than the support modules.
-/

namespace Bindery.Binding

variable {levels : ℕ} {t u v : FileTree} {out : Path} {base : Place} {js : List Job}

structure Order where
  pattern : Option String
  folder : Option String
  levels : ℕ

namespace Order

def after (o : Order) (t : FileTree) : FileTree :=
  ((generate o.levels o.pattern o.folder false).run t).2.tree

def SupportAt (o : Order) (t : FileTree) (place : Place) : Prop :=
  ∃ text e, o.folder = some text ∧ t.locate (supportTarget (.ofText text)) = .ok (place, e)

end Order

def Makes (t : FileTree) (out : Path) (v : FileTree) : Prop :=
  ∃ logs, (Generation.makeFolders out).exec ⟨t, []⟩ = (.ok (), ⟨v, logs⟩)

/-- A call comes to write a binding over a file: the path of its folder led to none when the plan
was made and leads to the folder of the file when that has been made. -/
inductive Order.Overwrites (o : Order) (t : FileTree) : Prop
  | intro {out : Path} {js : List Job} {v : FileTree} {base : Place} {name : String} {x : Output}
      {c : Bytes} (planned : plan o.levels t o.pattern o.folder false = .ok (out, js))
      (away : ¬ t.isFolder out) (made : Makes t out v)
      (back : v.locate out = .ok (base, some .folder)) (reached : x ∈ written v (outputs out js))
      (target : x.target = out.child name) (binding : x.target ≠ supportTarget out)
      (standing : t.entry? (base ++ [name]) = some (.file c)) (other : c ≠ x.bytes)

theorem present_of_job {before : List Job} {input : Path} {j : Job}
    (h : job levels t out false before input = .ok j) : t.present j.target = .ok false := by
  unfold job at h
  dsimp only at h
  split at h
  · exact absurd h throw_bind_ne_ok
  obtain ⟨there, hthere, h⟩ := bind_eq_ok.mp h
  split at h
  · exact absurd h throw_bind_ne_ok
  rename_i habsent
  obtain ⟨abi, -, h⟩ := bind_eq_ok.mp h
  cases h
  rw [mapError_eq_ok.mp hthere]
  simpa using habsent

theorem present_of_jobs {inputs : List Path} {before : List Job}
    (h : jobs levels t out false before inputs = .ok js)
    (hbefore : ∀ j ∈ before, t.present j.target = .ok false) :
    ∀ j ∈ js, t.present j.target = .ok false := by
  induction inputs generalizing before with
  | nil =>
    cases h
    exact hbefore
  | cons input rest ih =>
    rw [jobs] at h
    cases hjob : job levels t out false before input with
    | error e => simp [hjob] at h
    | ok j =>
      rw [hjob] at h
      refine ih h fun k hk => ?_
      rcases List.mem_append.mp hk with hk | hk
      · exact hbefore k hk
      · rw [List.mem_singleton.mp hk]
        exact present_of_job hjob

/-- Without force nothing is planned where the check finds something. -/
theorem present_of_plan {pattern folder : Option String}
    (h : plan levels t pattern folder false = .ok (out, js)) :
    ∀ j ∈ js, t.present j.target = .ok false := by
  unfold plan at h
  cases folder with
  | none => cases h
  | some text =>
    obtain ⟨inputs, -, h⟩ := bind_eq_ok.mp h
    dsimp only at h
    split at h
    · exact absurd h throw_bind_ne_ok
    obtain ⟨js', hjs, h⟩ := bind_eq_ok.mp h
    cases h
    exact present_of_jobs hjs nofun

theorem Makes.extends (h : Makes t out v) : t.Extends v := by
  obtain ⟨logs, hmade⟩ := h
  have hextends := Generation.extends_makeFolders out ⟨t, []⟩
  rwa [hmade] at hextends

theorem Makes.exists_locate (h : Makes t out v) :
    ∃ base, v.locate out = .ok (base, some .folder) := by
  obtain ⟨logs, hmade⟩ := h
  exact FileTree.isFolder_iff.mp (Generation.isFolder_of_makeFolders hmade)

namespace Order

variable {o : Order}

theorem after_eq (hplan : plan o.levels t o.pattern o.folder false = .ok (out, js)) :
    o.after t = ((carryOut out js).exec ⟨t, []⟩).2.tree := by
  rw [after, Generation.run_eq_exec, generate, Generation.exec_bind, Generation.exec_tree]
  dsimp only
  rw [Generation.exec_bind, Generation.exec_ofExcept, hplan]

theorem after_of_makes (hplan : plan o.levels t o.pattern o.folder false = .ok (out, js))
    (hmade : Makes t out v) : o.after t = writeAll v (outputs out js) := by
  obtain ⟨logs, hmade⟩ := hmade
  rw [after_eq hplan, carryOut, Generation.exec_bind, hmade]
  exact Generation.tree_writeOutputs out js ⟨v, logs⟩

/-- A call makes folders at most, or it has made its own and writes files into that. -/
theorem after_cases (o : Order) (t : FileTree) :
    t.Extends (o.after t) ∨ ∃ out js v, plan o.levels t o.pattern o.folder false = .ok (out, js) ∧
      Makes t out v ∧ o.after t = writeAll v (outputs out js) := by
  cases hplan : plan o.levels t o.pattern o.folder false with
  | error e =>
    have hsame : o.after t = t := by
      rw [after, Generation.run_eq_exec, generate, Generation.exec_bind, Generation.exec_tree]
      dsimp only
      rw [Generation.exec_bind, Generation.exec_ofExcept, hplan]
    rw [hsame]
    exact .inl (.refl t)
  | ok r =>
    obtain ⟨out, js⟩ := r
    rcases hmade : (Generation.makeFolders out).exec ⟨t, []⟩ with ⟨e | _, w⟩
    · have hextends := Generation.extends_makeFolders out ⟨t, []⟩
      rw [hmade] at hextends
      rw [after_eq hplan, carryOut, Generation.exec_bind, hmade]
      exact .inl hextends
    · have hmakes : Makes t out w.tree := ⟨w.logs, hmade⟩
      exact .inr ⟨out, js, w.tree, rfl, hmakes, after_of_makes hplan hmakes⟩

end Order

/-- Of the files of one job at most one can be written. -/
theorem targets_written_sublist (v : FileTree) (js : List Job) :
    ((written v (js.flatMap Job.outputs)).map (·.target)).Sublist (js.map (·.target)) := by
  induction js with
  | nil => exact .slnil
  | cons j js ih =>
    rw [List.flatMap_cons, List.map_cons, Job.outputs]
    cases j.abi.functions.findSome? brokenType? with
    | none =>
      rw [written, List.singleton_append, List.takeWhile_cons]
      split
      · exact ih.cons_cons j.target
      · exact List.nil_sublist _
    | some b =>
      rw [written, List.cons_append, List.takeWhile_cons]
      split
      · rw [List.singleton_append, List.takeWhile_cons_of_neg Bool.false_ne_true]
        exact (List.nil_sublist _).cons_cons j.target
      · exact List.nil_sublist _

/-- The bindings that are written have paths of their own. -/
theorem lastBytes_written {x : Output} (hnodup : (js.map (·.target)).Nodup)
    (hx : x ∈ written v (outputs out js)) (hbinding : x.target ≠ supportTarget out) :
    lastBytes x.target (written v (outputs out js)) = some x.bytes := by
  rw [written, outputs, List.takeWhile_cons] at hx ⊢
  split at hx
  · rename_i hwritable
    rw [if_pos hwritable]
    have hmem : x ∈ written v (js.flatMap Job.outputs) := by
      rcases List.mem_cons.mp hx with rfl | hx
      · exact absurd rfl hbinding
      · exact hx
    have hpaths := hnodup.sublist (targets_written_sublist v js)
    rw [lastBytes, ← written, lastBytes_of_mem hpaths hmem, Option.some_or]
  · exact absurd hx List.not_mem_nil

/-- A file that is written is found in the end where its path led when its folder was made. -/
theorem locate_of_written {xs : List Output} {x : Output} {name : String}
    (hbase : v.locate out = .ok (base, some .folder)) (hx : x ∈ written v xs)
    (hname : x.target = out.child name) :
    v.isFolderAt base ∧ ∀ u, v.Keeps u →
      u.locate x.target = .ok (base ++ [name], u.entry? (base ++ [name])) := by
  have hwritable := List.all_eq_true.mp List.all_takeWhile x hx
  obtain ⟨-, w, hw⟩ := Output.writable_iff.mp hwritable
  rw [hname] at hw ⊢
  obtain ⟨hfits, hproper, hfolder, -, -⟩ := (FileTree.writeFile_child_eq_ok hbase).mp hw
  refine ⟨hfolder, fun u hkeeps => ?_⟩
  rw [FileTree.locate_child (FileTree.locate_keeps hkeeps hbase) hfits,
    FileTree.enter_of_proper (hkeeps.folder base hfolder) hproper]

theorem entry?_of_written {x : Output} {name : String}
    (hbase : v.locate out = .ok (base, some .folder)) (hxs : InFolder out (outputs out js))
    (hnodup : (js.map (·.target)).Nodup) (hx : x ∈ written v (outputs out js))
    (hname : x.target = out.child name) (hbinding : x.target ≠ supportTarget out) :
    FileTree.entry? (writeAll v (outputs out js)) (base ++ [name]) = some (.file x.bytes) := by
  have hfile := file?_writeAll hbase hxs hx
  rw [lastBytes_written hnodup hx hbinding, hname] at hfile
  have hkept := FileTree.locate_keeps (keeps_writeAll v (outputs out js)) hbase
  exact (FileTree.locate_of_file?_child hkept hfile).2

theorem place_of_supportTarget {place : Place} {e : Option Entry}
    (hbase : v.locate out = .ok (base, some .folder))
    (hlocate : v.locate (supportTarget out) = .ok (place, e)) :
    place = base ++ [runtimeModule ++ ".py"] := by
  have hproper : FileTree.IsProper (runtimeModule ++ ".py") := by
    unfold FileTree.IsProper
    decide +kernel
  rw [supportTarget] at hlocate
  have hfits := FileTree.fits_of_locate (t := v) (p := out.child (runtimeModule ++ ".py"))
    (by simp [hlocate])
  rw [FileTree.locate_child hbase hfits] at hlocate
  rw [FileTree.enter_of_proper (FileTree.enter_eq_ok hlocate).1 hproper] at hlocate
  cases hlocate
  rfl

/-- Nothing is made where the folder is there. -/
theorem Makes.eq_of_isFolder (h : Makes t out v) (hfolder : t.isFolder out) : v = t := by
  obtain ⟨logs, hmade⟩ := h
  have hnul : ¬ out.hasNul := by
    intro hnul
    rw [Generation.exec_makeFolders, if_pos hnul] at hmade
    cases hmade
  obtain ⟨base, hbase⟩ := FileTree.isFolder_iff.mp hfolder
  have hlacks : ¬ t.Lacks out := by
    rintro (⟨place, hnone⟩ | hmissing)
    · rw [hbase] at hnone
      cases hnone
    · rw [hbase] at hmissing
      cases hmissing
  obtain ⟨e, hexec⟩ := @Generation.exec_makeFolders_of_not_lacks out ⟨t, []⟩ hnul hlacks
  rw [if_pos hfolder, hmade] at hexec
  cases hexec
  rfl

/-- Where the folder is there, the check sees each file that a binding would be written over. -/
theorem Makes.not_standing (h : Makes t out v) (hfolder : t.isFolder out)
    (hbase : v.locate out = .ok (base, some .folder))
    (hpresent : ∀ j ∈ js, t.present j.target = .ok false)
    {x : Output} (hx : x ∈ written v (outputs out js)) {name : String}
    (hname : x.target = out.child name) (hbinding : x.target ≠ supportTarget out) {c : Bytes} :
    t.entry? (base ++ [name]) ≠ some (.file c) := by
  intro hfile
  obtain rfl := h.eq_of_isFolder hfolder
  have hlocate := (locate_of_written hbase hx hname).2 v (.refl v)
  have hmem : x ∈ outputs out js := (List.takeWhile_sublist _).subset hx
  rcases List.mem_cons.mp hmem with rfl | hmem
  · exact hbinding rfl
  · obtain ⟨j, hj, hmem⟩ := List.mem_flatMap.mp hmem
    have hnone := hpresent j hj
    rw [target_of_mem_outputs hmem] at hlocate
    rw [FileTree.present, hlocate, hfile] at hnone
    cases hnone

namespace Order

variable {o : Order}

/-- A call that writes no binding over a file keeps each that it finds, but for its support
module. -/
theorem entry?_after (h : ¬ o.Overwrites t) {place : Place} {c : Bytes}
    (hfile : t.entry? place = some (.file c)) :
    FileTree.entry? (o.after t) place = some (.file c) ∨ o.SupportAt (o.after t) place := by
  rcases o.after_cases t with hextends | ⟨out, js, v, hplan, hmade, hafter⟩
  · exact .inl (hextends.entry?_of_file hfile)
  rw [hafter]
  obtain ⟨base, hbase⟩ := hmade.exists_locate
  have hxs := inFolder_outputs hplan
  obtain ⟨text, inputs, hfolder, rfl, -, -, -, hnodup⟩ := plan_eq_ok hplan
  by_cases hplace : ∃ x ∈ written v (outputs (.ofText text) js), ∃ name,
      x.target = (Path.ofText text).child name ∧ place = base ++ [name]
  · obtain ⟨x, hx, name, hname, rfl⟩ := hplace
    by_cases hsupport : x.target = supportTarget (.ofText text)
    · have hkeeps := keeps_writeAll v (outputs (.ofText text) js)
      have hlocate := (locate_of_written hbase hx hname).2 _ hkeeps
      rw [hsupport] at hlocate
      exact .inr ⟨text, _, hfolder, hlocate⟩
    · refine .inl ?_
      rw [entry?_of_written hbase hxs hnodup hx hname hsupport]
      by_contra hother
      have hbytes : c ≠ x.bytes := fun hc => hother (by rw [hc])
      refine h (.intro hplan (fun hthere => ?_) hmade hbase hx hname hsupport hfile hbytes)
      exact hmade.not_standing hthere hbase (present_of_plan hplan) hx hname hsupport hfile
  · refine .inl ?_
    rw [entry?_writeAll hbase hxs fun x hx name hname heq => hplace ⟨x, hx, name, hname, heq⟩]
    exact hmade.extends.entry?_of_file hfile

theorem exists_changed_of_overwrites (h : o.Overwrites t) :
    ∃ place c, t.entry? place = some (.file c) ∧
      FileTree.entry? (o.after t) place ≠ some (.file c) ∧
      ¬ o.SupportAt (o.after t) place := by
  obtain ⟨hplan, -, hmade, hbase, hx, hname, hbinding, hfile, hother⟩ := h
  rename_i out js v base name x c
  have hxs := inFolder_outputs hplan
  obtain ⟨text, inputs, hfolder, rfl, -, -, -, hnodup⟩ := plan_eq_ok hplan
  have hentry := entry?_of_written hbase hxs hnodup hx hname hbinding
  rw [← after_of_makes hplan hmade] at hentry
  refine ⟨base ++ [name], c, hfile, ?_, ?_⟩
  · rw [hentry]
    intro hsame
    cases hsame
    exact hother rfl
  · rintro ⟨text', e, htext, hlocate⟩
    obtain rfl := Option.some.inj (hfolder.symm.trans htext)
    rw [after_of_makes hplan hmade] at hlocate
    have hkept := FileTree.locate_keeps (keeps_writeAll v (outputs (.ofText text) js)) hbase
    have hplace := place_of_supportTarget hkept hlocate
    rw [List.append_right_inj, List.singleton_inj] at hplace
    exact hbinding (by rw [hname, hplace, supportTarget])

theorem nested_after (o : Order) (h : t.Nested) : (o.after t).Nested :=
  Generation.lasting_nested.along_generate o.levels o.pattern o.folder false ⟨t, []⟩ h

def Straight (o : Order) : Prop := ∀ text, o.folder = some text → ".." ∉ (Path.ofText text).names

/-- A path that goes down leads to a folder that was there only if it did so before. -/
theorem not_overwrites_of_straight (hnested : t.Nested) (hstraight : o.Straight) :
    ¬ o.Overwrites t := by
  rintro ⟨hplan, haway, hmade, hbase, -, -, -, hfile, -⟩
  rename_i out js v base name x c
  obtain ⟨text, -, hfolder, rfl, -⟩ := plan_eq_ok hplan
  have hthere := hnested.parent (base ++ [name]) (by rw [hfile]; rfl)
  rw [List.dropLast_concat] at hthere
  have hlocate :=
    FileTree.locate_of_extends hnested hmade.extends (hstraight text hfolder) hthere hbase
  exact haway (FileTree.isFolder_iff.mpr ⟨base, hlocate⟩)

end Order

def after (t : FileTree) : List Order → FileTree
  | [] => t
  | o :: rest => after (o.after t) rest

theorem after_append (t : FileTree) (before later : List Order) :
    after t (before ++ later) = after (after t before) later := by
  induction before generalizing t with
  | nil => rfl
  | cons o rest ih => exact ih (o.after t)

theorem nested_after (h : t.Nested) (orders : List Order) : (after t orders).Nested := by
  induction orders generalizing t with
  | nil => exact h
  | cons o rest ih => exact ih (o.nested_after h)

def SupportIn (t : FileTree) : List Order → Place → Prop
  | [], _ => False
  | o :: rest, place => o.SupportAt (o.after t) place ∨ SupportIn (o.after t) rest place

/-- Along some calls every file that is there keeps its bytes, but for the support modules. -/
def Spared (t : FileTree) (orders : List Order) : Prop :=
  ∀ place c, t.entry? place = some (.file c) →
    FileTree.entry? (after t orders) place = some (.file c) ∨ SupportIn t orders place

theorem spared_of_not_overwrites {orders : List Order}
    (h : ∀ before o rest, orders = before ++ o :: rest → ¬ o.Overwrites (after t before)) :
    Spared t orders := by
  induction orders generalizing t with
  | nil => exact fun place c hfile => .inl hfile
  | cons o rest ih =>
    intro place c hfile
    rcases o.entry?_after (h [] o rest rfl) hfile with hkept | hsupport
    · have hrest := @ih (o.after t) fun before o' rest' heq =>
        h (o :: before) o' rest' (by rw [heq]; rfl)
      rcases hrest place c hkept with hkept | hsupport
      · exact .inl hkept
      · exact .inr (.inr hsupport)
    · exact .inr (.inl hsupport)

theorem not_overwrites_of_spared {o : Order} (h : Spared t [o]) : ¬ o.Overwrites t := by
  intro hover
  obtain ⟨place, c, hfile, hchanged, hnone⟩ := o.exists_changed_of_overwrites hover
  rcases h place c hfile with hkept | hsupport | hsupport
  · exact hchanged hkept
  · exact hnone hsupport
  · exact hsupport

def SparedThroughout (t : FileTree) (orders : List Order) : Prop :=
  ∀ before later rest, orders = before ++ later ++ rest → Spared (after t before) later

theorem sparedThroughout_iff {orders : List Order} :
    SparedThroughout t orders ↔
      ∀ before o rest, orders = before ++ o :: rest → ¬ o.Overwrites (after t before) := by
  constructor
  · intro h before o rest heq
    exact not_overwrites_of_spared (h before [o] rest (by rw [heq]; simp))
  · intro h before later rest heq
    apply spared_of_not_overwrites
    intro during o rest' hlater
    rw [← after_append]
    exact h (before ++ during) o (rest' ++ rest) (by rw [heq, hlater]; simp)

/-- All files are spared along some calls just when no call writes a binding over a file that it
finds only when its folder has been made. Where the entries of the tree are in folders, no call does
whose path goes down. -/
theorem sparedThroughout_iff_straight (t : FileTree) (orders : List Order) :
    (SparedThroughout t orders ↔
        ∀ before o rest, orders = before ++ o :: rest → ¬ o.Overwrites (after t before)) ∧
      (t.Nested → (∀ o ∈ orders, o.Straight) → SparedThroughout t orders) := by
  refine ⟨sparedThroughout_iff, fun hnested hstraight => ?_⟩
  apply sparedThroughout_iff.mpr
  intro before o rest heq
  apply Order.not_overwrites_of_straight (nested_after hnested before)
  exact hstraight o (by rw [heq]; simp)

theorem sparedThroughout_repeated :
    let o : Order := ⟨some "T.json", some "out", 960⟩
    let other : Order := ⟨some "*.json", some "out/more", 960⟩
    besideSupport.Nested ∧ (∀ o' ∈ [o, other, o], o'.Straight) ∧
      SparedThroughout besideSupport [o, other, o] := by
  intro o other
  have hnested : besideSupport.Nested := FileTree.nested_of_entries (by decide +kernel) rfl
  have hstraight : ∀ o' ∈ [o, other, o], o'.Straight := by
    have hdown : ∀ text ∈ ["out", "out/more"], ".." ∉ (Path.ofText text).names := by decide +kernel
    intro o' ho' text htext
    have hfolders : ∀ p ∈ [o, other, o], ∀ text ∈ p.folder, text ∈ ["out", "out/more"] := by
      decide +kernel
    exact hdown text (hfolders o' ho' text htext)
  exact ⟨hnested, hstraight,
    (sparedThroughout_iff_straight besideSupport [o, other, o]).2 hnested hstraight⟩

/-- A file stands in the folder to which the path comes back once a folder has been made. -/
def sheltered : FileTree :=
  ⟨[ (["T.json"], .file (Text.encodeUtf8 "\x7b\"hash\": \"00\", \"functions\": []\x7d")),
    (["out"], .folder), (["out", "T.py"], .file (Text.encodeUtf8 "x")) ], []⟩

/-- The path of the output folder leads through nothing, so the check does not find the file. -/
theorem not_spared_sheltered :
    sheltered.Nested ∧ ¬ Spared sheltered [⟨some "T.json", some "x/../out", 960⟩] := by
  refine ⟨FileTree.nested_of_entries (by decide +kernel) rfl, fun h => ?_⟩
  let u := Order.after ⟨some "T.json", some "x/../out", 960⟩ sheltered
  have hplaces : (u.locate (supportTarget (.ofText "x/../out"))).toOption.map Prod.fst =
        some ["out", "typetology_runtime.py"] ∧
      (u.locate (targetOf (.ofText "x/../out") (.ofText "T.json"))).toOption.map Prod.fst =
        some ["out", "T.py"] := by decide +kernel
  have hok : ((generate 960 (some "T.json") (some "x/../out") false).run sheltered).1.isOk := by
    decide +kernel
  obtain ⟨paths, hpaths⟩ := exists_eq_ok hok
  obtain ⟨_, inputs, hfolder, hinputs, -, hleaves⟩ := leaves_of_generate (Prod.ext hpaths rfl)
  obtain rfl := Option.some.inj hfolder
  have hfound : Glob.files sheltered "T.json" = .ok [.ofText "T.json"] := by decide +kernel
  obtain rfl := Except.ok.inj (hfound.symm.trans hinputs)
  obtain ⟨content, abi, text, -, -, hsource, hfile⟩ := hleaves.bindings _ List.mem_cons_self
  obtain ⟨place, hlocate⟩ := FileTree.file?_eq_some_iff.mp hfile
  obtain rfl : place = ["out", "T.py"] := by
    have hplace := hplaces.2
    change (u.locate _) = _ at hlocate
    rw [hlocate] at hplace
    exact Option.some.inj hplace
  have hentry := (FileTree.locate_eq_ok hlocate).resolve_left (by simp)
  have hstanding : sheltered.entry? ["out", "T.py"] = some (.file (Text.encodeUtf8 "x")) := by
    decide +kernel
  rcases h _ _ hstanding with hkept | ⟨_, e, htext, hsupport⟩ | hnone
  · obtain ⟨rest, hrest⟩ := exists_toList_source hsource
    obtain rfl : text = "x" := by
      have hsame := hentry.trans hkept
      exact Text.encodeUtf8_injective (Entry.file.inj (Option.some.inj hsame))
    simp at hrest
  · obtain rfl := Option.some.inj htext
    have hplace := hplaces.1
    rw [show u.locate _ = _ from hsupport] at hplace
    simp [Except.toOption] at hplace
  · exact hnone

end Bindery.Binding
