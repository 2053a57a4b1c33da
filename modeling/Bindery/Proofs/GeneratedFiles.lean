import Bindery.Proofs.AllOrNothing
import Bindery.Proofs.EmbeddedLiteral
import Bindery.Proofs.Utf8

/-!
# What a generation that succeeds leaves behind

Where a generation gives its paths, its folder has been made and all its files have been written
into that. The bindings have paths of their own, so each of them is there in the end. The support
module is written first, and no binding is checked against it: one that goes by its name takes its
place.
-/

namespace Bindery

structure Glob.Finds (t : FileTree) (pattern : String) (texts : List String) : Prop where
  found : ∃ all, Glob.paths t pattern = .ok all ∧
    texts.Perm ((all.map String.ofList).filter fun s => (t.file? (.ofText s)).isSome)
  sorted : texts.Pairwise (· ≤ ·)

theorem Glob.Finds.exists_file? {t : FileTree} {pattern : String} {texts : List String}
    (h : Glob.Finds t pattern texts) {input : Path} (hinput : input ∈ texts.map Path.ofText) :
    ∃ content, t.file? input = some content := by
  obtain ⟨s, hs, rfl⟩ := List.mem_map.mp hinput
  obtain ⟨all, -, hperm⟩ := h.found
  exact Option.isSome_iff_exists.mp (List.mem_filter.mp (hperm.mem_iff.mp hs)).2

theorem Glob.finds_of_files {t : FileTree} {pattern : String} {inputs : List Path}
    (h : Glob.files t pattern = .ok inputs) :
    ∃ texts, Glob.Finds t pattern texts ∧ inputs = texts.map Path.ofText := by
  obtain ⟨all, hall, h⟩ := bind_eq_ok.mp h
  cases h
  refine ⟨_, ⟨⟨all, hall, List.mergeSort_perm _ _⟩, ?_⟩, rfl⟩
  have hsorted := @List.pairwise_mergeSort String (fun a b => decide (a ≤ b))
    (by simpa using fun a b c => String.le_trans) (by simpa using String.le_total)
    ((all.map String.ofList).filter fun s => (t.file? (.ofText s)).isSome)
  exact hsorted.imp of_decide_eq_true

namespace Binding

variable {levels : ℕ} {t u : FileTree} {out : Path} {base : Place} {js : List Job}

theorem toList_unlines_cons (line : String) (ls : List String) :
    (unlines (line :: ls)).toList = line.toList ++ '\n' :: (unlines ls).toList := by
  simp [unlines]

/-- The first line of a binding is nothing but three quotation marks. -/
theorem exists_toList_source {contract runtime : String} {abi : Abi} {text : String}
    (h : source contract runtime abi = .ok text) :
    ∃ rest, text.toList = '"' :: '"' :: '"' :: '\n' :: rest := by
  obtain ⟨document, hdocument, hsource⟩ := bind_eq_ok.mp h
  have hlong : ¬ document.hasLongInteger := by
    intro hlong
    rw [if_pos hlong] at hsource
    cases hsource
  obtain ⟨ms, hpreamble⟩ : ∃ ms, preamble (className contract) runtime = "\"\"\"" :: ms := ⟨_, rfl⟩
  rw [source_eq contract runtime hdocument hlong, head_eq, hpreamble] at h
  obtain rfl := Except.ok.inj h
  simp [toList_unlines_cons]

/-- The first line of a binding ends where that of the support module goes on. -/
theorem source_ne_supportSource {contract runtime : String} {abi : Abi} :
    source contract runtime abi ≠ .ok supportSource := by
  intro h
  obtain ⟨rest, hrest⟩ := exists_toList_source h
  obtain ⟨ls, hsupport⟩ : ∃ ls, supportLines =
      "\"\"\"Runtime support for generated typetology contract bindings." :: ls := ⟨_, rfl⟩
  rw [supportSource, hsupport, toList_unlines_cons] at hrest
  simp at hrest

theorem targetOf_eq_supportTarget_iff {input : Path} :
    targetOf out input = supportTarget out ↔ input.stem = runtimeModule := by
  simp [targetOf, supportTarget, Path.child, String.append_left_inj]

/-- In `u` the target of an input holds the binding for what the input holds in `t`. -/
def Bound (levels : ℕ) (t u : FileTree) (out input : Path) : Prop :=
  ∃ content abi text, t.file? input = some content ∧
    Abi.parse levels (.blob .fixed content) = .ok abi ∧
    source input.stem runtimeModule abi = .ok text ∧
      u.file? (targetOf out input) = some (Text.encodeUtf8 text)

/-- What a generation for some inputs that gives `paths` makes of a tree. -/
structure Leaves (levels : ℕ) (t u : FileTree) (out : Path) (inputs paths : List Path) :
    Prop where
  targets : paths = inputs.map (targetOf out)
  nodup : paths.Nodup
  bindings : ∀ input ∈ inputs, Bound levels t u out input
  /-- A binding takes the place of the support module just when it goes by its name. -/
  support : u.file? (supportTarget out) = some (Text.encodeUtf8 supportSource) ↔
    ∀ input ∈ inputs, input.stem ≠ runtimeModule
  work : u.work = t.work
  /-- What is at no target is as it was, or a folder where there was nothing. -/
  others : ∀ place, (∀ p ∈ supportTarget out :: paths, ∀ e, u.locate p ≠ .ok (place, e)) →
    u.entry? place = t.entry? place ∨ t.entry? place = none ∧ u.entry? place = some .folder

theorem lastBytes_of_mem {xs : List Output} (h : (xs.map (·.target)).Nodup) {x : Output}
    (hx : x ∈ xs) : lastBytes x.target xs = some x.bytes := by
  induction xs with
  | nil => cases hx
  | cons y xs ih =>
    obtain ⟨hy, hrest⟩ := List.nodup_cons.mp h
    rw [lastBytes]
    rcases List.mem_cons.mp hx with rfl | hx
    · have hnone : lastBytes x.target xs = none :=
        lastBytes_eq_none_iff.mpr fun z hz htarget => hy (List.mem_map.mpr ⟨z, hz, htarget⟩)
      rw [hnone, Option.none_or, if_pos rfl]
    · rw [ih hrest hx, Option.some_or]

def Job.output (j : Job) : Output := ⟨j.target, source j.contract runtimeModule j.abi⟩

/-- All of some files can be written into the folder `out`, which is at `base`. -/
structure Complete (t : FileTree) (out : Path) (base : Place) (xs : List Output) : Prop where
  folder : t.locate out = .ok (base, some .folder)
  inFolder : InFolder out xs
  written : written t xs = xs

namespace Complete

variable {xs : List Output} {x : Output}

theorem file? (h : Complete t out base xs) (hx : x ∈ xs) :
    (writeAll t xs).file? x.target = lastBytes x.target xs := by
  have hwritten : x ∈ Binding.written t xs := by rwa [h.written]
  have hfile := file?_writeAll h.folder h.inFolder hwritten
  rwa [h.written] at hfile

theorem exists_text (h : Complete t out base xs) (hx : x ∈ xs) :
    ∃ text, x.text = .ok text ∧ x.bytes = Text.encodeUtf8 text := by
  have hwritten : x ∈ Binding.written t xs := by rwa [h.written]
  have hwritable := List.all_eq_true.mp List.all_takeWhile x hwritten
  obtain ⟨text, htext⟩ := (Output.writable_iff.mp hwritable).1
  exact ⟨text, htext, by rw [Output.bytes, htext]⟩

/-- Each of the files is found in the folder. -/
theorem locate (h : Complete t out base xs) (hx : x ∈ xs) {name : String}
    (hname : x.target = out.child name) :
    ∃ e, (writeAll t xs).locate x.target = .ok (base ++ [name], e) := by
  have hfile := h.file? hx
  cases hlast : lastBytes x.target xs with
  | none => exact absurd rfl (lastBytes_eq_none_iff.mp hlast x hx)
  | some c =>
    rw [hlast, hname] at hfile
    have hkept := FileTree.locate_keeps (keeps_writeAll t xs) h.folder
    rw [hname]
    exact ⟨_, (FileTree.locate_of_file?_child hkept hfile).1⟩

theorem entry?_of_other (h : Complete t out base xs) {place : Place}
    (hplace : ∀ x ∈ xs, ∀ e, (writeAll t xs).locate x.target ≠ .ok (place, e)) :
    FileTree.entry? (writeAll t xs) place = t.entry? place := by
  apply entry?_writeAll h.folder h.inFolder
  intro x hx name hname heq
  rw [h.written] at hx
  obtain ⟨e, hlocate⟩ := h.locate hx hname
  rw [← heq] at hlocate
  exact hplace x hx e hlocate

end Complete

namespace Generation

/-- The bindings that have been made have one file each, and all of these have been written. -/
theorem written_of_writeBindings {w w' : Workspace}
    (h : (js.forM writeBinding).exec w = (.ok (), w'))
    (hbase : w.tree.locate out = .ok (base, some .folder))
    (hxs : InFolder out (js.flatMap Job.outputs)) :
    js.flatMap Job.outputs = js.map Job.output ∧
      written w.tree (js.flatMap Job.outputs) = js.flatMap Job.outputs := by
  induction js generalizing w with
  | nil => exact ⟨rfl, rfl⟩
  | cons j js ih =>
    obtain ⟨_, v, hj, hrest⟩ := exec_bind_eq_ok.mp h
    obtain ⟨text, houtputs, hsource, hwrite⟩ := write_of_writeBinding hj
    have hkept := FileTree.locate_keeps (Output.keeps_of_write hwrite) hbase
    rw [List.flatMap_cons, houtputs, List.singleton_append] at hxs ⊢
    obtain ⟨hone, hwritten⟩ := ih hrest hkept (List.forall_mem_cons.mp hxs).2
    rw [written_cons_of_write hbase hxs hwrite, hwritten, List.map_cons, ← hone, Job.output,
      hsource]
    exact ⟨rfl, rfl⟩

/-- A generation that succeeds has made its folder and then written every file. -/
theorem carryOut_eq_ok {w w' : Workspace} {paths : List Path}
    (h : (carryOut out js).exec w = (.ok paths, w')) (hxs : InFolder out (outputs out js)) :
    paths = js.map (·.target) ∧ ∃ v base, w.tree.Extends v ∧
      outputs out js = ⟨supportTarget out, .ok supportSource⟩ :: js.map Job.output ∧
      Complete v out base (outputs out js) ∧ w'.tree = writeAll v (outputs out js) := by
  obtain ⟨_, v, hmade, h⟩ := exec_bind_eq_ok.mp h
  have hextends := extends_makeFolders out w
  rw [hmade] at hextends
  obtain ⟨base, hbase⟩ := FileTree.isFolder_iff.mp (isFolder_of_makeFolders hmade)
  have htree := tree_writeOutputs out js v
  rw [h] at htree
  obtain ⟨_, v', hsupport, h⟩ := exec_bind_eq_ok.mp h
  obtain ⟨_, v'', hbindings, h⟩ := exec_bind_eq_ok.mp h
  cases h
  rw [writeSupport, exec_write_report] at hsupport
  cases hwrite : Output.write ⟨supportTarget out, .ok supportSource⟩ v.tree with
  | error e => simp [hwrite] at hsupport
  | ok t =>
    rw [hwrite] at hsupport
    cases hsupport
    have hkept := FileTree.locate_keeps (Output.keeps_of_write hwrite) hbase
    obtain ⟨hone, hwritten⟩ :=
      written_of_writeBindings hbindings hkept (List.forall_mem_cons.mp hxs).2
    refine ⟨rfl, v.tree, base, hextends, by rw [outputs, hone], ⟨hbase, hxs, ?_⟩, htree⟩
    rw [outputs, written_cons_of_write hbase hxs hwrite, hwritten]

end Generation

theorem map_target_of_for {inputs : List Path} (h : List.Forall₂ (Job.For levels t out) inputs js) :
    js.map (·.target) = inputs.map (targetOf out) := by
  induction h with
  | nil => rfl
  | cons hfor _ ih => rw [List.map_cons, List.map_cons, hfor.target, ih]

/-- The targets of the bindings are all different, so none is written over. -/
theorem Complete.bound {input : Path} {j : Job} {xs : List Output}
    (hxs : xs = ⟨supportTarget out, .ok supportSource⟩ :: js.map Job.output)
    (h : Complete u out base xs) (hj : j ∈ js) (hnodup : (js.map (·.target)).Nodup)
    (hfor : j.For levels t out input)
    (hcontent : ∃ content, t.file? input = some content) :
    Bound levels t (writeAll u xs) out input := by
  obtain ⟨content, hcontent⟩ := hcontent
  have hmap : j.output ∈ js.map Job.output := List.mem_map_of_mem hj
  have hmem : j.output ∈ xs := hxs ▸ List.mem_cons_of_mem _ hmap
  obtain ⟨text, htext, hbytes⟩ := h.exists_text hmem
  have hlast : lastBytes j.output.target xs = some j.output.bytes := by
    have hjobs : ((js.map Job.output).map (·.target)).Nodup := by rwa [List.map_map]
    rw [hxs, lastBytes, lastBytes_of_mem hjobs hmap, Option.some_or]
  have hfile := h.file? hmem
  have htarget : j.output.target = targetOf out input := hfor.target
  rw [hlast, hbytes, htarget] at hfile
  have habi := hfor.abi
  rw [hcontent] at habi
  have hsource : j.output.text = source input.stem runtimeModule j.abi := by
    rw [Job.output, hfor.contract]
  rw [hsource] at htext
  exact ⟨content, j.abi, text, hcontent, habi, htext, hfile⟩

/-- The support module is written first, so it stays where no binding has its target. -/
theorem Complete.support_of_targets (h : Complete u out base (outputs out js))
    (htargets : ∀ j ∈ js, j.target ≠ supportTarget out) :
    (writeAll u (outputs out js)).file? (supportTarget out) =
      some (Text.encodeUtf8 supportSource) := by
  have hlater : lastBytes (supportTarget out) (js.flatMap Job.outputs) = none := by
    apply lastBytes_eq_none_iff.mpr
    intro x hx
    obtain ⟨j, hj, hx⟩ := List.mem_flatMap.mp hx
    rw [target_of_mem_outputs hx]
    exact htargets j hj
  have hfile := h.file? List.mem_cons_self
  rwa [outputs, lastBytes, hlater, Option.none_or, if_pos rfl] at hfile

theorem leaves_carryOut {w w' : Workspace} {inputs paths : List Path}
    (h : (carryOut out js).exec w = (.ok paths, w'))
    (hfor : List.Forall₂ (Job.For levels w.tree out) inputs js)
    (hcontent : ∀ input ∈ inputs, ∃ content, w.tree.file? input = some content)
    (hnodup : (js.map (·.target)).Nodup) : Leaves levels w.tree w'.tree out inputs paths := by
  obtain ⟨rfl, v, base, hextends, hone, hcomplete, htree⟩ :=
    Generation.carryOut_eq_ok h (inFolder_of_for hfor)
  have hbound : ∀ input ∈ inputs, Bound levels w.tree w'.tree out input := by
    intro input hinput
    obtain ⟨j, hj, hjfor⟩ := exists_of_forall₂ hfor hinput
    rw [htree]
    exact hcomplete.bound hone hj hnodup hjfor (hcontent input hinput)
  refine ⟨map_target_of_for hfor, hnodup, hbound, ⟨?_, ?_⟩, ?_, ?_⟩
  · intro hsupport input hinput hstem
    obtain ⟨content, abi, text, -, -, htext, hfile⟩ := hbound input hinput
    rw [targetOf_eq_supportTarget_iff.mpr hstem, hsupport] at hfile
    rw [← Text.encodeUtf8_injective (Option.some.inj hfile)] at htext
    exact source_ne_supportSource htext
  · intro hstems
    rw [htree]
    apply hcomplete.support_of_targets
    intro j hj htarget
    obtain ⟨input, hinput, hjfor⟩ := exists_of_forall₂ hfor.flip hj
    exact hstems input hinput (targetOf_eq_supportTarget_iff.mp (hjfor.target.symm.trans htarget))
  · rw [htree, (keeps_writeAll v _).work, hextends.work]
  · intro place hplace
    have hother : ∀ x ∈ outputs out js, ∀ e, w'.tree.locate x.target ≠ .ok (place, e) := by
      intro x hx
      have htarget : x.target ∈ (outputs out js).map (·.target) := List.mem_map_of_mem hx
      rw [hone, List.map_cons, List.map_map] at htarget
      exact hplace x.target htarget
    rw [htree] at hother ⊢
    rw [hcomplete.entry?_of_other hother]
    exact hextends.entry place

theorem leaves_of_generate {pattern folder : Option String} {force : Bool} {paths : List Path}
    {w : Workspace} (h : (generate levels pattern folder force).run t = (.ok paths, w)) :
    ∃ text inputs, folder = some text ∧ Glob.files t (pattern.getD "") = .ok inputs ∧
      inputs ≠ [] ∧ Leaves levels t w.tree (Path.ofText text) inputs paths := by
  rw [Generation.run_eq_exec, generate] at h
  obtain ⟨_, v, htree, h⟩ := Generation.exec_bind_eq_ok.mp h
  cases htree
  obtain ⟨⟨out, js⟩, v, hexec, h⟩ := Generation.exec_bind_eq_ok.mp h
  obtain ⟨hplan, hv⟩ := Prod.mk.inj hexec
  subst hv
  obtain ⟨text, inputs, rfl, rfl, hinputs, hsome, hfor, hnodup⟩ := plan_eq_ok hplan
  obtain ⟨texts, hfinds, rfl⟩ := Glob.finds_of_files hinputs
  have hleaves := leaves_carryOut h hfor (fun _ hinput => hfinds.exists_file? hinput) hnodup
  exact ⟨text, _, rfl, hinputs, hsome, hleaves⟩

/-- A generation that succeeds has found files and leaves a binding for each of them in the folder,
and the support module beside them unless a binding goes by its name. -/
theorem generate_leaves {pattern folder : Option String} {force : Bool} {paths : List Path}
    {w : Workspace} (h : (generate levels pattern folder force).run t = (.ok paths, w)) :
    ∃ text texts, folder = some text ∧ Glob.Finds t (pattern.getD "") texts ∧ texts ≠ [] ∧
      Leaves levels t w.tree (Path.ofText text) (texts.map Path.ofText) paths := by
  obtain ⟨text, inputs, hfolder, hinputs, hsome, hleaves⟩ := leaves_of_generate h
  obtain ⟨texts, hfinds, rfl⟩ := Glob.finds_of_files hinputs
  exact ⟨text, texts, hfolder, hfinds, by simpa using hsome, hleaves⟩

def besideSupport : FileTree :=
  let empty := Text.encodeUtf8 "\x7b\"hash\": \"00\", \"functions\": []\x7d"
  ⟨[(["T.json"], .file empty), (["typetology_runtime.json"], .file empty)], []⟩

theorem generate_leaves_single :
    let r := (generate 960 (some "T.json") (some "out") false).run besideSupport
    ∃ paths, r.1 = .ok paths ∧ ∃ text texts, some "out" = some text ∧
      Glob.Finds besideSupport "T.json" texts ∧ texts ≠ [] ∧
        Leaves 960 besideSupport r.2.tree (Path.ofText text) (texts.map Path.ofText) paths := by
  intro r
  have hok : r.1.isOk := by decide +kernel
  obtain ⟨paths, hpaths⟩ := exists_eq_ok hok
  exact ⟨paths, hpaths, generate_leaves (Prod.ext hpaths rfl)⟩

/-- The binding for the other interface is written over the support module that it needs. -/
theorem generate_over_support :
    let r := (generate 960 (some "typetology_runtime.json") (some "out") false).run besideSupport
    r.1.isOk ∧ r.2.tree.file? (supportTarget (.ofText "out")) ≠
      some (Text.encodeUtf8 supportSource) := by
  intro r
  have hok : r.1.isOk := by decide +kernel
  obtain ⟨paths, hpaths⟩ := exists_eq_ok hok
  obtain ⟨text, inputs, hfolder, hinputs, -, hleaves⟩ :=
    leaves_of_generate (Prod.ext hpaths rfl : r = (.ok paths, r.2))
  have hfound : Glob.files besideSupport "typetology_runtime.json" =
      .ok [.ofText "typetology_runtime.json"] := by decide +kernel
  obtain rfl := Option.some.inj hfolder
  obtain rfl := Except.ok.inj (hfound.symm.trans hinputs)
  refine ⟨hok, fun hsupport => ?_⟩
  exact hleaves.support.mp hsupport _ List.mem_cons_self (by decide +kernel)

end Binding

end Bindery
