import Bindery.Proofs.Generation
import Bindery.Proofs.Results

/-!
# What a failed generation leaves behind

A plan changes nothing. Carrying it out makes the output folder first and then writes one file after
the other, and what it has done before it fails stays done. So a tree stays as it was just when no
folder had to be made and every file that was written before the first obstacle held its bytes
already.
-/

namespace Bindery.Binding

/-- A file that is to be made, with its text or the reason why there is none. -/
structure Output where
  target : Path
  text : Except Failure String

/-- The file of a job; one whose source cannot be encoded is made empty before that is found. -/
def Job.outputs (j : Job) : List Output :=
  let text := source j.contract runtimeModule j.abi
  match j.abi.functions.findSome? brokenType? with
  | none => [⟨j.target, text⟩]
  | some b => [⟨j.target, text.map fun _ => ""⟩, ⟨j.target, .error (.misuse (.unencodable b))⟩]

theorem target_of_mem_outputs {j : Job} {x : Output} (h : x ∈ j.outputs) :
    x.target = j.target := by
  rw [Job.outputs] at h
  cases hbroken : j.abi.functions.findSome? brokenType? with
  | none =>
    rw [hbroken] at h
    rw [List.mem_singleton.mp h]
  | some b =>
    rw [hbroken] at h
    rcases List.mem_pair.mp h with rfl | rfl <;> rfl

def outputs (out : Path) (js : List Job) : List Output :=
  ⟨supportTarget out, .ok supportSource⟩ :: js.flatMap Job.outputs

namespace Output

def bytes (x : Output) : Bytes :=
  match x.text with
  | .ok s => Text.encodeUtf8 s
  | .error _ => []

def write (x : Output) (t : FileTree) : Except Failure FileTree :=
  match x.text with
  | .ok s => (t.writeFile x.target (Text.encodeUtf8 s)).mapError .file
  | .error e => .error e

@[simp] theorem write_ok (p : Path) (text : String) (t : FileTree) :
    write ⟨p, .ok text⟩ t = (t.writeFile p (Text.encodeUtf8 text)).mapError .file := rfl

@[simp] theorem write_error (p : Path) (e : Failure) (t : FileTree) :
    write ⟨p, .error e⟩ t = .error e := rfl

def writable (t : FileTree) (x : Output) : Bool := (x.write t).isOk

end Output

/-- The tree when files have been written up to the first that cannot be. -/
def writeAll (t : FileTree) : List Output → FileTree
  | [] => t
  | x :: rest =>
    match x.write t with
    | .ok u => writeAll u rest
    | .error _ => t

/-- The files before the first that cannot be written. -/
def written (t : FileTree) (xs : List Output) : List Output := xs.takeWhile (·.writable t)

def lastBytes (p : Path) : List Output → Option Bytes
  | [] => none
  | x :: rest => (lastBytes p rest).or (if x.target = p then some x.bytes else none)

variable {levels : ℕ} {t u : FileTree} {out : Path} {base : Place}

namespace Generation

theorem exec_write_report (p : Path) (text : String) (rs : List LogRecord) (w : Workspace) :
    (write p text >>= fun _ => report rs).exec w =
      match Output.write ⟨p, .ok text⟩ w.tree with
      | .ok t => (.ok (), ⟨t, w.logs ++ rs⟩)
      | .error e => (.error e, w) := by
  rw [exec_bind, exec_write, Output.write_ok]
  cases w.tree.writeFile p (Text.encodeUtf8 text) <;> rfl

/-- After the reports a binding is written, or its file is made empty if it has no encoding. -/
theorem exec_writeBinding (j : Job) (w : Workspace) :
    ∃ logs, (writeBinding j).exec w =
      match source j.contract runtimeModule j.abi with
      | .error e => (.error e, ⟨w.tree, logs⟩)
      | .ok text =>
        match j.abi.functions.findSome? brokenType? with
        | none =>
          (write j.target text >>= fun _ =>
            report [⟨.info, .commandLine, "Generated " ++ j.target.render⟩]).exec ⟨w.tree, logs⟩
        | some b =>
          (write j.target "" >>= fun _ => ofExcept (.error (.misuse (.unencodable b)))).exec
            ⟨w.tree, logs⟩ := by
  refine ⟨w.logs ++ warnings j.contract j.abi, ?_⟩
  rw [writeBinding, exec_bind, exec_report]
  dsimp only
  rw [exec_bind, exec_ofExcept]
  cases source j.contract runtimeModule j.abi with
  | error e => rfl
  | ok text => cases j.abi.functions.findSome? brokenType? <;> rfl

/-- What a binding makes of a tree, and whether anything is written after it. -/
theorem writeAll_outputs (j : Job) (w : Workspace) (rest : List Output) :
    writeAll w.tree (j.outputs ++ rest) =
      match (writeBinding j).exec w with
      | (.ok _, v) => writeAll v.tree rest
      | (.error _, v) => v.tree := by
  obtain ⟨logs, hexec⟩ := exec_writeBinding j w
  rw [hexec, Job.outputs]
  cases hsource : source j.contract runtimeModule j.abi with
  | error e => cases j.abi.functions.findSome? brokenType? <;> rfl
  | ok text =>
    cases j.abi.functions.findSome? brokenType? with
    | none =>
      dsimp only
      rw [exec_write_report, List.singleton_append, writeAll]
      cases Output.write ⟨j.target, .ok text⟩ w.tree <;> rfl
    | some b =>
      dsimp only [Except.map]
      rw [exec_bind, exec_write, List.cons_append, writeAll, Output.write_ok]
      cases w.tree.writeFile j.target (Text.encodeUtf8 "") <;> rfl

/-- A binding that has been made has a source, and that has been written. -/
theorem write_of_writeBinding {j : Job} {w v : Workspace}
    (h : (writeBinding j).exec w = (.ok (), v)) :
    ∃ text, j.outputs = [⟨j.target, .ok text⟩] ∧ source j.contract runtimeModule j.abi = .ok text ∧
      Output.write ⟨j.target, .ok text⟩ w.tree = .ok v.tree := by
  obtain ⟨logs, hexec⟩ := exec_writeBinding j w
  rw [hexec] at h
  rw [Job.outputs]
  cases hsource : source j.contract runtimeModule j.abi with
  | error e => simp [hsource] at h
  | ok text =>
    rw [hsource] at h
    dsimp only at h
    cases hbroken : j.abi.functions.findSome? brokenType? with
    | none =>
      rw [hbroken] at h
      dsimp only at h
      refine ⟨text, rfl, rfl, ?_⟩
      rw [exec_write_report] at h
      cases hwrite : Output.write ⟨j.target, .ok text⟩ w.tree with
      | error e => simp [hwrite] at h
      | ok t =>
        rw [hwrite] at h
        cases h
        rfl
    | some b =>
      rw [hbroken] at h
      obtain ⟨_, _, -, hfail⟩ := exec_bind_eq_ok.mp h
      cases hfail

theorem tree_writeBindings (js : List Job) (w : Workspace) :
    ((js.forM writeBinding).exec w).2.tree = writeAll w.tree (js.flatMap Job.outputs) := by
  induction js generalizing w with
  | nil => rfl
  | cons j js ih =>
    change (writeBinding j >>= fun _ => js.forM writeBinding).exec w |>.2.tree = _
    rw [exec_bind, List.flatMap_cons, writeAll_outputs]
    rcases (writeBinding j).exec w with ⟨e | a, v⟩
    · rfl
    · exact ih v

theorem tree_writeOutputs (out : Path) (js : List Job) (w : Workspace) :
    ((do
      writeSupport out
      js.forM writeBinding
      return js.map (·.target) : Generation (List Path)).exec w).2.tree =
        writeAll w.tree (outputs out js) := by
  rw [exec_bind, writeSupport, exec_write_report, outputs, writeAll]
  cases Output.write ⟨supportTarget out, .ok supportSource⟩ w.tree with
  | error e => rfl
  | ok t =>
    dsimp only
    rw [exec_bind, ← tree_writeBindings js ⟨t, _⟩]
    split
    · rename_i heq
      rw [heq]
      rfl
    · rename_i heq
      rw [heq]

end Generation

theorem lastBytes_eq_none_iff {p : Path} {xs : List Output} :
    lastBytes p xs = none ↔ ∀ x ∈ xs, x.target ≠ p := by
  induction xs with
  | nil => simp [lastBytes]
  | cons x xs ih =>
    rw [lastBytes, Option.or_eq_none_iff, ih, List.forall_mem_cons, and_comm]
    simp

theorem Output.write_eq_ok_iff {x : Output} :
    x.write t = .ok u ↔ (∃ s, x.text = .ok s) ∧ t.writeFile x.target x.bytes = .ok u := by
  obtain ⟨p, text⟩ := x
  cases text with
  | error e => simp
  | ok s =>
    rw [write_ok]
    cases hwrite : t.writeFile p (Text.encodeUtf8 s) <;> simp [bytes, hwrite, Except.mapError]

theorem Output.keeps_of_write {x : Output} (h : x.write t = .ok u) : t.Keeps u :=
  FileTree.keeps_of_writeFile (write_eq_ok_iff.mp h).2

theorem keeps_writeAll (t : FileTree) (xs : List Output) : t.Keeps (writeAll t xs) := by
  induction xs generalizing t with
  | nil => exact .refl t
  | cons x xs ih =>
    rw [writeAll]
    cases hx : x.write t with
    | error e => exact .refl t
    | ok u =>
      exact (Output.keeps_of_write hx).trans (ih u)

namespace Output

theorem write_child {x : Output} (h : t.locate out = .ok (base, some .folder)) {name : String}
    (hx : x.target = out.child name) (hwrite : x.write t = .ok u) :
    t.isFolderAt base ∧ t.entry? (base ++ [name]) ≠ some .folder ∧
      u = t.put (base ++ [name]) (.file x.bytes) := by
  have hfile := (write_eq_ok_iff.mp hwrite).2
  rw [hx, FileTree.writeFile_child_eq_ok h] at hfile
  exact hfile.2.2

theorem writable_iff {x : Output} :
    x.writable t ↔ (∃ s, x.text = .ok s) ∧ ∃ u, t.writeFile x.target x.bytes = .ok u := by
  rw [writable]
  constructor
  · intro h
    obtain ⟨u, hu⟩ := exists_eq_ok h
    exact ⟨(write_eq_ok_iff.mp hu).1, u, (write_eq_ok_iff.mp hu).2⟩
  · rintro ⟨htext, u, hu⟩
    rw [write_eq_ok_iff.mpr ⟨htext, hu⟩]
    rfl

/-- Writing one file of a folder neither hinders nor helps to write another. -/
theorem writable_put {x : Output} (h : t.locate out = .ok (base, some .folder))
    (hbase : t.isFolderAt base) {name other : String} {c : Bytes}
    (hother : t.entry? (base ++ [other]) ≠ some .folder) (hx : x.target = out.child name) :
    x.writable (t.put (base ++ [other]) (.file c)) = x.writable t := by
  have hk : t.Keeps (t.put (base ++ [other]) (.file c)) := FileTree.keeps_put hother
  have hlocate := FileTree.locate_keeps hk h
  have hentry :
      FileTree.entry? (t.put (base ++ [other]) (.file c)) (base ++ [name]) ≠ some .folder ↔
        t.entry? (base ++ [name]) ≠ some .folder := by
    by_cases hname : name = other
    · subst hname
      rw [FileTree.entry?_put_self (by simp)]
      simp [hother]
    · rw [FileTree.entry?_put_of_ne (by simpa using hname)]
  rw [Bool.eq_iff_iff, writable_iff, writable_iff, hx]
  simp only [FileTree.writeFile_child_eq_ok h, FileTree.writeFile_child_eq_ok hlocate, hbase,
    hk.folder base hbase, hentry, exists_and_left, exists_eq]

end Output

def InFolder (out : Path) (xs : List Output) : Prop := ∀ x ∈ xs, ∃ name, x.target = out.child name

theorem written_put (h : t.locate out = .ok (base, some .folder)) (hbase : t.isFolderAt base)
    {other : String} {c : Bytes} (hother : t.entry? (base ++ [other]) ≠ some .folder)
    {xs : List Output} (hxs : InFolder out xs) :
    written (t.put (base ++ [other]) (.file c)) xs = written t xs := by
  induction xs with
  | nil => rfl
  | cons x xs ih =>
    obtain ⟨⟨name, hx⟩, hrest⟩ := List.forall_mem_cons.mp hxs
    have hrest := ih hrest
    rw [written] at hrest ⊢
    rw [written, List.takeWhile_cons, List.takeWhile_cons, Output.writable_put h hbase hother hx,
      hrest, written]

/-- A file that can be written is, and then the others that come before the first obstacle. -/
theorem written_cons_of_write {x : Output} {xs : List Output}
    (h : t.locate out = .ok (base, some .folder)) (hxs : InFolder out (x :: xs))
    (hwrite : x.write t = .ok u) : written t (x :: xs) = x :: written u xs := by
  obtain ⟨⟨name, hx⟩, hrest⟩ := List.forall_mem_cons.mp hxs
  obtain ⟨hbase, hentry, rfl⟩ := Output.write_child h hx hwrite
  have hwritable : x.writable t := by rw [Output.writable, hwrite]; rfl
  rw [written_put h hbase hentry hrest, written, List.takeWhile_cons, if_pos hwritable]
  rfl

theorem written_cons_of_error {x : Output} {xs : List Output} {e : Failure}
    (hwrite : x.write t = .error e) : written t (x :: xs) = [] := by
  have hblocked : ¬ x.writable t := by
    rw [Output.writable, hwrite]
    exact Bool.false_ne_true
  rw [written, List.takeWhile_cons, if_neg hblocked]

theorem entry?_writeAll {q : Place} {xs : List Output}
    (h : t.locate out = .ok (base, some .folder)) (hxs : InFolder out xs)
    (hq : ∀ x ∈ written t xs, ∀ name, x.target = out.child name → q ≠ base ++ [name]) :
    FileTree.entry? (writeAll t xs) q = t.entry? q := by
  induction xs generalizing t with
  | nil => rfl
  | cons x xs ih =>
    obtain ⟨⟨name, hx⟩, hrest⟩ := List.forall_mem_cons.mp hxs
    rw [writeAll]
    cases hwrite : x.write t with
    | error e => rfl
    | ok u =>
      rw [written_cons_of_write h hxs hwrite, List.forall_mem_cons] at hq
      have hlocate := FileTree.locate_keeps (Output.keeps_of_write hwrite) h
      obtain ⟨-, -, rfl⟩ := Output.write_child h hx hwrite
      exact (ih hlocate hrest hq.2).trans (FileTree.entry?_put_of_ne (hq.1 name hx) t _)

/-- Each file written holds in the end what the last of its name held. -/
theorem file?_writeAll {x : Output} {xs : List Output}
    (h : t.locate out = .ok (base, some .folder)) (hxs : InFolder out xs)
    (hx : x ∈ written t xs) :
    (writeAll t xs).file? x.target = lastBytes x.target (written t xs) := by
  induction xs generalizing t x with
  | nil => exact absurd hx List.not_mem_nil
  | cons y xs ih =>
    cases hwrite : y.write t with
    | error e =>
      rw [written_cons_of_error hwrite] at hx
      exact absurd hx List.not_mem_nil
    | ok u =>
      obtain ⟨⟨name, hy⟩, hrest⟩ := List.forall_mem_cons.mp hxs
      have hlocate := FileTree.locate_keeps (Output.keeps_of_write hwrite) h
      rw [written_cons_of_write h hxs hwrite] at hx ⊢
      rw [writeAll, hwrite, lastBytes]
      dsimp only
      -- The support module and a binding may share a path, so a file can be written over later.
      by_cases hlater : ∃ z ∈ written u xs, z.target = x.target
      · obtain ⟨z, hz, htarget⟩ := hlater
        rw [← htarget, ih hlocate hrest hz]
        cases hlast : lastBytes z.target (written u xs) with
        | none => exact absurd rfl (lastBytes_eq_none_iff.mp hlast z hz)
        | some c => rfl
      · have hlast : lastBytes x.target (written u xs) = none :=
          lastBytes_eq_none_iff.mpr fun z hz htarget => hlater ⟨z, hz, htarget⟩
        obtain rfl : x = y := by
          rcases List.mem_cons.mp hx with rfl | hx
          · rfl
          · exact absurd ⟨x, hx, rfl⟩ hlater
        have hentry : FileTree.entry? (writeAll u xs) (base ++ [name]) =
            u.entry? (base ++ [name]) := by
          refine entry?_writeAll hlocate hrest fun z hz other hother heq => hlater ⟨z, hz, ?_⟩
          rw [hother, hy, List.append_right_inj _ |>.mp heq |> List.singleton_inj.mp]
        have hfile := (Output.write_eq_ok_iff.mp hwrite).2
        rw [hlast, Option.none_or, if_pos rfl]
        rw [hy] at hfile ⊢
        exact FileTree.file?_of_writeFile_child h hfile (keeps_writeAll u xs) hentry

/-- Writing files into a folder changes nothing just when each that is written was there already,
with the bytes of the last of its name. -/
theorem same_writeAll_iff {xs : List Output} (h : t.locate out = .ok (base, some .folder))
    (hxs : InFolder out xs) :
    t.Same (writeAll t xs) ↔
      ∀ x ∈ written t xs, t.file? x.target = lastBytes x.target (written t xs) := by
  constructor
  · intro hsame x hx
    rw [← hsame.file?, file?_writeAll h hxs hx]
  · intro hheld
    refine ⟨(keeps_writeAll t xs).work, fun q => ?_⟩
    by_cases hq : ∃ x ∈ written t xs, ∃ name, x.target = out.child name ∧ q = base ++ [name]
    · obtain ⟨x, hx, name, htarget, rfl⟩ := hq
      have hbefore := hheld x hx
      have hafter := file?_writeAll h hxs hx
      cases hlast : lastBytes x.target (written t xs) with
      | none => exact absurd rfl (lastBytes_eq_none_iff.mp hlast x hx)
      | some c =>
        rw [hlast, htarget] at hbefore hafter
        have hlocate := FileTree.locate_keeps (keeps_writeAll t xs) h
        rw [(FileTree.locate_of_file?_child h hbefore).2,
          (FileTree.locate_of_file?_child hlocate hafter).2]
    · exact entry?_writeAll h hxs fun x hx name htarget heq => hq ⟨x, hx, name, htarget, heq⟩

structure Job.For (levels : ℕ) (t : FileTree) (out input : Path) (j : Job) : Prop where
  target : j.target = targetOf out input
  contract : j.contract = input.stem
  abi : Abi.parse levels (.blob .fixed ((t.file? input).getD [])) = .ok j.abi

theorem for_of_job {force : Bool} {before : List Job} {input : Path} {j : Job}
    (h : job levels t out force before input = .ok j) :
    j.For levels t out input ∧ ∀ k ∈ before, k.target ≠ j.target := by
  unfold job at h
  dsimp only at h
  split at h
  · exact absurd h throw_bind_ne_ok
  rename_i hnew
  obtain ⟨there, -, h⟩ := bind_eq_ok.mp h
  split at h
  · exact absurd h throw_bind_ne_ok
  obtain ⟨abi, habi, h⟩ := bind_eq_ok.mp h
  cases h
  refine ⟨⟨rfl, rfl, habi⟩, ?_⟩
  simpa using hnew

/-- One job for each input, in their order, and each with a target of its own. -/
theorem for_of_jobs {force : Bool} {inputs : List Path} {before js : List Job}
    (h : jobs levels t out force before inputs = .ok js) (hbefore : (before.map (·.target)).Nodup) :
    ∃ new, js = before ++ new ∧ List.Forall₂ (Job.For levels t out) inputs new ∧
      (js.map (·.target)).Nodup := by
  induction inputs generalizing before with
  | nil =>
    cases h
    exact ⟨[], (List.append_nil _).symm, .nil, hbefore⟩
  | cons input rest ih =>
    rw [jobs] at h
    cases hjob : job levels t out force before input with
    | error e => simp [hjob] at h
    | ok j =>
      rw [hjob] at h
      obtain ⟨hfor, hnew⟩ := for_of_job hjob
      have hmore : ((before ++ [j]).map (·.target)).Nodup := by
        rw [List.map_append, List.map_singleton, List.nodup_append]
        exact ⟨hbefore, List.pairwise_singleton _ _, by simpa using hnew⟩
      obtain ⟨new, rfl, hrest, hnodup⟩ := ih h hmore
      exact ⟨j :: new, List.append_assoc .., .cons hfor hrest, hnodup⟩

/-- What a plan has found out. -/
theorem plan_eq_ok {pattern folder : Option String} {force : Bool} {js : List Job}
    (h : plan levels t pattern folder force = .ok (out, js)) :
    ∃ text inputs, folder = some text ∧ out = Path.ofText text ∧
      Glob.files t (pattern.getD "") = .ok inputs ∧ inputs ≠ [] ∧
      List.Forall₂ (Job.For levels t out) inputs js ∧ (js.map (·.target)).Nodup := by
  unfold plan at h
  cases folder with
  | none => cases h
  | some text =>
    obtain ⟨inputs, hinputs, h⟩ := bind_eq_ok.mp h
    dsimp only at h
    split at h
    · exact absurd h throw_bind_ne_ok
    rename_i hsome
    obtain ⟨js', hjs, h⟩ := bind_eq_ok.mp h
    cases h
    obtain ⟨new, rfl, hfor, hnodup⟩ := for_of_jobs hjs List.nodup_nil
    exact ⟨text, inputs, rfl, rfl, mapError_eq_ok.mp hinputs, by simpa using hsome, hfor, hnodup⟩

theorem inFolder_of_for {inputs : List Path} {js : List Job}
    (h : List.Forall₂ (Job.For levels t out) inputs js) : InFolder out (outputs out js) := by
  intro x hx
  rcases List.mem_cons.mp hx with rfl | hx
  · exact ⟨_, rfl⟩
  · obtain ⟨j, hj, hx⟩ := List.mem_flatMap.mp hx
    obtain ⟨input, -, hfor⟩ := exists_of_forall₂ h.flip hj
    exact ⟨_, (target_of_mem_outputs hx).trans hfor.target⟩

theorem inFolder_outputs {pattern folder : Option String} {force : Bool} {js : List Job}
    (h : plan levels t pattern folder force = .ok (out, js)) : InFolder out (outputs out js) := by
  obtain ⟨-, inputs, -, -, -, -, hfor, -⟩ := plan_eq_ok h
  exact inFolder_of_for hfor

theorem same_carryOut_iff {js : List Job} (hxs : InFolder out (outputs out js))
    (logs : List LogRecord) :
    t.Same ((carryOut out js).exec ⟨t, logs⟩).2.tree ↔
      out.hasNul ∨ ¬ t.Lacks out ∧ (t.isFolder out →
        ∀ x ∈ written t (outputs out js),
          t.file? x.target = lastBytes x.target (written t (outputs out js))) := by
  by_cases hnul : out.hasNul
  · rw [carryOut, Generation.exec_bind, Generation.exec_makeFolders, if_pos hnul]
    exact iff_of_true (.refl t) (.inl hnul)
  by_cases hlacks : t.Lacks out
  · have hgrown : t.Grown ((carryOut out js).exec ⟨t, logs⟩).2.tree := by
      have hmade := @Generation.grown_makeFolders out ⟨t, logs⟩ hnul hlacks
      refine Generation.grown_bind hmade fun _ => ?_
      refine Generation.keepsFolders_bind (Generation.keepsFolders_writeSupport out) fun _ => ?_
      exact Generation.keepsFolders_bind
        (Generation.keepsFolders_forM Generation.keepsFolders_writeBinding js)
        fun _ => Generation.keepsFolders_pure _
    refine iff_of_false hgrown.not_same ?_
    rintro (hnul' | ⟨hnone, -⟩)
    · exact hnul hnul'
    · exact hnone hlacks
  -- Now the making of folders changes nothing, and fails unless the folder is there.
  obtain ⟨e, hmade⟩ := @Generation.exec_makeFolders_of_not_lacks out ⟨t, logs⟩ hnul hlacks
  rw [carryOut, Generation.exec_bind, hmade]
  by_cases hfolder : t.isFolder out
  · obtain ⟨base, hbase⟩ := FileTree.isFolder_iff.mp hfolder
    rw [if_pos hfolder]
    dsimp only
    rw [Generation.tree_writeOutputs, same_writeAll_iff hbase hxs]
    simp [hnul, hlacks, hfolder]
  · rw [if_neg hfolder]
    exact iff_of_true (.refl t) (.inr ⟨hlacks, fun h => absurd h hfolder⟩)

/-- A generation leaves a tree as it was just when it is not planned at all, or when the path of its
folder cannot be used, or when the folder is there and every file that is written before the first
obstacle was there already, with the bytes of the last of its name. -/
theorem generate_same_iff (levels : ℕ) (t : FileTree) (pattern folder : Option String)
    (force : Bool) :
    t.Same ((generate levels pattern folder force).run t).2.tree ↔
      ∀ out js, plan levels t pattern folder force = .ok (out, js) →
        out.hasNul ∨ ¬ t.Lacks out ∧ (t.isFolder out →
          ∀ x ∈ written t (outputs out js),
            t.file? x.target = lastBytes x.target (written t (outputs out js))) := by
  rw [Generation.run_eq_exec, generate, Generation.exec_bind, Generation.exec_tree]
  dsimp only
  rw [Generation.exec_bind, Generation.exec_ofExcept]
  cases hplan : plan levels t pattern folder force with
  | error e =>
    refine iff_of_true (.refl t) ?_
    intro out js h
    cases h
  | ok r =>
    obtain ⟨out, js⟩ := r
    refine (same_carryOut_iff (inFolder_outputs hplan) []).trans ⟨?_, fun h => h out js rfl⟩
    intro h out' js' heq
    cases heq
    exact h

def obstructed : FileTree :=
  ⟨[ (["T.json"], .file (Text.encodeUtf8 "\x7b\"hash\": \"00\", \"functions\": []\x7d")),
    (["out"], .folder), (["out", "T.py"], .folder) ], []⟩

/-- The support module is written before the obstacle is met, and stays. -/
theorem generate_obstructed :
    let r := (generate 960 (some "T.json") (some "out") true).run obstructed
    r.1.isOk = false ∧ ¬ obstructed.Same r.2.tree := by
  intro r
  have hfails : r.1.isOk = false := by decide +kernel
  have hbefore : obstructed.entry? ["out", "typetology_runtime.py"] = none := by decide +kernel
  have hafter : (r.2.tree.entry? ["out", "typetology_runtime.py"]).isSome := by decide +kernel
  refine ⟨hfails, fun hsame => ?_⟩
  rw [hsame.2, hbefore] at hafter
  cases hafter

end Bindery.Binding
