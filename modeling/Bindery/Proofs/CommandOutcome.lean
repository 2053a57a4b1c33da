import Bindery.CommandLine.Run
import Bindery.Proofs.GeneratedFiles
import Bindery.Proofs.NestingLevels
import Bindery.Proofs.WritableValues

/-!
# How the command ends

The command prints the failures that it expects and lets all others escape. Along a generation there
are four places where one comes up that it does not expect: the search for a pattern and the making
of a folder under a name that no file system takes, the reading of an integer that is too long or of
a document that is too deep, and the writing of a kept value that is, or of a name or a type that
has no encoding. What has been read can be written otherwise, so nothing else escapes once the
inputs have been read.
-/

namespace Bindery

namespace Abi

variable {levels : ℕ}

theorem not_failsWith_ofValue {p : Failure → Prop} (hp : ∀ e, ¬ p (.abi e)) (v : Value) :
    ¬ FailsWith p (ofValue v) := by
  unfold ofValue
  split
  · rw [ofMembers, failsWith_mapError]
    rintro ⟨vs, -, h⟩
    exact hp _ h
  · rw [failsWith_error]
    exact hp _

theorem failsWith_parse {p : Failure → Prop} (hp : ∀ e, ¬ p (.abi e)) {b : Bytes} :
    FailsWith p (parse levels (.blob .fixed b)) ↔
      FailsWith (fun e => p (documentFailure e)) (Json.parseBytes levels b) := by
  change FailsWith p (ofBytes levels b) ↔ _
  rw [ofBytes, failsWith_bind, failsWith_mapError]
  refine or_iff_left ?_
  rintro ⟨j, -, h⟩
  exact not_failsWith_ofValue hp _ h

end Abi

namespace Glob

end Glob

namespace Binding

variable {levels : ℕ} {t : FileTree} {out : Path} {force : Bool}

theorem job_eq (before : List Job) (input : Path) :
    job levels t out force before input =
      if before.any (·.target = targetOf out input) then
        .error (.parameter (.sameTarget input.render (targetOf out input).render))
      else
        match t.present (targetOf out input) with
        | .error e => .error (.file e)
        | .ok there =>
          if there && !force then
            .error (.parameter (.targetExists (targetOf out input).render))
          else
            (Abi.parse levels (.blob .fixed ((t.file? input).getD []))).map fun abi =>
              ⟨targetOf out input, input.stem, abi⟩ := by
  unfold job
  dsimp only
  split
  · rfl
  cases t.present (targetOf out input) with
  | error e => rfl
  | ok there =>
    simp only [Except.mapError, ok_bind]
    split
    · rfl
    · cases Abi.parse levels (.blob .fixed ((t.file? input).getD [])) <;> rfl

/-- The first input that gives no job decides. -/
theorem failsWith_jobs {p : Failure → Prop} {inputs : List Path} {before : List Job} :
    FailsWith p (jobs levels t out force before inputs) ↔ ∃ done input rest js,
      inputs = done ++ input :: rest ∧ jobs levels t out force before done = .ok js ∧
        FailsWith p (job levels t out force js input) := by
  induction inputs generalizing before with
  | nil => simp [jobs]
  | cons input rest ih =>
    rw [jobs]
    cases hjob : job levels t out force before input with
    | error e =>
      rw [failsWith_error]
      constructor
      · intro h
        exact ⟨[], input, rest, before, rfl, rfl, by rwa [hjob, failsWith_error]⟩
      · rintro ⟨done, input', rest', js, hsplit, hdone, h⟩
        cases done with
        | nil =>
          cases hsplit
          cases hdone
          rwa [hjob, failsWith_error] at h
        | cons first done =>
          obtain ⟨rfl, -⟩ := List.cons_eq_cons.mp hsplit
          simp [jobs, hjob] at hdone
    | ok j =>
      dsimp only
      rw [ih]
      constructor
      · rintro ⟨done, input', rest', js, rfl, hdone, h⟩
        exact ⟨input :: done, input', rest', js, rfl, by simpa [jobs, hjob] using hdone, h⟩
      · rintro ⟨done, input', rest', js, hsplit, hdone, h⟩
        cases done with
        | nil =>
          cases hsplit
          cases hdone
          rw [hjob] at h
          exact absurd h (not_failsWith_ok _)
        | cons first done =>
          obtain ⟨rfl, hrest⟩ := List.cons_eq_cons.mp hsplit
          exact ⟨done, input', rest', js, hrest, by simpa [jobs, hjob] using hdone, h⟩

namespace Generation

variable {α β : Type}

def Avoids (p : Failure → Prop) (g : Generation α) : Prop := ∀ w, ¬ FailsWith p (g.exec w).1

section

variable {p : Failure → Prop}

theorem failsWith_bind {g : Generation α} {f : α → Generation β} {w : Workspace} :
    FailsWith p ((g >>= f).exec w).1 ↔
      FailsWith p (g.exec w).1 ∨ ∃ a v, g.exec w = (.ok a, v) ∧ FailsWith p ((f a).exec v).1 := by
  rw [exec_bind]
  rcases g.exec w with ⟨e | a, v⟩
  · simp
  · simp

theorem avoids_bind {g : Generation α} {f : α → Generation β} (hg : g.Avoids p)
    (hf : ∀ a, (f a).Avoids p) : (g >>= f).Avoids p := by
  intro w h
  rcases failsWith_bind.mp h with h | ⟨a, v, -, h⟩
  · exact hg w h
  · exact hf a v h

theorem avoids_report (rs : List LogRecord) : (report rs).Avoids p :=
  fun _ => not_failsWith_ok ()

theorem avoids_tree : tree.Avoids p := fun w => not_failsWith_ok w.tree

section

variable (hp : ∀ e, ¬ p (.file e))

include hp

theorem avoids_makeFolder (path : Path) : (makeFolder path).Avoids p := by
  intro w
  rw [exec_makeFolder]
  split
  · exact not_failsWith_ok ()
  · split <;> simp [hp]

theorem avoids_makeFoldersFrom (root : String) (names : List String) :
    (makeFoldersFrom root names).Avoids p := by
  induction names with
  | nil => exact avoids_makeFolder hp _
  | cons name above ih =>
    rw [makeFoldersFrom]
    refine avoids_bind avoids_tree fun t => ?_
    split
    · exact avoids_bind ih fun _ => avoids_makeFolder hp _
    · exact avoids_makeFolder hp _

theorem avoids_write (path : Path) (text : String) : (write path text).Avoids p := by
  intro w
  rw [exec_write]
  split <;> simp [hp]

theorem failsWith_makeFolders {path : Path} {w : Workspace} :
    FailsWith p ((makeFolders path).exec w).1 ↔ path.hasNul ∧ p (.misuse .nulInPath) := by
  rw [exec_makeFolders]
  by_cases hnul : path.hasNul
  · rw [if_pos hnul]
    simp [hnul]
  · rw [if_neg hnul]
    exact iff_of_false (avoids_makeFoldersFrom hp _ _ w) fun h => hnul h.1

theorem avoids_writeSupport (out : Path) : (writeSupport out).Avoids p :=
  avoids_bind (avoids_write hp _ _) fun _ => avoids_report _

/-- A binding that can be made stops for files, and for a type that has no encoding once its file is
open. -/
theorem failsWith_writeBinding {j : Job} {w : Workspace} :
    FailsWith p ((writeBinding j).exec w).1 ↔
      FailsWith p (source j.contract runtimeModule j.abi) ∨
        (∃ text, source j.contract runtimeModule j.abi = .ok text) ∧
          (∃ u, w.tree.writeFile j.target [] = .ok u) ∧
            ∃ b, j.abi.functions.findSome? brokenType? = some b ∧
              p (.misuse (.unencodable b)) := by
  obtain ⟨logs, hexec⟩ := exec_writeBinding j w
  rw [hexec]
  cases source j.contract runtimeModule j.abi with
  | error e => simp
  | ok text =>
    dsimp only
    cases j.abi.functions.findSome? brokenType? with
    | none =>
      refine iff_of_false ?_ (by simp)
      exact avoids_bind (avoids_write hp _ _) (fun _ => avoids_report _) _
    | some b =>
      have hempty : Text.encodeUtf8 "" = [] := rfl
      dsimp only
      rw [failsWith_bind, or_iff_right (avoids_write hp _ _ _), exec_write, hempty]
      cases w.tree.writeFile j.target [] <;> simp

end

/-- The first element whose run fails decides. -/
theorem failsWith_forM {f : α → Generation Unit} {l : List α} {w : Workspace} :
    FailsWith p ((l.forM f).exec w).1 ↔ ∃ before a after v, l = before ++ a :: after ∧
      (before.forM f).exec w = (.ok (), v) ∧ FailsWith p ((f a).exec v).1 := by
  induction l generalizing w with
  | nil =>
    refine iff_of_false (not_failsWith_ok ()) ?_
    rintro ⟨before, a, after, v, hsplit, -⟩
    simp at hsplit
  | cons b l ih =>
    have hsteps : (b :: l).forM f = f b >>= fun _ => l.forM f := rfl
    rw [hsteps, failsWith_bind]
    constructor
    · rintro (h | ⟨_, u, hb, h⟩)
      · exact ⟨[], b, l, w, rfl, rfl, h⟩
      · obtain ⟨before, a, after, v, rfl, hbefore, h⟩ := ih.mp h
        exact ⟨b :: before, a, after, v, rfl, exec_bind_eq_ok.mpr ⟨_, u, hb, hbefore⟩, h⟩
    · rintro ⟨before, a, after, v, hsplit, hbefore, h⟩
      cases before with
      | nil =>
        cases hsplit
        cases hbefore
        exact .inl h
      | cons c before =>
        obtain ⟨rfl, hrest⟩ := List.cons_eq_cons.mp hsplit
        obtain ⟨_, u, hb, hbefore⟩ := exec_bind_eq_ok.mp hbefore
        exact .inr ⟨(), u, hb, ih.mpr ⟨before, a, after, v, hrest, hbefore, h⟩⟩

end

end Generation

/-- Once all inputs have been read, the files and the folder can be in the way, and the first
binding that is not made. -/
theorem failsWith_carryOut {p : Failure → Prop} (hp : ∀ e, ¬ p (.file e)) {js : List Job}
    {w : Workspace} :
    FailsWith p ((carryOut out js).exec w).1 ↔ out.hasNul ∧ p (.misuse .nulInPath) ∨
      ∃ before j after paths v, js = before ++ j :: after ∧
        (carryOut out before).exec w = (.ok paths, v) ∧
          FailsWith p ((Generation.writeBinding j).exec v).1 := by
  rw [carryOut, Generation.failsWith_bind, Generation.failsWith_makeFolders hp]
  refine or_congr_right ⟨?_, ?_⟩
  · rintro ⟨_, u, hfolders, h⟩
    obtain ⟨_, u', hsupport, h⟩ :=
      (Generation.failsWith_bind.mp h).resolve_left (Generation.avoids_writeSupport hp out u)
    rcases Generation.failsWith_bind.mp h with h | ⟨_, _, -, h⟩
    · obtain ⟨before, j, after, v, rfl, hbefore, h⟩ := Generation.failsWith_forM.mp h
      refine ⟨before, j, after, before.map (·.target), v, rfl, ?_, h⟩
      exact Generation.exec_bind_eq_ok.mpr ⟨_, u, hfolders, Generation.exec_bind_eq_ok.mpr
        ⟨_, u', hsupport, Generation.exec_bind_eq_ok.mpr ⟨_, v, hbefore, rfl⟩⟩⟩
    · exact absurd h (not_failsWith_ok _)
  · rintro ⟨before, j, after, paths, v, rfl, hdone, h⟩
    obtain ⟨_, u, hfolders, hdone⟩ := Generation.exec_bind_eq_ok.mp hdone
    obtain ⟨_, u', hsupport, hdone⟩ := Generation.exec_bind_eq_ok.mp hdone
    obtain ⟨_, v', hbefore, hdone⟩ := Generation.exec_bind_eq_ok.mp hdone
    cases hdone
    refine ⟨_, u, hfolders, Generation.failsWith_bind.mpr (.inr ⟨_, u', hsupport, ?_⟩)⟩
    refine Generation.failsWith_bind.mpr (.inl (Generation.failsWith_forM.mpr ?_))
    exact ⟨before, j, after, v, rfl, hbefore, h⟩

theorem exec_generate (pattern folder : Option String) (force : Bool) :
    (generate levels pattern folder force).run t =
      match plan levels t pattern folder force with
      | .error e => (.error e, ⟨t, []⟩)
      | .ok (out, js) => (carryOut out js).exec ⟨t, []⟩ := by
  rw [Generation.run_eq_exec, generate, Generation.exec_bind, Generation.exec_tree]
  dsimp only
  rw [Generation.exec_bind, Generation.exec_ofExcept]
  cases plan levels t pattern folder force <;> rfl

theorem plan_some (pattern : Option String) (text : String) :
    plan levels t pattern (some text) force =
      match Glob.files t (pattern.getD "") with
      | .error m => .error (.misuse m)
      | .ok [] => .error (.parameter .noInput)
      | .ok (input :: rest) =>
        (jobs levels t (.ofText text) force [] (input :: rest)).map
          fun js => (.ofText text, js) := by
  unfold plan
  dsimp only
  cases Glob.files t (pattern.getD "") with
  | error m => rfl
  | ok inputs =>
    cases inputs with
    | nil => rfl
    | cons input rest =>
      simp only [Except.mapError, ok_bind, List.isEmpty_cons, Bool.false_eq_true, if_false]
      cases jobs levels t (.ofText text) force [] (input :: rest) <;> rfl

end Binding

namespace CommandLine

open Binding

/-- How the command ends when nothing escapes from it. -/
inductive EndsWell (levels : ℕ) (t : FileTree) (pattern folder : Option String) (force : Bool) :
    Report × FileTree → Prop
  /-- All bindings have been made. -/
  | made {text logs : String} {inputs paths : List Path} {u : FileTree}
      (hfolder : folder = some text) (hinputs : Glob.files t (pattern.getD "") = .ok inputs)
      (hsome : inputs ≠ []) (hleaves : Leaves levels t u (.ofText text) inputs paths) :
      EndsWell levels t pattern folder force (⟨0, "success to generate code!\n", logs, none⟩, u)
  /-- The failure has been printed. -/
  | failed {f : Failure} {logs : String} {u : FileTree}
      (h : ((generate levels pattern folder force).run t).1 = .error f) :
      EndsWell levels t pattern folder force (⟨1, f.message ++ "\n", logs, none⟩, u)

theorem EndsWell.escaped {levels : ℕ} {t : FileTree} {pattern folder : Option String} {force : Bool}
    {r : Report × FileTree} (h : EndsWell levels t pattern folder force r) :
    r.1.escaped = none := by
  cases h <;> rfl

def longNumber : Bytes :=
  Text.encodeUtf8 "\x7b\"hash\": \"00\", \"functions\": [], \"n\": " ++ List.replicate 4301 0x31
    ++ Text.encodeUtf8 "\x7d"

end CommandLine

end Bindery
