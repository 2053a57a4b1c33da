import Bindery.Proofs.CommandOutcome
import Bindery.Proofs.FoundPaths

/-!
# Inputs that share a target

A binding goes by the stem of its input, so that of two inputs with one stem the later is refused.
Files of one name in different folders are meant. What is compared are the targets, though, and not
the inputs: a file that a pattern finds in two ways is refused on account of itself.
-/

namespace Bindery

namespace FileTree

variable {t : FileTree}

/-- However a file is found, its stem is that of the name at its place. -/
theorem Sound.stem_of_locate (ht : t.Sound) {p : Path} {place : Place} {c : Bytes}
    (h : t.locate p = .ok (place, some (.file c))) :
    p.stem = Path.stemOf (place.getLast?.getD "") := by
  obtain ⟨q, name, hname, rfl, -⟩ :=
    exists_folder_of_follow (isFolderAt_start ht.work _) (follow_of_locate h) (by simp)
  rw [Path.stem, hname, List.getLast?_concat]

theorem Sound.stem_eq_of_sameFile (ht : t.Sound) {p q : Path} (h : t.SameFile p q) :
    p.stem = q.stem := by
  obtain ⟨place, c, hp, hq⟩ := h
  rw [ht.stem_of_locate hp, ht.stem_of_locate hq]

end FileTree

namespace Binding

variable {levels : ℕ} {t : FileTree} {out : Path} {force : Bool} {pattern folder : Option String}

def IsClash : Failure → Prop
  | .parameter (.sameTarget _ _) => True
  | _ => False

theorem targetOf_eq_iff {p q : Path} : targetOf out p = targetOf out q ↔ p.stem = q.stem := by
  simp [targetOf, Path.child, String.append_left_inj]

theorem not_isClash_documentFailure (e : Json.DocumentError) :
    ¬ IsClash (Abi.documentFailure e) := by
  cases e <;> exact id

/-- A binding that cannot be made has its target. -/
theorem not_isClash_source {contract runtime : String} {abi : Abi} :
    ¬ FailsWith IsClash (source contract runtime abi) := by
  rintro ⟨e, he, hclash⟩
  exact onlyFails_source (p := fun e => ¬ IsClash e) (fun _ => id) _ _ _ e he hclash

theorem isClash_job {before : List Job} {input : Path} :
    FailsWith IsClash (job levels t out force before input) ↔
      ∃ j ∈ before, j.target = targetOf out input := by
  have htaken : before.any (·.target = targetOf out input) ↔
      ∃ j ∈ before, j.target = targetOf out input := by simp
  rw [job_eq, ← htaken]
  by_cases hany : before.any (·.target = targetOf out input)
  · rw [if_pos hany, failsWith_error]
    exact iff_of_true trivial hany
  rw [if_neg hany]
  refine iff_of_false ?_ hany
  split
  · exact failsWith_error.not.mpr id
  split
  · exact failsWith_error.not.mpr id
  · rw [failsWith_map, Abi.failsWith_parse fun _ => id]
    rintro ⟨e, -, he⟩
    exact not_isClash_documentFailure e he

/-- A plan breaks off at the first input that has the stem of one before it. -/
theorem isClash_jobs {inputs : List Path} :
    FailsWith IsClash (jobs levels t out force [] inputs) ↔ ∃ done input rest js,
      inputs = done ++ input :: rest ∧ jobs levels t out force [] done = .ok js ∧
        ∃ p ∈ done, p.stem = input.stem := by
  rw [failsWith_jobs]
  refine exists₄_congr fun done input rest js =>
    and_congr_right fun _ => and_congr_right fun hdone => ?_
  obtain ⟨_, rfl, hfor, -⟩ := for_of_jobs hdone List.nodup_nil
  rw [isClash_job]
  constructor
  · rintro ⟨j, hj, htarget⟩
    obtain ⟨p, hp, hfor⟩ := exists_of_forall₂ hfor.flip hj
    exact ⟨p, hp, targetOf_eq_iff.mp (hfor.target.symm.trans htarget)⟩
  · rintro ⟨p, hp, hstem⟩
    obtain ⟨j, hj, hfor⟩ := exists_of_forall₂ hfor hp
    exact ⟨j, hj, hfor.target.trans (targetOf_eq_iff.mpr hstem)⟩

/-- Only the plan of a generation finds targets taken. -/
theorem isClash_generate :
    FailsWith IsClash ((generate levels pattern folder force).run t).1 ↔ ∃ text inputs,
      folder = some text ∧ Glob.files t (pattern.getD "") = .ok inputs ∧
        FailsWith IsClash (jobs levels t (.ofText text) force [] inputs) := by
  rw [exec_generate]
  cases folder with
  | none =>
    have hplan : plan levels t pattern none force = .error (.parameter .noOutput) := rfl
    rw [hplan]
    exact iff_of_false (failsWith_error.not.mpr id) nofun
  | some text =>
    simp only [Option.some.injEq, exists_and_left, exists_eq_left']
    rw [plan_some]
    cases hfiles : Glob.files t (pattern.getD "") with
    | error m => exact iff_of_false (failsWith_error.not.mpr id) nofun
    | ok inputs =>
      simp only [Except.ok.injEq, exists_eq_left']
      cases inputs with
      | nil => exact iff_of_false (failsWith_error.not.mpr id) (not_failsWith_ok _)
      | cons input rest =>
        dsimp only
        cases hjobs : jobs levels t (.ofText text) force [] (input :: rest) with
        | error e => simp only [Except.map, failsWith_error]
        | ok js =>
          refine iff_of_false ?_ (not_failsWith_ok _)
          dsimp only [Except.map]
          rw [failsWith_carryOut fun _ => id]
          rintro (h | ⟨_, j, _, _, _, -, -, h⟩)
          · exact h.2
          · rcases (Generation.failsWith_writeBinding fun _ => id).mp h with h | ⟨-, -, _, -, h⟩
            · exact not_isClash_source h
            · exact h

def Collide (t : FileTree) (pattern : String) : Prop :=
  ∃ inputs, Glob.files t pattern = .ok inputs ∧
    ∃ p ∈ inputs, ∃ q ∈ inputs, p.stem = q.stem ∧ ¬ t.SameFile p q

/-- A plan comes to a file for which it has a job already. -/
def ComesBack (levels : ℕ) (t : FileTree) (pattern : String) (out : Path) (force : Bool) : Prop :=
  ∃ done input rest js, Glob.files t pattern = .ok (done ++ input :: rest) ∧
    jobs levels t out force [] done = .ok js ∧ ∃ p ∈ done, t.SameFile p input

/-- Targets are taken on account of other files only, and where all goes well a file has one binding
however many ways the pattern has to it. -/
structure TellsFilesApart (levels : ℕ) (t : FileTree) (pattern folder : Option String)
    (force : Bool) : Prop where
  refused : FailsWith IsClash ((generate levels pattern folder force).run t).1 →
    Collide t (pattern.getD "")
  made : ∀ paths, ((generate levels pattern folder force).run t).1 = .ok paths → ∃ text inputs,
    folder = some text ∧ Glob.files t (pattern.getD "") = .ok inputs ∧
      paths = inputs.map (targetOf (.ofText text)) ∧
        inputs.Pairwise fun p q => ¬ t.SameFile p q

/-- What is made has one target for each input, and the ways to one file share a target. -/
theorem made_of_generate (ht : t.Sound) {paths : List Path}
    (h : ((generate levels pattern folder force).run t).1 = .ok paths) : ∃ text inputs,
      folder = some text ∧ Glob.files t (pattern.getD "") = .ok inputs ∧
        paths = inputs.map (targetOf (.ofText text)) ∧
          inputs.Pairwise fun p q => ¬ t.SameFile p q := by
  obtain ⟨text, inputs, hfolder, hinputs, -, hleaves⟩ := leaves_of_generate (Prod.ext h rfl)
  refine ⟨text, inputs, hfolder, hinputs, hleaves.targets, ?_⟩
  have hnodup := hleaves.nodup
  rw [hleaves.targets] at hnodup
  refine (List.pairwise_map.mp hnodup).imp fun hne hsame => hne ?_
  exact targetOf_eq_iff.mpr (ht.stem_eq_of_sameFile hsame)

theorem isClash_of_comesBack (ht : t.Sound) {text : String} (hfolder : folder = some text)
    (h : ComesBack levels t (pattern.getD "") (.ofText text) force) :
    FailsWith IsClash ((generate levels pattern folder force).run t).1 := by
  obtain ⟨done, input, rest, js, hfiles, hdone, p, hp, hsame⟩ := h
  refine isClash_generate.mpr ⟨text, _, hfolder, hfiles, isClash_jobs.mpr ?_⟩
  exact ⟨done, input, rest, js, rfl, hdone, p, hp, ht.stem_eq_of_sameFile hsame⟩

/-- A generation that finds a target taken comes back to a file or finds two that collide. -/
theorem comesBack_or_collide
    (h : FailsWith IsClash ((generate levels pattern folder force).run t).1) :
    (∃ text, folder = some text ∧ ComesBack levels t (pattern.getD "") (.ofText text) force) ∨
      Collide t (pattern.getD "") := by
  obtain ⟨text, inputs, hfolder, hfiles, hjobs⟩ := isClash_generate.mp h
  obtain ⟨done, input, rest, js, rfl, hdone, p, hp, hstem⟩ := isClash_jobs.mp hjobs
  by_cases hsame : t.SameFile p input
  · exact .inl ⟨text, hfolder, done, input, rest, js, hfiles, hdone, p, hp, hsame⟩
  · exact .inr ⟨_, hfiles, p, by simp [hp], input, by simp, hstem, hsame⟩

/-- Files are told apart unless a generation comes back to one of them while no two others collide.
That cannot be under a direct pattern, which finds no file twice. -/
theorem tellsFilesApart_iff (ht : t.Sound) (levels : ℕ) (pattern folder : Option String)
    (force : Bool) :
    (TellsFilesApart levels t pattern folder force ↔ ∀ text, folder = some text →
        ComesBack levels t (pattern.getD "") (.ofText text) force → Collide t (pattern.getD "")) ∧
      (Glob.Direct (pattern.getD "") → TellsFilesApart levels t pattern folder force ∧
        ∀ inputs, Glob.files t (pattern.getD "") = .ok inputs →
          inputs.Pairwise fun p q => ¬ t.SameFile p q) := by
  have hiff : TellsFilesApart levels t pattern folder force ↔ ∀ text, folder = some text →
      ComesBack levels t (pattern.getD "") (.ofText text) force → Collide t (pattern.getD "") := by
    constructor
    · intro h text hfolder hback
      exact h.refused (isClash_of_comesBack ht hfolder hback)
    · intro h
      refine ⟨fun hclash => ?_, fun _ => made_of_generate ht⟩
      rcases comesBack_or_collide hclash with ⟨text, hfolder, hback⟩ | hcollide
      · exact h text hfolder hback
      · exact hcollide
  refine ⟨hiff, fun hpattern => ⟨hiff.mpr fun text _ hback => ?_, fun _ =>
    Glob.pairwise_files ht hpattern⟩⟩
  obtain ⟨done, input, rest, js, hfiles, -, p, hp, hsame⟩ := hback
  have hapart := List.pairwise_append.mp (Glob.pairwise_files ht hpattern hfiles)
  exact absurd hsame (hapart.2.2 p hp input List.mem_cons_self)

/-- Files found in order stay in that order. -/
theorem files_of_pairwise {pattern : String} {all : List (List Char)} {texts : List String}
    (h : Glob.paths t pattern = .ok all)
    (htexts : ((all.map String.ofList).filter fun s => (t.file? (.ofText s)).isSome) = texts)
    (hsorted : texts.Pairwise (· ≤ ·)) : Glob.files t pattern = .ok (texts.map Path.ofText) := by
  have hsame : texts.mergeSort (fun a b => decide (a ≤ b)) = texts :=
    List.mergeSort_of_pairwise (hsorted.imp decide_eq_true)
  rw [Glob.files, h, ok_bind]
  dsimp only
  rw [htexts, hsame]
  rfl

def oneBelow : FileTree :=
  ⟨[ (["a"], .folder),
    (["a", "T.json"], .file (Text.encodeUtf8 "\x7b\"hash\": \"00\", \"functions\": []\x7d")) ], []⟩

theorem sound_oneBelow : oneBelow.Sound := ⟨by decide +kernel, by decide +kernel, rfl⟩

theorem tellsFilesApart_below :
    oneBelow.Sound ∧ Glob.Direct "**/*.json" ∧
      TellsFilesApart 960 oneBelow (some "**/*.json") (some "out") false := by
  have hdirect : Glob.Direct "**/*.json" := by decide +kernel
  have h := tellsFilesApart_iff sound_oneBelow 960 (some "**/*.json") (some "out") false
  exact ⟨sound_oneBelow, hdirect, (h.2 hdirect).1⟩

/-- Either `**` can stand for the folder, so its only file is found twice and is refused. -/
theorem not_tellsFilesApart_twice :
    ¬ TellsFilesApart 960 oneBelow (some "**/**/T.json") (some "out") false := by
  intro h
  let p := Path.ofText "a/T.json"
  have hpaths : Glob.paths oneBelow "**/**/T.json" =
      .ok ["a/T.json".toList, "a/T.json".toList] := by decide +kernel
  have hfiles : Glob.files oneBelow "**/**/T.json" = .ok [p, p] :=
    files_of_pairwise hpaths (by decide +kernel) (List.pairwise_pair.mpr (String.le_refl _))
  have hsame : oneBelow.SameFile p p := by
    have hfile : (oneBelow.file? p).isSome := by decide +kernel
    obtain ⟨c, hc⟩ := Option.isSome_iff_exists.mp hfile
    obtain ⟨place, hplace⟩ := FileTree.file?_eq_some_iff.mp hc
    exact ⟨place, c, hplace, hplace⟩
  have hok : (jobs 960 oneBelow (.ofText "out") false [] [p]).isOk := by decide +kernel
  obtain ⟨js, hjs⟩ := exists_eq_ok hok
  have hback : ComesBack 960 oneBelow "**/**/T.json" (.ofText "out") false :=
    ⟨[p], p, [], js, hfiles, hjs, p, List.mem_singleton_self p, hsame⟩
  obtain ⟨inputs, hinputs, q, hq, r, hr, -, hother⟩ :=
    h.refused (isClash_of_comesBack sound_oneBelow rfl hback)
  obtain rfl := Except.ok.inj (hfiles.symm.trans hinputs)
  have hall : ∀ x ∈ [p, p], x = p := by simp
  rw [hall q hq, hall r hr] at hother
  exact hother hsame

end Binding

end Bindery
