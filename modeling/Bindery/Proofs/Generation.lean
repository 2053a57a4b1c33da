import Bindery.Binding.Generation
import Bindery.Proofs.FileTree

/-!
# Runs of a generation

What each step of a generation does to the tree. No step loses a folder, and where a path leads to
nothing its folders are made before anything is written.
-/

namespace Bindery.Binding

namespace Generation

variable {α β : Type}

def exec (g : Generation α) (w : Workspace) : Except Failure α × Workspace :=
  StateT.run (m := Id) (ExceptT.run g) w

theorem run_eq_exec (g : Generation α) (t : FileTree) : g.run t = g.exec ⟨t, []⟩ := rfl

theorem exec_bind (g : Generation α) (f : α → Generation β) (w : Workspace) :
    (g >>= f).exec w =
      match g.exec w with
      | (.ok a, w) => (f a).exec w
      | (.error e, w) => (.error e, w) := by
  have hrun : (g >>= f).exec w = ExceptT.bindCont f (g.exec w).1 (g.exec w).2 := rfl
  rw [hrun]
  cases g.exec w with
  | mk r w => cases r <;> rfl

theorem exec_bind_eq_ok {g : Generation α} {f : α → Generation β} {w w' : Workspace} {b : β} :
    (g >>= f).exec w = (.ok b, w') ↔ ∃ a v, g.exec w = (.ok a, v) ∧ (f a).exec v = (.ok b, w') := by
  rw [exec_bind]
  rcases g.exec w with ⟨e | a, v⟩
  · simp
  · simp [and_assoc]

@[simp] theorem exec_pure (a : α) (w : Workspace) :
    (pure a : Generation α).exec w = (.ok a, w) := rfl

@[simp] theorem exec_ofExcept (r : Except Failure α) (w : Workspace) :
    (ofExcept r).exec w = (r, w) := rfl

@[simp] theorem exec_report (rs : List LogRecord) (w : Workspace) :
    (report rs).exec w = (.ok (), { w with logs := w.logs ++ rs }) := rfl

@[simp] theorem exec_tree (w : Workspace) : tree.exec w = (.ok w.tree, w) := rfl

theorem exec_makeFolder (p : Path) (w : Workspace) :
    (makeFolder p).exec w =
      match w.tree.makeFolder p with
      | .ok t => (.ok (), { w with tree := t })
      | .error e =>
        if w.tree.isFolder p then (.ok (), w) else (.error (.file ⟨e, p.render⟩), w) := by
  rw [makeFolder, exec_bind, exec_tree]
  dsimp only
  cases w.tree.makeFolder p with
  | ok t => rfl
  | error e =>
    by_cases hfolder : w.tree.isFolder p
    · simp [hfolder]
    · simp [hfolder]

theorem exec_write (p : Path) (text : String) (w : Workspace) :
    (write p text).exec w =
      match w.tree.writeFile p (Text.encodeUtf8 text) with
      | .ok t => (.ok (), { w with tree := t })
      | .error e => (.error (.file e), w) := by
  rw [write, exec_bind, exec_tree]
  dsimp only
  rw [setTree, exec_bind, exec_ofExcept]
  cases w.tree.writeFile p (Text.encodeUtf8 text) <;> rfl

/-- A relation between trees that holds wherever folders are made. -/
structure Growing (R : FileTree → FileTree → Prop) : Prop where
  refl : ∀ t, R t t
  trans : ∀ {t u v}, R t u → R u v → R t v
  made : ∀ {t u : FileTree} {p : Path}, t.makeFolder p = .ok u → R t u

/-- A relation between trees that holds wherever folders are made and files are written. -/
structure Lasting (R : FileTree → FileTree → Prop) : Prop extends Growing R where
  written : ∀ {t u : FileTree} {p : Path} {c : Bytes}, t.writeFile p c = .ok u → R t u

/-- However a run ends, the tree behind it is related to the one before it. -/
def Along (R : FileTree → FileTree → Prop) (g : Generation α) : Prop :=
  ∀ w : Workspace, R w.tree (g.exec w).2.tree

section Along

variable {R : FileTree → FileTree → Prop}

theorem Growing.along_bind (hR : Growing R) {g : Generation α} {f : α → Generation β}
    (hg : g.Along R) (hf : ∀ a, (f a).Along R) : (g >>= f).Along R := by
  intro w
  have hfirst := hg w
  rw [exec_bind]
  split
  · rename_i a w' heq
    rw [heq] at hfirst
    exact hR.trans hfirst (hf a w')
  · rename_i e w' heq
    rwa [heq] at hfirst

theorem Growing.along_pure (hR : Growing R) (a : α) : (pure a : Generation α).Along R :=
  fun w => hR.refl w.tree

theorem Growing.along_ofExcept (hR : Growing R) (r : Except Failure α) : (ofExcept r).Along R :=
  fun w => hR.refl w.tree

theorem Growing.along_report (hR : Growing R) (rs : List LogRecord) : (report rs).Along R :=
  fun w => hR.refl w.tree

theorem Growing.along_tree (hR : Growing R) : tree.Along R := fun w => hR.refl w.tree

theorem Growing.along_makeFolder (hR : Growing R) (p : Path) : (makeFolder p).Along R := by
  intro w
  rw [exec_makeFolder]
  split
  · rename_i t ht
    exact hR.made ht
  · split <;> exact hR.refl w.tree

/-- What holds where one folder is made holds where a whole path is. -/
theorem Growing.along_makeFoldersFrom (hR : Growing R) (root : String) (names : List String) :
    (makeFoldersFrom root names).Along R := by
  induction names with
  | nil => exact hR.along_makeFolder _
  | cons name above ih =>
    rw [makeFoldersFrom]
    refine hR.along_bind hR.along_tree fun t => ?_
    split
    · exact hR.along_bind ih fun _ => hR.along_makeFolder _
    · exact hR.along_makeFolder _

theorem Growing.along_makeFolders (hR : Growing R) (p : Path) : (makeFolders p).Along R := by
  unfold makeFolders
  dsimp only
  split
  · exact hR.along_bind (hR.along_ofExcept _) fun _ => hR.along_makeFoldersFrom _ _
  · exact hR.along_makeFoldersFrom _ _

theorem Lasting.along_write (hR : Lasting R) (p : Path) (text : String) :
    (write p text).Along R := by
  intro w
  rw [exec_write]
  split
  · rename_i t ht
    exact hR.written ht
  · exact hR.refl w.tree

theorem Lasting.along_writeSupport (hR : Lasting R) (out : Path) : (writeSupport out).Along R :=
  hR.along_bind (hR.along_write _ _) fun _ => hR.along_report _

theorem Lasting.along_writeBinding (hR : Lasting R) (j : Job) : (writeBinding j).Along R := by
  apply hR.along_bind (hR.along_report _)
  intro _
  apply hR.along_bind (hR.along_ofExcept _)
  intro text
  split
  · exact hR.along_bind (hR.along_write _ _) fun _ => hR.along_ofExcept _
  · exact hR.along_bind (hR.along_write _ _) fun _ => hR.along_report _

theorem Growing.along_forM (hR : Growing R) {f : α → Generation Unit} (h : ∀ a, (f a).Along R)
    (l : List α) : (l.forM f).Along R := by
  induction l with
  | nil => exact hR.along_pure ()
  | cons a l ih => exact hR.along_bind (h a) fun _ => ih

theorem Lasting.along_carryOut (hR : Lasting R) (out : Path) (js : List Job) :
    (carryOut out js).Along R :=
  hR.along_bind (hR.along_makeFolders out) fun _ =>
    hR.along_bind (hR.along_writeSupport out) fun _ =>
      hR.along_bind (hR.along_forM hR.along_writeBinding js) fun _ => hR.along_pure _

theorem Lasting.along_generate (hR : Lasting R) (levels : Nat) (pattern folder : Option String)
    (force : Bool) : (generate levels pattern folder force).Along R :=
  hR.along_bind hR.along_tree fun _ =>
    hR.along_bind (hR.along_ofExcept _) fun _ => hR.along_carryOut _ _

end Along

theorem growing_extends : Growing FileTree.Extends :=
  ⟨.refl, .trans, FileTree.extends_of_makeFolder⟩

theorem lasting_keeps : Lasting FileTree.Keeps :=
  ⟨⟨.refl, .trans, FileTree.keeps_of_makeFolder⟩, FileTree.keeps_of_writeFile⟩

def KeepsFolders (g : Generation α) : Prop := ∀ w : Workspace, w.tree.Keeps (g.exec w).2.tree

theorem keepsFolders_bind {g : Generation α} {f : α → Generation β} (hg : g.KeepsFolders)
    (hf : ∀ a, (f a).KeepsFolders) : (g >>= f).KeepsFolders := lasting_keeps.along_bind hg hf

theorem keepsFolders_pure (a : α) : (pure a : Generation α).KeepsFolders :=
  lasting_keeps.along_pure a

theorem keepsFolders_makeFolder (p : Path) : (makeFolder p).KeepsFolders :=
  lasting_keeps.along_makeFolder p

theorem keepsFolders_writeSupport (out : Path) : (writeSupport out).KeepsFolders :=
  lasting_keeps.along_writeSupport out

theorem keepsFolders_writeBinding (j : Job) : (writeBinding j).KeepsFolders :=
  lasting_keeps.along_writeBinding j

theorem keepsFolders_forM {f : α → Generation Unit} (h : ∀ a, (f a).KeepsFolders) (l : List α) :
    (l.forM f).KeepsFolders := lasting_keeps.along_forM h l

theorem grown_bind {g : Generation α} {f : α → Generation β} {w : Workspace}
    (hg : w.tree.Grown (g.exec w).2.tree) (hf : ∀ a, (f a).KeepsFolders) :
    w.tree.Grown ((g >>= f).exec w).2.tree := by
  rw [exec_bind]
  split
  · rename_i a w' heq
    rw [heq] at hg
    exact hg.keeps (hf a w')
  · rename_i e w' heq
    rwa [heq] at hg

theorem grown_makeFolder {p : Path} {w : Workspace} {place : Place}
    (h : w.tree.locate p = .ok (place, none)) :
    w.tree.Grown ((makeFolder p).exec w).2.tree := by
  have hmade := FileTree.makeFolder_eq_ok.mpr ⟨place, h, rfl⟩
  rw [exec_makeFolder, hmade]
  exact FileTree.grown_of_makeFolder hmade

/-- The names go from the last one up, and the first folder that can be made on the way is. -/
theorem grown_makeFoldersFrom {root : String} {names : List String} {w : Workspace}
    (h : w.tree.Lacks ⟨root, names.reverse⟩) :
    w.tree.Grown ((makeFoldersFrom root names).exec w).2.tree := by
  induction names with
  | nil =>
    rcases h with ⟨place, hnone⟩ | hmissing
    · exact grown_makeFolder hnone
    · exact absurd hmissing (FileTree.locate_root_ne_missing root)
  | cons name above ih =>
    have hchild : (⟨root, (name :: above).reverse⟩ : Path) =
        Path.child ⟨root, above.reverse⟩ name := by
      rw [Path.child, List.reverse_cons]
    rw [makeFoldersFrom, exec_bind, exec_tree]
    dsimp only
    split
    -- Whatever becomes of this name, the folder made above it stays.
    · rename_i hmissing
      rw [FileTree.makeFolder_eq_missing_iff, hchild] at hmissing
      exact grown_bind (ih (FileTree.lacks_of_child hmissing)) fun _ => keepsFolders_makeFolder _
    · rename_i hother
      rcases h with ⟨place, hnone⟩ | hmissing
      · exact grown_makeFolder hnone
      · exact absurd (FileTree.makeFolder_eq_missing_iff.mpr hmissing) hother

theorem exec_makeFolder_of_not_lacks {p : Path} {w : Workspace} (h : ¬ w.tree.Lacks p) :
    ∃ e, (makeFolder p).exec w = if w.tree.isFolder p then (.ok (), w) else (.error e, w) := by
  rw [exec_makeFolder]
  cases hmade : w.tree.makeFolder p with
  | ok t =>
    obtain ⟨place, hnone, -⟩ := FileTree.makeFolder_eq_ok.mp hmade
    exact absurd (.inl ⟨place, hnone⟩) h
  | error e => exact ⟨_, rfl⟩

theorem exec_makeFoldersFrom_of_not_lacks {root : String} {names : List String} {w : Workspace}
    (h : ¬ w.tree.Lacks ⟨root, names.reverse⟩) :
    ∃ e, (makeFoldersFrom root names).exec w =
      if w.tree.isFolder ⟨root, names.reverse⟩ then (.ok (), w) else (.error e, w) := by
  cases names with
  | nil => exact exec_makeFolder_of_not_lacks h
  | cons name above =>
    rw [makeFoldersFrom, exec_bind, exec_tree]
    dsimp only
    split
    · rename_i hmissing
      exact absurd (.inr (FileTree.makeFolder_eq_missing_iff.mp hmissing)) h
    · exact exec_makeFolder_of_not_lacks h

theorem exec_makeFolders (p : Path) (w : Workspace) :
    (makeFolders p).exec w =
      if p.hasNul then (.error (.misuse .nulInPath), w)
      else (makeFoldersFrom p.root p.names.reverse).exec w := by
  unfold makeFolders
  by_cases hnul : p.hasNul
  · rw [if_pos hnul, if_pos hnul, exec_bind, exec_ofExcept]
  · rw [if_neg hnul, if_neg hnul]

theorem grown_makeFolders {p : Path} {w : Workspace} (hnul : ¬ p.hasNul) (h : w.tree.Lacks p) :
    w.tree.Grown ((makeFolders p).exec w).2.tree := by
  rw [exec_makeFolders, if_neg hnul]
  apply grown_makeFoldersFrom
  rwa [List.reverse_reverse]

theorem exec_makeFolders_of_not_lacks {p : Path} {w : Workspace} (hnul : ¬ p.hasNul)
    (h : ¬ w.tree.Lacks p) :
    ∃ e, (makeFolders p).exec w = if w.tree.isFolder p then (.ok (), w) else (.error e, w) := by
  rw [exec_makeFolders, if_neg hnul]
  have hpath : (⟨p.root, p.names.reverse.reverse⟩ : Path) = p := by rw [List.reverse_reverse]
  have hrun := @exec_makeFoldersFrom_of_not_lacks p.root p.names.reverse w (hpath.symm ▸ h)
  rwa [hpath] at hrun

theorem extends_makeFolders (p : Path) (w : Workspace) :
    w.tree.Extends ((makeFolders p).exec w).2.tree :=
  growing_extends.along_makeFolders p w

theorem isFolder_of_makeFolder {p : Path} {w w' : Workspace}
    (h : (makeFolder p).exec w = (.ok (), w')) : w'.tree.isFolder p := by
  rw [exec_makeFolder] at h
  split at h
  · rename_i t ht
    cases h
    exact FileTree.isFolder_of_makeFolder ht
  · split at h
    · rename_i hfolder
      cases h
      exact hfolder
    · cases h

/-- Whatever has to be made above a folder, the folder itself is made last. -/
theorem isFolder_of_makeFoldersFrom {root : String} {names : List String} {w w' : Workspace}
    (h : (makeFoldersFrom root names).exec w = (.ok (), w')) :
    w'.tree.isFolder ⟨root, names.reverse⟩ := by
  cases names with
  | nil => exact isFolder_of_makeFolder h
  | cons name above =>
    rw [makeFoldersFrom, exec_bind, exec_tree] at h
    dsimp only at h
    split at h
    · obtain ⟨-, v, -, h⟩ := exec_bind_eq_ok.mp h
      exact isFolder_of_makeFolder h
    · exact isFolder_of_makeFolder h

theorem isFolder_of_makeFolders {p : Path} {w w' : Workspace}
    (h : (makeFolders p).exec w = (.ok (), w')) : w'.tree.isFolder p := by
  rw [exec_makeFolders] at h
  split at h
  · cases h
  · have hfolder := isFolder_of_makeFoldersFrom h
    rwa [List.reverse_reverse] at hfolder

end Generation

end Bindery.Binding
