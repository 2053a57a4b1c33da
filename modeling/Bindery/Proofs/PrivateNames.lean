import Bindery.Proofs.IssuedNames

/-!
# Names that belong to a class

In the body of a class a name with two underscores in front, and not two at its end, is kept under
the name of the class: an underscore and the class without its leading underscores go in front of
it. All other names are kept as they are, and so are all names in a class of underscores only. Two
names of a class are kept under one name just when one of them is what the other is kept under.
-/

namespace Bindery.Identifier

def isPrivate (name : String) : Bool :=
  ['_', '_'].isPrefixOf name.toList && !(['_', '_'].isSuffixOf name.toList)

def classMark (cls : String) : List Char :=
  match cls.toList.dropWhile (· = '_') with
  | [] => []
  | c :: cs => '_' :: c :: cs

def ownName (cls name : String) : String :=
  if isPrivate name then String.ofList (classMark cls) ++ name else name

variable {cls a b n : String}

theorem ownName_of_public (h : isPrivate n = false) : ownName cls n = n := by
  rw [ownName, h]
  rfl

theorem classMark_cases (cls : String) :
    classMark cls = [] ∨ ∃ c cs, classMark cls = '_' :: c :: cs ∧ c ≠ '_' := by
  unfold classMark
  split
  · exact .inl rfl
  · rename_i c cs hdrop
    refine .inr ⟨c, cs, rfl, ?_⟩
    have hhead := List.head?_dropWhile_not (· = '_') cls.toList
    rw [hdrop] at hhead
    simpa using hhead

/-- A name that is not kept as it is has a second character that is no underscore. -/
theorem exists_of_ownName_ne (h : ownName cls n ≠ n) :
    ∃ c cs, (ownName cls n).toList = '_' :: c :: cs ∧ c ≠ '_' := by
  unfold ownName at h ⊢
  split
  · rename_i hprivate
    rw [if_pos hprivate] at h
    rcases classMark_cases cls with hmark | ⟨c, cs, hmark, hc⟩
    · rw [hmark] at h
      exact absurd (String.empty_append) h
    · refine ⟨c, cs ++ n.toList, ?_, hc⟩
      rw [String.toList_append, String.toList_ofList, hmark]
      rfl
  · rename_i hpublic
    rw [if_neg hpublic] at h
    exact absurd rfl h

theorem isPrivate_of_ownName_ne (h : ownName cls n ≠ n) : isPrivate n := by
  by_contra hpublic
  exact h (ownName_of_public (Bool.not_eq_true _ ▸ hpublic))

theorem isPrivate_ownName_of_ne (h : ownName cls n ≠ n) : isPrivate (ownName cls n) = false := by
  obtain ⟨c, cs, hlist, hc⟩ := exists_of_ownName_ne h
  simp [isPrivate, hlist, List.isPrefixOf, hc.symm]

theorem ownName_ownName (cls n : String) : ownName cls (ownName cls n) = ownName cls n := by
  by_cases h : ownName cls n = n
  · rw [h, h]
  · exact ownName_of_public (isPrivate_ownName_of_ne h)

theorem ownName_eq_iff :
    ownName cls a = ownName cls b ↔ a = b ∨ b = ownName cls a ∨ a = ownName cls b := by
  constructor
  · intro h
    by_cases ha : ownName cls a = a
    · exact .inr (.inr (ha.symm.trans h))
    by_cases hb : ownName cls b = b
    · exact .inr (.inl (hb.symm.trans h.symm))
    -- Both have the mark of the class in front.
    · rw [ownName, ownName, if_pos (isPrivate_of_ownName_ne ha),
        if_pos (isPrivate_of_ownName_ne hb)] at h
      exact .inl ((String.append_right_inj _).mp h)
  · rintro (rfl | rfl | rfl)
    · rfl
    · exact (ownName_ownName cls a).symm
    · exact ownName_ownName cls b

/-- Only the name itself is kept under a public name that does not look like a kept private one. -/
theorem ownName_eq_iff_of_public (hpublic : isPrivate b = false)
    (hshape : ∀ c cs, b.toList = '_' :: c :: cs → c = '_') : ownName cls a = b ↔ a = b := by
  constructor
  · intro h
    by_contra hne
    obtain ⟨c, cs, hlist, hc⟩ := exists_of_ownName_ne (h ▸ Ne.symm hne : ownName cls a ≠ a)
    exact hc (hshape c cs (h ▸ hlist))
  · rintro rfl
    exact ownName_of_public hpublic

/-- No name is what another one is kept under. -/
def KeepsApart (cls : String) (names : List String) : Prop :=
  ∀ n ∈ names, ownName cls n ∈ names → ownName cls n = n

theorem nodup_map_ownName_iff {names : List String} (h : names.Nodup) :
    (names.map (ownName cls)).Nodup ↔ KeepsApart cls names := by
  rw [List.nodup_map_iff_inj_on h]
  constructor
  · intro hinjective n hn hkept
    exact hinjective _ hkept n hn (ownName_ownName cls n)
  · intro hapart a ha b hb heq
    rcases ownName_eq_iff.mp heq with hab | hba | hab
    · exact hab
    · exact (hba.trans (hapart a ha (hba ▸ hb))).symm
    · exact hab.trans (hapart b hb (hab ▸ ha))

/-- The class `_C` keeps a private name under `C`, and a class of underscores keeps none apart. -/
example : ownName "_C" "__x" = "_C__x" ∧ ownName "_C" "__x__" = "__x__" ∧
    ownName "__" "__x" = "__x" := by decide +kernel

end Bindery.Identifier
