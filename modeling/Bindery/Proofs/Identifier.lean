import Bindery.Binding.Identifier

/-!
# Characters of identifiers

Whatever a name of the interface holds, the identifiers made from it consist of letters, digits and
underscores, and every name of a list gets one.
-/

namespace Bindery.Identifier

def Plain (s : String) : Prop := ∀ c ∈ s.toList, isAllowed c

theorem plain_append {s t : String} (hs : Plain s) (ht : Plain t) : Plain (s ++ t) := by
  rw [Plain, String.toList_append]
  exact List.forall_mem_append.mpr ⟨hs, ht⟩

theorem plain_underscore : Plain "_" := by
  intro c hc
  obtain rfl : c = '_' := by simpa using hc
  decide

theorem plain_toString (i : Nat) : Plain (toString i) := by
  intro c hc
  have hdigit : c.isDigit :=
    Nat.isDigit_of_mem_toDigits (b := 10) (by decide) (by decide) (Nat.toList_repr ▸ hc)
  have hbounds : '0' ≤ c ∧ c ≤ '9' := by
    simpa [Char.isDigit, Char.le_def] using hdigit
  simp [isAllowed, isDigit, hbounds]

theorem allowed_clean {cs : List Char} {c : Char} (hc : c ∈ clean cs) : isAllowed c := by
  obtain ⟨d, -, rfl⟩ := List.mem_map.mp hc
  by_cases hd : isAllowed d
  · simp [hd]
  · rw [if_neg hd]
    decide

theorem allowed_shape {cs : List Char} {c : Char} (hc : c ∈ shape cs) : isAllowed c := by
  unfold shape at hc
  split at hc
  · obtain rfl : c = '_' := by simpa using hc
    decide
  · rename_i d rest hclean
    have hmem : c = '_' ∨ c ∈ clean cs := by
      rw [hclean]
      split at hc <;> simp_all
    rcases hmem with rfl | hmem
    · decide
    · exact allowed_clean hmem

theorem plain_ofName (name : String) : Plain (ofName name) := by
  have hshape : Plain (String.ofList (shape name.toList)) := by
    intro c hc
    rw [String.toList_ofList] at hc
    exact allowed_shape hc
  unfold ofName
  dsimp only
  split
  · exact plain_append hshape plain_underscore
  · exact hshape

theorem plain_numbered {name : String} (h : Plain name) (i : Nat) : Plain (numbered name i) :=
  plain_append (plain_append h plain_underscore) (plain_toString i)

theorem firstFree_of {P : String → Prop} {name : String} (h : ∀ i, P (numbered name i))
    (taken : List String) (i tries : Nat) : P (firstFree taken name i tries) := by
  induction tries generalizing i with
  | zero => exact h i
  | succ tries ih =>
    rw [firstFree]
    split
    · exact ih (i + 1)
    · exact h i

/-- The names issued so far, the latest first, when the names of a list are gone through. -/
def issue (names issued rest : List String) : List String :=
  rest.foldl (fun issued name => fresh names issued name :: issued) issued

theorem length_issue (names issued rest : List String) :
    (issue names issued rest).length = issued.length + rest.length := by
  induction rest generalizing issued with
  | nil => rfl
  | cons name rest ih =>
    rw [issue, List.foldl_cons]
    refine (ih _).trans ?_
    simp only [List.length_cons]
    omega

/-- What is issued has every property that the names have and numbering keeps. -/
theorem forall_mem_issue {P : String → Prop} {names issued rest : List String}
    (hnumbered : ∀ n i, P n → P (numbered n i)) (hissued : ∀ n ∈ issued, P n)
    (hrest : ∀ n ∈ rest, P n) : ∀ n ∈ issue names issued rest, P n := by
  induction rest generalizing issued with
  | nil => exact hissued
  | cons name rest ih =>
    obtain ⟨hname, hrest⟩ := List.forall_mem_cons.mp hrest
    have hfresh : P (fresh names issued name) := by
      unfold fresh
      split
      · exact firstFree_of (fun i => hnumbered name i hname) _ _ _
      · exact hname
    exact ih (List.forall_mem_cons.mpr ⟨hfresh, hissued⟩) hrest

@[simp] theorem length_unique (names : List String) : (unique names).length = names.length := by
  rw [unique, List.length_reverse]
  exact (length_issue names [] names).trans (Nat.zero_add _)

theorem forall_mem_unique {P : String → Prop} {names : List String}
    (hnumbered : ∀ n i, P n → P (numbered n i)) (hnames : ∀ n ∈ names, P n) :
    ∀ n ∈ unique names, P n := by
  intro n hn
  exact forall_mem_issue hnumbered (List.forall_mem_nil _) hnames n (List.mem_reverse.mp hn)

theorem plain_unique {names : List String} (h : ∀ n ∈ names, Plain n) :
    ∀ n ∈ unique names, Plain n :=
  forall_mem_unique (fun _ i hn => plain_numbered hn i) h

end Bindery.Identifier
