import Mathlib.Data.List.Nodup
import Mathlib.Data.List.Perm.Subperm
import Bindery.Proofs.Identifier

/-!
# Names of their own

An identifier made from a name is none of the reserved words. In a list of identifiers each gets a
name of its own: the first of a kind keeps the identifier, and a repeat takes the least number that
makes it neither one of the identifiers nor a name that has been issued. Numbers differ in their
digits, so among more numbers than there are names one is free, and the search ends.
-/

namespace Bindery.Identifier

def IsIdentifier (s : String) : Prop :=
  ∃ c cs, s.toList = c :: cs ∧ isAllowed c ∧ isDigit c = false ∧ ∀ d ∈ cs, isAllowed d

theorem IsIdentifier.plain {s : String} (h : IsIdentifier s) : Plain s := by
  obtain ⟨c, cs, hs, hc, -, hcs⟩ := h
  rw [Plain, hs]
  exact List.forall_mem_cons.mpr ⟨hc, hcs⟩

theorem isIdentifier_append {s t : String} (hs : IsIdentifier s) (ht : Plain t) :
    IsIdentifier (s ++ t) := by
  obtain ⟨c, cs, hlist, hc, hdigit, hcs⟩ := hs
  refine ⟨c, cs ++ t.toList, ?_, hc, hdigit, List.forall_mem_append.mpr ⟨hcs, ht⟩⟩
  rw [String.toList_append, hlist, List.cons_append]

theorem isIdentifier_shape (cs : List Char) : IsIdentifier (String.ofList (shape cs)) := by
  rw [IsIdentifier, String.toList_ofList]
  unfold shape
  split
  · exact ⟨'_', [], rfl, rfl, rfl, List.forall_mem_nil _⟩
  · rename_i c rest hclean
    have hallowed : ∀ d ∈ c :: rest, isAllowed d := fun d hd => allowed_clean (hclean ▸ hd)
    split
    · exact ⟨'_', c :: rest, rfl, rfl, rfl, hallowed⟩
    · rename_i hdigit
      obtain ⟨hc, hrest⟩ := List.forall_mem_cons.mp hallowed
      exact ⟨c, rest, rfl, hc, Bool.not_eq_true _ ▸ hdigit, hrest⟩

theorem isIdentifier_ofName (name : String) : IsIdentifier (ofName name) := by
  unfold ofName
  dsimp only
  split
  · exact isIdentifier_append (isIdentifier_shape _) plain_underscore
  · exact isIdentifier_shape _

theorem isIdentifier_numbered {name : String} (h : IsIdentifier name) (i : ℕ) :
    IsIdentifier (numbered name i) :=
  isIdentifier_append (isIdentifier_append h plain_underscore) (plain_toString i)

theorem isReserved_iff {s : String} : isReserved s ↔ s ∈ "self" :: keywords := by
  simp [isReserved, or_comm]

/-- No reserved word holds an underscore. -/
theorem not_isReserved_of_underscore {s : String} (h : '_' ∈ s.toList) : ¬ isReserved s := by
  have hwords : ∀ w ∈ "self" :: keywords, '_' ∉ w.toList := by simp [keywords]
  rw [isReserved_iff]
  exact fun hs => hwords s hs h

theorem not_isReserved_ofName (name : String) : ¬ isReserved (ofName name) := by
  unfold ofName
  dsimp only
  split
  · apply not_isReserved_of_underscore
    simp
  · assumption

theorem not_isReserved_numbered (name : String) (i : ℕ) : ¬ isReserved (numbered name i) := by
  apply not_isReserved_of_underscore
  simp [numbered]

theorem numbered_injective (name : String) : Function.Injective (numbered name) := by
  intro i j h
  have hdigits : toString i = toString j := (String.append_right_inj _).mp h
  have hvalue := congrArg (fun s : String => Nat.ofDigitChars 10 s.toList 0) hdigits
  simpa [Nat.toString_eq_ofList_toDigits] using hvalue

/-- The search passes taken names only, and ends at a taken one only when its tries are used up. -/
theorem exists_firstFree_eq (taken : List String) (name : String) (i tries : ℕ) :
    ∃ k, i ≤ k ∧ firstFree taken name i tries = numbered name k ∧
      (∀ j, i ≤ j → j < k → numbered name j ∈ taken) ∧
      (numbered name k ∈ taken → k = i + tries) := by
  induction tries generalizing i with
  | zero => exact ⟨i, Nat.le_refl i, rfl, fun j hij hji => by omega, fun _ => rfl⟩
  | succ tries ih =>
    rw [firstFree]
    by_cases htaken : numbered name i ∈ taken
    · obtain ⟨k, hik, heq, hpassed, hend⟩ := ih (i + 1)
      rw [if_pos (List.contains_iff_mem.mpr htaken)]
      refine ⟨k, by omega, heq, fun j hij hjk => ?_, fun hk => by have := hend hk; omega⟩
      by_cases hji : j = i
      · exact hji ▸ htaken
      · exact hpassed j (by omega) hjk
    · rw [if_neg (mt List.contains_iff_mem.mp htaken)]
      exact ⟨i, Nat.le_refl i, rfl, fun j hij hji => by omega, fun hi => absurd hi htaken⟩

/-- With as many tries as there are taken names a free one is found. -/
theorem exists_firstFree_free {taken : List String} {tries : ℕ} (htries : taken.length ≤ tries)
    (name : String) (i : ℕ) :
    ∃ k, i ≤ k ∧ firstFree taken name i tries = numbered name k ∧ numbered name k ∉ taken ∧
      ∀ j, i ≤ j → j < k → numbered name j ∈ taken := by
  obtain ⟨k, hik, heq, hpassed, hend⟩ := exists_firstFree_eq taken name i tries
  refine ⟨k, hik, heq, fun hk => ?_, hpassed⟩
  have hlast := hend hk
  -- Then there were more taken names than there are.
  have hsubset : (List.range' i (tries + 1)).map (numbered name) ⊆ taken := by
    intro n hn
    obtain ⟨j, hj, rfl⟩ := List.mem_map.mp hn
    obtain ⟨hij, hjk⟩ := List.mem_range'_1.mp hj
    by_cases hjk : j = k
    · exact hjk ▸ hk
    · exact hpassed j hij (by omega)
  have hdistinct : ((List.range' i (tries + 1)).map (numbered name)).Nodup :=
    List.Nodup.map (numbered_injective name) (List.nodup_range' 1)
  have hlength := (hdistinct.subperm hsubset).length_le
  rw [List.length_map, List.length_range'] at hlength
  omega

/-- What is given for a name behind the names `issued`: the name itself where it is new, and else
the name with the least number under which it is free. -/
structure GivenFor (names issued : List String) (name : String) (new : Prop) (given : String) :
    Prop where
  first : new → given = name
  again : ¬ new → ∃ k, 1 ≤ k ∧ given = numbered name k ∧
    (numbered name k ∉ names ∧ numbered name k ∉ issued) ∧
    ∀ j, 1 ≤ j → j < k → numbered name j ∈ names ∨ numbered name j ∈ issued

theorem givenFor_fresh (names issued : List String) (name : String) :
    GivenFor names issued name (name ∉ issued) (fresh names issued name) where
  first hnew := if_neg (mt List.contains_iff_mem.mp hnew)
  again hold := by
    have htries : (names ++ issued).length ≤ names.length + issued.length := by simp
    obtain ⟨k, hk, heq, hfree, hleast⟩ := exists_firstFree_free htries name 1
    refine ⟨k, hk, ?_, by simpa using hfree, fun j hj hjk => by simpa using hleast j hj hjk⟩
    rw [fresh, if_pos (List.contains_iff_mem.mpr (Decidable.not_not.mp hold))]
    exact heq

/-- What holds of the names issued to the first names of a list, the latest first: they are
distinct, and of the names in the list just those are issued that have occurred. -/
structure Tracks (names before issued : List String) : Prop where
  distinct : issued.Nodup
  mem_iff : ∀ n ∈ names, n ∈ issued ↔ n ∈ before

variable {names before issued : List String}

theorem tracks_nil (names : List String) : Tracks names [] [] where
  distinct := List.nodup_nil
  mem_iff _ _ := Iff.rfl

theorem Tracks.step (h : Tracks names before issued) {name : String} (hname : name ∈ names) :
    Tracks names (before ++ [name]) (fresh names issued name :: issued) := by
  have hgiven := givenFor_fresh names issued name
  by_cases hnew : name ∉ issued
  · rw [hgiven.first hnew]
    refine ⟨List.nodup_cons.mpr ⟨hnew, h.distinct⟩, fun n hn => ?_⟩
    rw [List.mem_cons, h.mem_iff n hn, List.mem_append, List.mem_singleton, or_comm]
  · obtain ⟨k, -, heq, ⟨hnames, hfree⟩, -⟩ := hgiven.again hnew
    rw [heq]
    refine ⟨List.nodup_cons.mpr ⟨hfree, h.distinct⟩, fun n hn => ?_⟩
    have hne : n ≠ numbered name k := fun heq => hnames (heq ▸ hn)
    have hbefore : name ∈ before := (h.mem_iff name hname).mp (Decidable.not_not.mp hnew)
    rw [List.mem_cons, or_iff_right hne, h.mem_iff n hn, List.mem_append, List.mem_singleton]
    exact ⟨.inl, fun h => h.elim id fun heq => heq ▸ hbefore⟩

theorem Tracks.run (h : Tracks names before issued) {rest : List String}
    (hrest : ∀ n ∈ rest, n ∈ names) : Tracks names (before ++ rest) (issue names issued rest) := by
  induction rest generalizing before issued with
  | nil => rwa [List.append_nil]
  | cons name rest ih =>
    obtain ⟨hname, hrest⟩ := List.forall_mem_cons.mp hrest
    have hall := ih (h.step hname) hrest
    rwa [List.append_assoc] at hall

theorem issue_append (names issued as bs : List String) :
    issue names issued (as ++ bs) = issue names (issue names issued as) bs := List.foldl_append

theorem suffix_issue (names issued rest : List String) : issued <:+ issue names issued rest := by
  induction rest generalizing issued with
  | nil => exact List.suffix_refl issued
  | cons name rest ih => exact (List.suffix_cons _ issued).trans (ih _)

structure Issues (names issued : List String) : Prop where
  length_eq : issued.length = names.length
  distinct : issued.Nodup
  given : ∀ before name after, names = before ++ name :: after →
    ∃ done given later, issued = done ++ given :: later ∧ done.length = before.length ∧
      GivenFor names done name (name ∉ before) given

theorem issues_unique (names : List String) : Issues names (unique names) where
  length_eq := length_unique names
  distinct := List.nodup_reverse.mpr ((tracks_nil names).run fun _ hn => hn).distinct
  given before name after hsplit := by
    have hbefore : ∀ n ∈ before, n ∈ names := fun n hn => hsplit ▸ List.mem_append_left _ hn
    have hname : name ∈ names := hsplit ▸ List.mem_append_right _ List.mem_cons_self
    let done := issue names [] before
    have htracks : Tracks names before done := (tracks_nil names).run hbefore
    obtain ⟨later, hlater⟩ := suffix_issue names (fresh names done name :: done) after
    have hissued : issue names [] names = later ++ fresh names done name :: done := by
      rw [hlater]
      calc issue names [] names
          = issue names [] (before ++ name :: after) := congrArg (issue names []) hsplit
        _ = issue names (fresh names done name :: done) after := issue_append names [] before _
    refine ⟨done.reverse, fresh names done name, later.reverse, ?_, ?_, ?_⟩
    · have hunique : unique names = (issue names [] names).reverse := rfl
      rw [hunique, hissued]
      simp
    · rw [List.length_reverse, length_issue, List.length_nil, Nat.zero_add]
    · have hgiven := givenFor_fresh names done name
      rw [htracks.mem_iff name hname] at hgiven
      exact ⟨hgiven.first, by simpa only [List.mem_reverse] using hgiven.again⟩

/-- The names issued to names that are identifiers and not reserved are so too. -/
theorem identifiers_unique {names : List String}
    (h : ∀ n ∈ names, IsIdentifier n ∧ ¬ isReserved n) :
    ∀ n ∈ unique names, IsIdentifier n ∧ ¬ isReserved n :=
  forall_mem_unique
    (fun n i hn => ⟨isIdentifier_numbered hn.1 i, not_isReserved_numbered n i⟩) h

/-- A numbered name that is there already keeps its number from a repeat, before it as behind it. -/
example : unique ["x", "x_1", "x", "x", "x_2", "x_1"] =
    ["x", "x_1", "x_3", "x_4", "x_2", "x_1_1"] := by decide +kernel

end Bindery.Identifier
