import Bindery.Proofs.NumberText
import Bindery.Proofs.Results
import Bindery.Text.Integer

/-!
# Integers in text and their digits

A text denotes an integer apart from how many digits are allowed. The digits that are counted are
those of every script, leading zeros among them, and a text with too many of them is not read
whatever it denotes.
-/

namespace Bindery.Text

open Json (isDigit AllDigits natOfDigits ne_of_isDigit)

/-- The integer that a text denotes, if it may have any number of digits. -/
def Denotes (s : String) (n : Int) : Prop := ∃ limit, readInteger limit s = some n

def digitCount (s : String) : Nat := s.toList.countP fun c => (decimalDigit? c).isSome

theorem decimalDigit?_isSome_of_ascii {c : Char} (h : c.toNat < 0x80) :
    (decimalDigit? c).isSome = isDigit c := by
  have hall : ∀ n < 0x80, (decimalDigit? (Char.ofNat n)).isSome = isDigit (Char.ofNat n) := by
    decide +kernel
  rw [← Char.ofNat_toNat c]
  exact hall c.toNat h

theorem decimalDigit?_eq_some {c : Char} {d : Nat} (h : decimalDigit? c = some d) :
    d < 10 ∧ ∃ z ∈ zeroDigits, c.toNat = z + d := by
  obtain ⟨z, hz, rfl⟩ := Option.map_eq_some_iff.mp h
  have hrange := List.find?_some hz
  simp only [Bool.and_eq_true, decide_eq_true_eq] at hrange
  exact ⟨by omega, z, List.mem_of_find?_eq_some hz, by omega⟩

theorem decimalDigit?_of_isBlank {c : Char} (h : isBlank c) : decimalDigit? c = none := by
  by_contra hdigit
  obtain ⟨d, hd⟩ := Option.ne_none_iff_exists'.mp hdigit
  obtain ⟨hten, z, hz, hcode⟩ := decimalDigit?_eq_some hd
  have hall : ∀ z ∈ zeroDigits, ∀ d < 10, isBlank (Char.ofNat (z + d)) = false := by decide +kernel
  have hnone := hall z hz d hten
  rw [← hcode, Char.ofNat_toNat, h] at hnone
  cases hnone

/-- The ASCII form of a character is a digit just when the character is one. -/
theorem isDigit_of_asciiForm? {c d : Char} (h : asciiForm? c = some d) :
    isDigit d = (decimalDigit? c).isSome := by
  unfold asciiForm? at h
  split at h
  · rename_i hascii
    cases h
    exact (decimalDigit?_isSome_of_ascii (by omega)).symm
  split at h
  · rename_i hblank
    cases h
    rw [decimalDigit?_of_isBlank hblank]
    rfl
  · obtain ⟨k, hk, rfl⟩ := Option.map_eq_some_iff.mp h
    have hall : ∀ k < 10, isDigit (Char.ofNat (48 + k)) = true := by decide
    rw [hk, hall k (decimalDigit?_eq_some hk).1]
    rfl

theorem countP_of_readDigits {value count n m : Nat} {cs : List Char}
    (h : readDigits value count cs = some (n, m)) : m = count + cs.countP isDigit := by
  have hone (c : Char) (rest : List Char) (hc : '0' ≤ c ∧ c ≤ '9') :
      (c :: rest).countP isDigit = rest.countP isDigit + 1 :=
    List.countP_cons_of_pos (by simp [isDigit, hc])
  fun_induction readDigits value count cs with
  | case1 => cases h
  | case2 value count c hc next =>
    obtain ⟨-, rfl⟩ := Prod.mk.inj (Option.some.inj h)
    rw [hone c [] hc]
    rfl
  | case3 value count c hc next rest ih =>
    rw [ih h, hone c _ hc, List.countP_cons_of_neg (by decide)]
    omega
  | case4 value count c hc next rest hend hunderscore ih =>
    rw [ih h, hone c _ hc]
    omega
  | case5 => cases h

theorem isDigit_of_isAsciiBlank {c : Char} (h : isAsciiBlank c) : isDigit c = false := by
  have hascii : c.toNat < 0x80 := by
    simp only [isAsciiBlank, Bool.or_eq_true, Bool.and_eq_true, decide_eq_true_eq] at h
    rcases h with rfl | h
    · decide
    · omega
  rw [← decimalDigit?_isSome_of_ascii hascii, decimalDigit?_of_isBlank (isBlank_of_isAsciiBlank h)]
  rfl

theorem countP_dropWhile_isAsciiBlank (cs : List Char) :
    (cs.dropWhile isAsciiBlank).countP isDigit = cs.countP isDigit := by
  induction cs with
  | nil => rfl
  | cons c cs ih =>
    by_cases hc : isAsciiBlank c
    · rw [List.dropWhile_cons_of_pos hc, ih,
        List.countP_cons_of_neg (by simp [isDigit_of_isAsciiBlank hc])]
    · rw [List.dropWhile_cons_of_neg hc]

theorem countP_trimAscii (cs : List Char) :
    (trimAscii cs).countP isDigit = cs.countP isDigit := by
  rw [trimAscii, List.countP_reverse, countP_dropWhile_isAsciiBlank, List.countP_reverse,
    countP_dropWhile_isAsciiBlank]

/-- Whether an integer is negative, and its digits behind the sign. -/
def signAndDigits : List Char → Bool × List Char
  | '-' :: rest => (true, rest)
  | '+' :: rest => (false, rest)
  | rest => (false, rest)

theorem countP_signAndDigits (cs : List Char) :
    (signAndDigits cs).2.countP isDigit = cs.countP isDigit := by
  unfold signAndDigits
  split
  · exact (List.countP_cons_of_neg (by decide)).symm
  · exact (List.countP_cons_of_neg (by decide)).symm
  · rfl

theorem readAsciiInteger_eq (limit : Nat) (cs : List Char) :
    readAsciiInteger limit cs =
      (readDigits 0 0 (signAndDigits (trimAscii cs)).2).bind fun r =>
        if limit < r.2 then none
        else some (if (signAndDigits (trimAscii cs)).1 then -(r.1 : Int) else r.1) := rfl

/-- A limit does not change what is read, and hinders just the texts that pass it. -/
theorem readAsciiInteger_eq_some_iff {limit : Nat} {cs : List Char} {n : Int} :
    readAsciiInteger limit cs = some n ↔
      (∃ other, readAsciiInteger other cs = some n) ∧ cs.countP isDigit ≤ limit := by
  have hcount {m count : Nat}
      (h : readDigits 0 0 (signAndDigits (trimAscii cs)).2 = some (m, count)) :
      count = cs.countP isDigit := by
    rw [countP_of_readDigits h, countP_signAndDigits, countP_trimAscii, Nat.zero_add]
  simp only [readAsciiInteger_eq, Option.bind_eq_some_iff]
  constructor
  · rintro ⟨⟨m, count⟩, hread, h⟩
    split at h
    · cases h
    · rename_i hfits
      exact ⟨⟨limit, (m, count), hread, by rw [if_neg hfits, h]⟩, by
        rw [← hcount hread]
        exact Nat.le_of_not_lt hfits⟩
  · rintro ⟨⟨other, ⟨m, count⟩, hread, h⟩, hfits⟩
    split at h
    · cases h
    · refine ⟨(m, count), hread, ?_⟩
      rw [if_neg (Nat.not_lt.mpr (hcount hread ▸ hfits)), h]

theorem countP_of_mapM_asciiForm? {cs ds : List Char} (h : cs.mapM asciiForm? = some ds) :
    ds.countP isDigit = cs.countP fun c => (decimalDigit? c).isSome := by
  have hall := mapM_eq_some.mp h
  clear h
  induction hall with
  | nil => rfl
  | cons hform _ ih =>
    rw [List.countP_cons, List.countP_cons, ih, isDigit_of_asciiForm? hform]

/-- An integer is read from a text just when the text denotes it and has no more digits than are
allowed. -/
theorem readInteger_eq_some_iff {limit : Nat} {s : String} {n : Int} :
    readInteger limit s = some n ↔ Denotes s n ∧ digitCount s ≤ limit := by
  unfold Denotes digitCount readInteger
  dsimp only
  split
  · rename_i hascii
    have hcount : s.toList.countP isDigit =
        s.toList.countP fun c => (decimalDigit? c).isSome := by
      apply List.countP_congr
      intro c hc
      have := of_decide_eq_true (List.all_eq_true.mp hascii c hc)
      rw [decimalDigit?_isSome_of_ascii this]
    rw [readAsciiInteger_eq_some_iff, hcount]
  · cases hforms : s.toList.mapM asciiForm? with
    | none => simp
    | some ds =>
      simp only [Option.bind_some]
      rw [readAsciiInteger_eq_some_iff, countP_of_mapM_asciiForm? hforms]

section AllDigits

variable {cs : List Char}

/-- Digits are read as a number and counted. -/
theorem readDigits_of_allDigits (hne : cs ≠ []) (h : AllDigits cs) (value count : Nat) :
    readDigits value count cs =
      some (cs.foldl (fun n c => 10 * n + (c.toNat - 48)) value, count + cs.length) := by
  induction cs generalizing value count with
  | nil => exact absurd rfl hne
  | cons c cs ih =>
    obtain ⟨hc, hcs⟩ := List.forall_mem_cons.mp h
    have hdigit : '0' ≤ c ∧ c ≤ '9' := by simpa [isDigit] using hc
    rw [readDigits.eq_def]
    simp only [hdigit, and_self, if_true]
    split
    · rfl
    · rename_i rest
      exact absurd rfl (ne_of_isDigit (hcs '_' List.mem_cons_self) (by decide))
    · rename_i hrest _
      rw [ih hrest hcs, List.foldl_cons, List.length_cons, Nat.add_right_comm, Nat.add_assoc]

theorem trimAscii_of_allDigits (h : AllDigits cs) : trimAscii cs = cs := by
  have hkept {xs : List Char} (hxs : AllDigits xs) : xs.dropWhile isAsciiBlank = xs := by
    cases xs with
    | nil => rfl
    | cons c xs =>
      apply List.dropWhile_cons_of_neg
      intro hblank
      have hc := hxs c List.mem_cons_self
      rw [isDigit_of_isAsciiBlank hblank] at hc
      cases hc
  have hreverse : AllDigits cs.reverse := fun c hc => h c (List.mem_reverse.mp hc)
  rw [trimAscii, hkept h, hkept hreverse, List.reverse_reverse]

theorem signAndDigits_of_allDigits (h : AllDigits cs) : signAndDigits cs = (false, cs) := by
  unfold signAndDigits
  split
  · exact absurd rfl (ne_of_isDigit (h '-' List.mem_cons_self) (by decide))
  · exact absurd rfl (ne_of_isDigit (h '+' List.mem_cons_self) (by decide))
  · rfl

theorem all_isAscii_of_allDigits (h : AllDigits cs) : cs.all isAscii := by
  refine List.all_eq_true.mpr fun c hc => decide_eq_true ?_
  have hdigit := h c hc
  simp only [isDigit, Bool.and_eq_true, decide_eq_true_eq, Char.le_def, UInt32.le_iff_toNat_le]
    at hdigit
  exact lt_of_le_of_lt hdigit.2 (by decide)

theorem readInteger_of_allDigits (limit : Nat) (hne : cs ≠ []) (h : AllDigits cs) :
    readInteger limit (String.ofList cs) =
      if limit < cs.length then none else some (natOfDigits cs : Int) := by
  rw [readInteger]
  simp only [String.toList_ofList, all_isAscii_of_allDigits h, if_true, readAsciiInteger_eq,
    trimAscii_of_allDigits h, signAndDigits_of_allDigits h, readDigits_of_allDigits hne h,
    Option.bind_some, Nat.zero_add, Bool.false_eq_true, if_false]
  rfl

/-- Leading zeros and all, digits denote their number. -/
theorem denotes_of_allDigits (hne : cs ≠ []) (h : AllDigits cs) :
    Denotes (String.ofList cs) (natOfDigits cs) ∧ digitCount (String.ofList cs) = cs.length := by
  refine ⟨⟨cs.length, ?_⟩, ?_⟩
  · rw [readInteger_of_allDigits cs.length hne h, if_neg (lt_irrefl _)]
  · rw [digitCount, String.toList_ofList, List.countP_eq_length]
    intro c hc
    have hascii := of_decide_eq_true (List.all_eq_true.mp (all_isAscii_of_allDigits h) c hc)
    rw [decimalDigit?_isSome_of_ascii hascii, h c hc]

end AllDigits

end Bindery.Text
