import Bindery.Base58
import Bindery.Proofs.Results
import Mathlib.Algebra.Group.Nat.Defs
import Mathlib.Data.List.GetD
import Mathlib.Data.List.Induction

/-!
# Reading Base58 back

Digits in any base stand for a number, and a run of digits that does not start with zero is the one
that the number is written with. A byte string is its leading zeros and a number, and so is a text
of Base58 digits, so that each has one text and each text that is read is the text of what it gives,
up to the blanks behind it.
-/

namespace Bindery.Base58

def numberOf (base : Nat) (ds : List Nat) : Nat := ds.foldl (fun n d => base * n + d) 0

structure Canonical (base : Nat) (ds : List Nat) : Prop where
  bound : ∀ d ∈ ds, d < base
  lead : ds.head? ≠ some 0

section

variable {base : Nat} {ds : List Nat}

theorem numberOf_append (base : Nat) (ds : List Nat) (d : Nat) :
    numberOf base (ds ++ [d]) = base * numberOf base ds + d := by
  rw [numberOf, List.foldl_append]
  rfl

theorem numberOf_zeros (base zeros : Nat) (ds : List Nat) :
    numberOf base (List.replicate zeros 0 ++ ds) = numberOf base ds := by
  have hzeros : numberOf base (List.replicate zeros 0) = 0 := by
    induction zeros with
    | zero => rfl
    | succ zeros ih =>
      rw [List.replicate_succ', numberOf_append, ih, Nat.mul_zero]
  rw [numberOf, List.foldl_append]
  exact congrArg (fun n => ds.foldl (fun n d => base * n + d) n) hzeros

theorem numberOf_lt (h : ∀ d ∈ ds, d < base) : numberOf base ds < base ^ ds.length := by
  induction ds using List.reverseRecOn with
  | nil => exact Nat.one_pos
  | append_singleton ds d ih =>
    have hd : d < base := h d (by simp)
    have hfront := ih fun e he => h e (List.mem_append_left [d] he)
    rw [numberOf_append, List.length_append, List.length_singleton, Nat.pow_succ']
    calc base * numberOf base ds + d < base * numberOf base ds + base := Nat.add_lt_add_left hd _
      _ = base * (numberOf base ds + 1) := (Nat.mul_succ _ _).symm
      _ ≤ base * base ^ ds.length := Nat.mul_le_mul_left base hfront

theorem Canonical.of_append {d : Nat} (h : Canonical base (ds ++ [d])) : Canonical base ds where
  bound := fun e he => h.bound e (List.mem_append_left [d] he)
  lead := by
    have hlead := h.lead
    cases ds with
    | nil => simp
    | cons e ds => exact hlead

theorem Canonical.append {d : Nat} (h : Canonical base ds) (hd : d < base)
    (hlead : ds = [] → d ≠ 0) : Canonical base (ds ++ [d]) where
  bound := by
    intro e he
    rcases List.mem_append.mp he with he | he
    · exact h.bound e he
    · rwa [List.mem_singleton.mp he]
  lead := by
    cases ds with
    | nil => simpa using hlead rfl
    | cons e ds => exact h.lead

variable {h : 1 < base}

theorem digitsOf_zero : digitsOf base h 0 = [] := by
  rw [digitsOf, if_pos rfl]

theorem digitsOf_of_ne_zero {n : Nat} (hn : n ≠ 0) :
    digitsOf base h n = digitsOf base h (n / base) ++ [n % base] := by
  rw [digitsOf, if_neg hn]

theorem numberOf_digitsOf (n : Nat) : numberOf base (digitsOf base h n) = n := by
  induction n using Nat.strongRecOn with
  | ind n ih =>
    by_cases hn : n = 0
    · rw [hn, digitsOf_zero]
      rfl
    · rw [digitsOf_of_ne_zero hn, numberOf_append, ih _ (Nat.div_lt_self (by omega) h)]
      exact Nat.div_add_mod n base

theorem canonical_digitsOf (n : Nat) : Canonical base (digitsOf base h n) := by
  induction n using Nat.strongRecOn with
  | ind n ih =>
    by_cases hn : n = 0
    · rw [hn, digitsOf_zero]
      exact ⟨nofun, nofun⟩
    · rw [digitsOf_of_ne_zero hn]
      refine (ih _ (Nat.div_lt_self (by omega) h)).append (Nat.mod_lt n (by omega)) fun hnil => ?_
      have hquotient := numberOf_digitsOf (h := h) (n / base)
      rw [hnil] at hquotient
      have hdivision := Nat.div_add_mod n base
      rw [← hquotient] at hdivision
      change base * 0 + n % base = n at hdivision
      omega

/-- A number has no other digits than the ones that it is written with. -/
theorem digitsOf_numberOf (hds : Canonical base ds) : digitsOf base h (numberOf base ds) = ds := by
  induction ds using List.reverseRecOn with
  | nil => exact digitsOf_zero
  | append_singleton ds d ih =>
    have hd : d < base := hds.bound d (by simp)
    have hfront := ih hds.of_append
    have hne : base * numberOf base ds + d ≠ 0 := by
      intro hzero
      have hfirst : numberOf base ds = 0 := by
        rcases Nat.mul_eq_zero.mp (Nat.eq_zero_of_add_eq_zero hzero).1 with hbase | hnumber
        · omega
        · exact hnumber
      rw [hfirst, digitsOf_zero] at hfront
      have hlead := hds.lead
      rw [← hfront, (Nat.eq_zero_of_add_eq_zero hzero).2] at hlead
      exact hlead rfl
    rw [numberOf_append, digitsOf_of_ne_zero hne, Nat.mul_add_div (by omega),
      Nat.div_eq_of_lt hd, Nat.add_zero, Nat.mul_add_mod, Nat.mod_eq_of_lt hd, hfront]

theorem length_digitsOf_le {n width : Nat} (hn : n < base ^ width) :
    (digitsOf base h n).length ≤ width := by
  induction width generalizing n with
  | zero =>
    obtain rfl : n = 0 := by simpa using hn
    rw [digitsOf_zero]
    exact Nat.le_refl 0
  | succ width ih =>
    by_cases hzero : n = 0
    · rw [hzero, digitsOf_zero]
      exact Nat.zero_le _
    · rw [Nat.pow_succ'] at hn
      have hshorter := ih (Nat.div_lt_of_lt_mul hn)
      rw [digitsOf_of_ne_zero hzero, List.length_append, List.length_singleton]
      omega

end

theorem toNatBig_eq (b : Bytes) : b.toNatBig = numberOf 256 (b.map UInt8.toNat) := by
  induction b using List.reverseRecOn with
  | nil => rfl
  | append_singleton b x ih =>
    have hlast : Bytes.toNatBig (b ++ [x]) = x.toNat + 256 * Bytes.toNatBig b := by
      rw [Bytes.toNatBig, List.reverse_append]
      rfl
    rw [hlast, ih, List.map_append, List.map_singleton, numberOf_append, Nat.add_comm]

theorem toNatBig_lt (b : Bytes) : b.toNatBig < 256 ^ b.length := by
  have hbytes : ∀ d ∈ b.map UInt8.toNat, d < 256 := by
    intro d hd
    obtain ⟨x, -, rfl⟩ := List.mem_map.mp hd
    exact x.toNat_lt
  have hlength : (b.map UInt8.toNat).length = b.length := List.length_map _
  rw [toNatBig_eq, ← hlength]
  exact numberOf_lt hbytes

theorem length_alphabet : alphabet.length = 58 := rfl

theorem nodup_alphabet : alphabet.Nodup := by decide

theorem digit_eq_getElem {d : Nat} (hd : d < alphabet.length) : digit d = alphabet[d] :=
  List.getD_eq_getElem _ _ hd

theorem digitValue?_digit {d : Nat} (hd : d < 58) : digitValue? (digit d) = some d := by
  rw [← length_alphabet] at hd
  rw [digit_eq_getElem hd, digitValue?, if_pos (List.getElem_mem hd),
    nodup_alphabet.idxOf_getElem]

theorem digitValue?_eq_some {c : Char} {d : Nat} (h : digitValue? c = some d) :
    d < 58 ∧ digit d = c := by
  unfold digitValue? at h
  split at h
  · rename_i hc
    obtain rfl := Option.some.inj h
    have hindex := List.idxOf_lt_length_iff.mpr hc
    rw [digit_eq_getElem hindex, List.getElem_idxOf, ← length_alphabet]
    exact ⟨hindex, rfl⟩
  · cases h

theorem digit_eq_one_iff {d : Nat} (hd : d < 58) : digit d = '1' ↔ d = 0 := by
  have hone : digitValue? (digit 0) = some 0 := digitValue?_digit (by decide)
  constructor
  · intro h
    have hzero : digit 0 = '1' := rfl
    rw [hzero, ← h, digitValue?_digit hd] at hone
    exact Option.some.inj hone
  · rintro rfl
    rfl

theorem isBlank_digit (d : Nat) : Text.isBlank (digit d) = false := by
  have hall : alphabet.all fun c => !Text.isBlank c := by decide
  by_cases hd : d < alphabet.length
  · rw [digit_eq_getElem hd]
    exact (Bool.not_eq_true' _).mp (List.all_eq_true.mp hall _ (List.getElem_mem hd))
  · rw [digit, List.getD_eq_default _ _ (Nat.not_lt.mp hd)]
    rfl

/-- Characters and the digits that they are, as they are read and as they are written. -/
theorem digitValues?_eq_some_iff {cs : List Char} {ds : List Nat} :
    digitValues? cs = some ds ↔ (∀ d ∈ ds, d < 58) ∧ ds.map digit = cs := by
  rw [digitValues?, mapM_eq_some]
  constructor
  · intro h
    induction h with
    | nil => exact ⟨nofun, rfl⟩
    | cons hc _ ih =>
      obtain ⟨hd, hdigit⟩ := digitValue?_eq_some hc
      exact ⟨List.forall_mem_cons.mpr ⟨hd, ih.1⟩, by rw [List.map_cons, hdigit, ih.2]⟩
  · rintro ⟨hds, rfl⟩
    induction ds with
    | nil => exact .nil
    | cons d ds ih =>
      obtain ⟨hd, hds⟩ := List.forall_mem_cons.mp hds
      exact .cons (digitValue?_digit hd) (ih hds)

/-- A list is the run of one element in front and a rest that starts with another. -/
theorem exists_eq_replicate_append {α : Type} [DecidableEq α] (a : α) (xs : List α) :
    ∃ n rest, xs = List.replicate n a ++ rest ∧ rest.head? ≠ some a := by
  refine ⟨(xs.takeWhile (· = a)).length, xs.dropWhile (· = a), ?_, ?_⟩
  · have hrun : xs.takeWhile (· = a) = List.replicate (xs.takeWhile (· = a)).length a := by
      rw [List.eq_replicate_iff]
      refine ⟨rfl, fun b hb => ?_⟩
      simpa using List.all_eq_true.mp List.all_takeWhile b hb
    rw [← hrun, List.takeWhile_append_dropWhile]
  · intro hhead
    have hstops := List.head?_dropWhile_not (· = a) xs
    rw [hhead] at hstops
    simp at hstops

theorem takeWhile_replicate_append {α : Type} [DecidableEq α] {a : α} {rest : List α}
    (h : rest.head? ≠ some a) (n : Nat) :
    (List.replicate n a ++ rest).takeWhile (· = a) = List.replicate n a := by
  have hrest : rest.takeWhile (· = a) = [] := by
    cases rest with
    | nil => rfl
    | cons b rest =>
      rw [List.takeWhile_cons_of_neg]
      simpa using h
  induction n with
  | zero => exact hrest
  | succ n ih =>
    rw [List.replicate_succ, List.cons_append, List.takeWhile_cons_of_pos (by simp), ih]

theorem head?_map_ofNat {ds : List Nat} (h : Canonical 256 ds) :
    (ds.map UInt8.ofNat).head? ≠ some 0 := by
  cases ds with
  | nil => simp
  | cons d ds =>
    have hd : d < 256 := h.bound d List.mem_cons_self
    intro hzero
    have hbyte : (UInt8.ofNat d).toNat = (0 : UInt8).toNat :=
      congrArg UInt8.toNat (Option.some.inj hzero)
    rw [UInt8.toNat_ofNat_of_lt' hd] at hbyte
    exact h.lead (congrArg some hbyte)

theorem map_toNat_map_ofNat {ds : List Nat} (h : Canonical 256 ds) :
    (ds.map UInt8.ofNat).map UInt8.toNat = ds := by
  rw [List.map_map]
  exact (List.map_congr_left fun d hd => UInt8.toNat_ofNat_of_lt' (h.bound d hd)).trans
    (List.map_id ds)

theorem map_ofNat_map_toNat (b : Bytes) : (b.map UInt8.toNat).map UInt8.ofNat = b := by
  rw [List.map_map]
  exact (List.map_congr_left fun x _ => UInt8.ofNat_toNat).trans (List.map_id b)

theorem canonical_map_toNat {b : Bytes} (h : b.head? ≠ some 0) :
    Canonical 256 (b.map UInt8.toNat) where
  bound := by
    intro d hd
    obtain ⟨x, -, rfl⟩ := List.mem_map.mp hd
    exact x.toNat_lt
  lead := by
    cases b with
    | nil => simp
    | cons x b =>
      intro hzero
      exact h (congrArg some (UInt8.toNat_inj.mp (Option.some.inj hzero)))

theorem canonical_of_map_digit {ds : List Nat} (hds : ∀ d ∈ ds, d < 58)
    (h : (ds.map digit).head? ≠ some '1') : Canonical 58 ds where
  bound := hds
  lead := by
    cases ds with
    | nil => simp
    | cons d ds =>
      intro hzero
      exact h (congrArg some ((digit_eq_one_iff (hds d List.mem_cons_self)).mpr
        (Option.some.inj hzero)))

theorem head?_map_digit {ds : List Nat} (h : Canonical 58 ds) :
    (ds.map digit).head? ≠ some '1' := by
  cases ds with
  | nil => simp
  | cons d ds =>
    intro hone
    have hd := (digit_eq_one_iff (h.bound d List.mem_cons_self)).mp (Option.some.inj hone)
    exact h.lead (congrArg some hd)

/-- The text of a byte string by its leading zeros and what follows them. -/
theorem encode_eq {rest : Bytes} (h : rest.head? ≠ some 0) (zeros : Nat) :
    encode (List.replicate zeros 0 ++ rest) = String.ofList (List.replicate zeros '1' ++
      (digitsOf 58 (by decide) (numberOf 256 (rest.map UInt8.toNat))).map digit) := by
  rw [encode, takeWhile_replicate_append h, List.length_replicate, toNatBig_eq, List.map_append,
    List.map_replicate]
  exact congrArg (fun n => String.ofList (_ ++ (digitsOf 58 (by decide) n).map digit))
    (numberOf_zeros 256 zeros _)

/-- What a text gives, by its leading digits `1` and what follows them. -/
theorem decode?_eq {s : String} {cs : List Char} {zeros : Nat} (h : cs.head? ≠ some '1')
    (hs : Text.trimEndChars s.toList = List.replicate zeros '1' ++ cs) :
    decode? s = (digitValues? cs).map fun ds =>
      List.replicate zeros 0 ++ (digitsOf 256 (by decide) (numberOf 58 ds)).map UInt8.ofNat := by
  have hcount : ((List.replicate zeros '1' ++ cs).takeWhile (· = '1')).length = zeros := by
    rw [takeWhile_replicate_append h, List.length_replicate]
  have hdrop : (List.replicate zeros '1' ++ cs).drop zeros = cs := by
    rw [List.drop_append, List.length_replicate, Nat.sub_self, List.drop_zero,
      List.drop_of_length_le (by simp), List.nil_append]
  unfold decode?
  dsimp only
  rw [hs, hcount, hdrop]
  cases digitValues? cs <;> rfl

/-- A text gives the bytes that it is the text of, up to the blanks behind it, and no others. -/
theorem decode?_eq_some_iff {s : String} {b : Bytes} :
    decode? s = some b ↔ Text.trimEnd s = encode b := by
  constructor
  · intro h
    obtain ⟨zeros, cs, hcs, hlead⟩ := exists_eq_replicate_append '1' (Text.trimEndChars s.toList)
    rw [decode?_eq hlead hcs, Option.map_eq_some_iff] at h
    obtain ⟨ds, hds, rfl⟩ := h
    obtain ⟨hbound, rfl⟩ := digitValues?_eq_some_iff.mp hds
    have hcanonical := canonical_digitsOf (h := show 1 < 256 by decide) (numberOf 58 ds)
    rw [encode_eq (head?_map_ofNat hcanonical), map_toNat_map_ofNat hcanonical,
      numberOf_digitsOf, digitsOf_numberOf (canonical_of_map_digit hbound hlead), ← hcs]
    rfl
  · intro h
    obtain ⟨zeros, rest, rfl, hlead⟩ := exists_eq_replicate_append 0 b
    have hcanonical := canonical_digitsOf (h := show 1 < 58 by decide)
      (numberOf 256 (rest.map UInt8.toNat))
    rw [encode_eq hlead] at h
    have htext := String.ofList_injective h
    rw [decode?_eq (head?_map_digit hcanonical) htext,
      digitValues?_eq_some_iff.mpr ⟨hcanonical.bound, rfl⟩, Option.map_some, numberOf_digitsOf,
      digitsOf_numberOf (canonical_map_toNat hlead), map_ofNat_map_toNat]

theorem trimEndChars_of_forall {cs : List Char} (h : ∀ c ∈ cs, Text.isBlank c = false) :
    Text.trimEndChars cs = cs := by
  have hlast : cs.reverse.dropWhile Text.isBlank = cs.reverse := by
    cases hcs : cs.reverse with
    | nil => rfl
    | cons c rest =>
      have hc : c ∈ cs := List.mem_reverse.mp (hcs ▸ List.mem_cons_self)
      rw [List.dropWhile_cons_of_neg (by simp [h c hc])]
  rw [Text.trimEndChars, hlast, List.reverse_reverse]

theorem trimEnd_encode (b : Bytes) : Text.trimEnd (encode b) = encode b := by
  have hchars : ∀ c ∈ (encode b).toList, Text.isBlank c = false := by
    intro c hc
    rw [encode, String.toList_ofList] at hc
    rcases List.mem_append.mp hc with hc | hc
    · rw [List.eq_of_mem_replicate hc]
      decide
    · obtain ⟨d, -, rfl⟩ := List.mem_map.mp hc
      exact isBlank_digit d
  rw [Text.trimEnd, trimEndChars_of_forall hchars, String.ofList_toList]

/-- A text has at most `width` digits where its bytes start with no zero and are a number of so
many digits. -/
theorem length_encode_le {b : Bytes} {width : Nat} (hlead : b.head? ≠ some 0)
    (h : b.toNatBig < 58 ^ width) : (encode b).length ≤ width := by
  have hrun : b.takeWhile (· = 0) = [] := by
    cases b with
    | nil => rfl
    | cons x b =>
      rw [List.takeWhile_cons_of_neg]
      simpa using hlead
  rw [encode, hrun, ← String.length_toList, String.toList_ofList]
  simpa using length_digitsOf_le h

end Bindery.Base58
