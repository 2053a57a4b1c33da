import Bindery.Failure
import Bindery.Proofs.HexText
import Mathlib.Data.List.Infix

/-!
# Texts that a key is no part of

The text of a key is 64 characters of which at most one is no hexadecimal digit. A sentence of a
message has few digits, and what is put into it stands between separators, so that the key can only
be part of the sentence by being part of what is put in. The exception is a key whose odd character
is a separator itself, which is also the case in which the key is shown where it is refused.
-/

namespace Bindery

def isHexDigit (c : Char) : Bool := (Hex.digitValue? c).isSome

/-- The text of a key, with at most one character mistyped. -/
structure KeyText (k : List Char) : Prop where
  length : k.length = 64
  mistyped : k.countP (!isHexDigit ·) ≤ 1

instance (k : List Char) : Decidable (KeyText k) :=
  decidable_of_iff (k.length = 64 ∧ k.countP (!isHexDigit ·) ≤ 1)
    ⟨fun h => ⟨h.1, h.2⟩, fun h => ⟨h.length, h.mistyped⟩⟩

/-- The text is no key, and what is shown of it holds it as it is. -/
def Echoed (k : List Char) : Prop :=
  Hex.readPairs (Hex.dropMarkerChars k) = none ∧ k <:+: Text.quoteChars k

instance (k : List Char) : Decidable (Echoed k) := inferInstanceAs (Decidable (_ ∧ _))

/-- A character that is shown as it is and that no text with a hexadecimal marker needs. -/
def isSeparator (c : Char) : Bool :=
  Text.isPrintable c && !isHexDigit c && c ≠ '\\' && c ≠ 'x' && c ≠ 'X'

structure Secret (k : List Char) : Prop where
  digits : 63 ≤ k.countP isHexDigit
  separators : ∀ c ∈ k, isSeparator c = false

section Keys

variable {k : List Char}

theorem KeyText.digits (h : KeyText k) : 63 ≤ k.countP isHexDigit := by
  have hcount := List.length_eq_countP_add_countP isHexDigit (l := k)
  have hother : k.countP (fun c => ¬ isHexDigit c) = k.countP (!isHexDigit ·) := by
    refine List.countP_congr fun c _ => ?_
    simp
  rw [hother, h.length] at hcount
  have hmistyped := h.mistyped
  omega

/-- A text with one odd character is digits around it. -/
theorem KeyText.split (h : KeyText k) {c : Char} (hc : c ∈ k) (hodd : isHexDigit c = false) :
    ∃ before after, k = before ++ c :: after ∧
      (∀ d ∈ before, isHexDigit d) ∧ ∀ d ∈ after, isHexDigit d := by
  obtain ⟨before, after, rfl⟩ := List.append_of_mem hc
  have hmistyped := h.mistyped
  rw [List.countP_append, List.countP_cons_of_pos (by simp [hodd])] at hmistyped
  have hnone : before.countP (!isHexDigit ·) = 0 ∧ after.countP (!isHexDigit ·) = 0 := by omega
  rw [List.countP_eq_zero, List.countP_eq_zero] at hnone
  exact ⟨before, after, rfl, by simpa using hnone⟩

theorem isHexDigit_of_isBlank {c : Char} (hc : Hex.isBlank c) : isHexDigit c = false := by
  simp only [Hex.isBlank, Bool.or_eq_true, decide_eq_true_eq] at hc
  rcases hc with ((((rfl | rfl) | rfl) | rfl) | rfl) | rfl <;> decide

/-- What is read are pairs of digits, with blanks between them. -/
theorem readPairs_eq_some {cs : List Char} {bytes : Bytes} (h : Hex.readPairs cs = some bytes) :
    cs.countP isHexDigit = 2 * bytes.length ∧ ∀ c ∈ cs, isHexDigit c ∨ Hex.isBlank c := by
  induction cs using Hex.readPairs.induct generalizing bytes with
  | case1 =>
    cases h
    simp
  | case2 c hc =>
    rw [Hex.readPairs, if_pos hc] at h
    cases h
    simp [isHexDigit_of_isBlank hc, hc]
  | case3 c hc =>
    rw [Hex.readPairs, if_neg hc] at h
    cases h
  | case4 c d rest hc ih =>
    rw [Hex.readPairs, if_pos hc] at h
    obtain ⟨hcount, hall⟩ := ih h
    refine ⟨?_, List.forall_mem_cons.mpr ⟨.inr hc, hall⟩⟩
    rw [List.countP_cons_of_neg (by simp [isHexDigit_of_isBlank hc]), hcount]
  | case5 c d rest hc ih =>
    rw [Hex.readPairs, if_neg hc] at h
    simp only [Option.bind_eq_bind, Option.bind_eq_some_iff, Option.pure_def, Option.some.injEq]
      at h
    obtain ⟨high, hhigh, low, hlow, tail, htail, rfl⟩ := h
    obtain ⟨hcount, hall⟩ := ih htail
    have hc : isHexDigit c := by simp [isHexDigit, hhigh]
    have hd : isHexDigit d := by simp [isHexDigit, hlow]
    refine ⟨?_, List.forall_mem_cons.mpr ⟨.inl hc, List.forall_mem_cons.mpr ⟨.inl hd, hall⟩⟩⟩
    rw [List.countP_cons_of_pos hc, List.countP_cons_of_pos hd, hcount, List.length_cons]
    omega

/-- A text without a marker and with an odd character is no key. -/
theorem KeyText.readPairs_eq_none (h : KeyText k) {c : Char} (hc : c ∈ k)
    (hodd : isHexDigit c = false) : Hex.readPairs k = none := by
  cases hread : Hex.readPairs k with
  | none => rfl
  | some bytes =>
    obtain ⟨before, after, hk, hbefore, hafter⟩ := h.split hc hodd
    have hlength := h.length
    have hcount := (readPairs_eq_some hread).1
    rw [hk, List.length_append, List.length_cons] at hlength
    rw [hk, List.countP_append, List.countP_cons_of_neg (by simp [hodd]),
      List.countP_eq_length.mpr hbefore, List.countP_eq_length.mpr hafter] at hcount
    omega

/-- Printable characters other than the mark and the backslash are shown as they are. -/
theorem quoteChars_of_plain {cs : List Char} {mark : Char} (hmark : Text.quotationMark cs = mark)
    (h : ∀ c ∈ cs, Text.isPrintable c ∧ c ≠ '\\' ∧ c ≠ mark) :
    Text.quoteChars cs = mark :: (cs ++ [mark]) := by
  have hescape : ∀ c ∈ cs, Text.escapeChar mark c = [c] := by
    intro c hc
    obtain ⟨hprintable, hbackslash, hne⟩ := h c hc
    have hcontrol : c ≠ '\n' ∧ c ≠ '\r' ∧ c ≠ '\t' := by
      refine ⟨?_, ?_, ?_⟩ <;> rintro rfl <;> exact absurd hprintable (by decide)
    simp [Text.escapeChar, hprintable, hbackslash, hne, hcontrol]
  rw [Text.quoteChars, hmark, List.flatMap_congr hescape]
  simp

theorem ne_of_isHexDigit {c d : Char} (hc : isHexDigit c) (hd : isHexDigit d = false) : c ≠ d := by
  rintro rfl
  simp [hd] at hc

theorem isPrintable_of_isHexDigit {c : Char} (hc : isHexDigit c) : Text.isPrintable c := by
  have hrange : 0x20 ≤ c.toNat ∧ c.toNat < 0x7f := by
    simp only [isHexDigit, Hex.digitValue?] at hc
    split_ifs at hc with hdigit hlower hupper
    · exact ⟨le_trans (by decide) (Char.le_def.mp hdigit.1), lt_of_le_of_lt
        (Char.le_def.mp hdigit.2) (by decide)⟩
    · exact ⟨le_trans (by decide) (Char.le_def.mp hlower.1), lt_of_le_of_lt
        (Char.le_def.mp hlower.2) (by decide)⟩
    · exact ⟨le_trans (by decide) (Char.le_def.mp hupper.1), lt_of_le_of_lt
        (Char.le_def.mp hupper.2) (by decide)⟩
    · cases hc
  simp [Text.isPrintable, hrange]

theorem KeyText.eq_of_odd (h : KeyText k) {c d : Char} (hc : c ∈ k) (hodd : isHexDigit c = false)
    (hd : d ∈ k) (hodd' : isHexDigit d = false) : d = c := by
  obtain ⟨before, after, rfl, hbefore, hafter⟩ := h.split hc hodd
  rcases List.mem_append.mp hd with hd | hd
  · exact absurd rfl (ne_of_isHexDigit (hbefore d hd) hodd')
  rcases List.mem_cons.mp hd with hd | hd
  · exact hd
  · exact absurd rfl (ne_of_isHexDigit (hafter d hd) hodd')

/-- A key with a separator is shown where it is refused, and it always is. -/
theorem KeyText.echoed (h : KeyText k) {c : Char} (hc : c ∈ k) (hseparator : isSeparator c) :
    Echoed k := by
  simp only [isSeparator, Bool.and_eq_true, Bool.not_eq_true', decide_eq_true_eq] at hseparator
  obtain ⟨⟨⟨⟨hprintable, hodd⟩, hbackslash⟩, hx⟩, hX⟩ := hseparator
  have hother {d : Char} (hd : d ∈ k) : isHexDigit d ∨ d = c := by
    by_cases hdigit : isHexDigit d
    · exact .inl hdigit
    · exact .inr (h.eq_of_odd hc hodd hd (Bool.not_eq_true _ ▸ hdigit))
  have hmarker : Hex.dropMarkerChars k = k := by
    unfold Hex.dropMarkerChars
    split
    · exact absurd (h.eq_of_odd hc hodd (d := 'x') (by simp) (by decide)) (Ne.symm hx)
    · exact absurd (h.eq_of_odd hc hodd (d := 'X') (by simp) (by decide)) (Ne.symm hX)
    · rfl
  have hquoted : Text.quoteChars k =
      Text.quotationMark k :: (k ++ [Text.quotationMark k]) := by
    refine quoteChars_of_plain rfl fun d hd => ?_
    rcases hother hd with hdigit | rfl
    · refine ⟨isPrintable_of_isHexDigit hdigit, ne_of_isHexDigit hdigit (by decide), ?_⟩
      refine ne_of_isHexDigit hdigit ?_
      unfold Text.quotationMark
      split_ifs <;> decide
    · refine ⟨hprintable, hbackslash, ?_⟩
      unfold Text.quotationMark
      simp only [Bool.and_eq_true, Bool.not_eq_true', List.contains_eq_mem,
        decide_eq_false_iff_not, decide_eq_true_eq]
      split_ifs with hmark
      · rintro rfl
        exact hmark.2 hd
      · rintro rfl
        have hboth : '"' ∈ k := not_not.mp fun hnone => hmark ⟨hd, hnone⟩
        exact absurd (h.eq_of_odd hc hodd hboth (by decide)) (by decide)
  refine ⟨by rw [hmarker, h.readPairs_eq_none hc hodd], ?_⟩
  rw [hquoted]
  exact ⟨[Text.quotationMark k], [Text.quotationMark k], by simp⟩

theorem KeyText.secret (h : KeyText k) (hecho : ¬ Echoed k) : Secret k where
  digits := h.digits
  separators c hc := by
    by_contra hseparator
    exact hecho (h.echoed hc (by simpa using hseparator))

end Keys

def Conceals (k : List Char) (s : String) : Prop := ¬ k <:+: s.toList

instance (k : List Char) (s : String) : Decidable (Conceals k s) :=
  inferInstanceAs (Decidable (¬ _))

/-- A piece of a sentence that ends in a separator and has few digits. -/
def IsLead (s : String) : Prop :=
  s.toList.getLast?.any isSeparator ∧ s.toList.countP isHexDigit < 63

/-- A piece of a sentence that starts with a separator and has few digits. -/
def IsTail (s : String) : Prop :=
  s.toList.head?.any isSeparator ∧ s.toList.countP isHexDigit < 63

section Pieces

variable {cs : List Char}

theorem IsLead.ofList (h : cs.getLast?.any isSeparator ∧ cs.countP isHexDigit < 63) :
    IsLead (String.ofList cs) := by
  rwa [IsLead, String.toList_ofList]

theorem IsTail.ofList (h : cs.head?.any isSeparator ∧ cs.countP isHexDigit < 63) :
    IsTail (String.ofList cs) := by
  rwa [IsTail, String.toList_ofList]

/-- A piece that separates what is before it from what is behind it. -/
theorem separates_ofList (h : cs.getLast?.any isSeparator ∧ cs.head?.any isSeparator ∧
    cs.countP isHexDigit < 63) :
    IsLead (String.ofList cs) ∧ IsTail (String.ofList cs) :=
  ⟨.ofList ⟨h.1, h.2.2⟩, .ofList h.2⟩

end Pieces

section Sentences

variable {k : List Char}

/-- A text without separators is on one side of any of them. -/
theorem infix_of_append {c : Char} (hc : c ∉ k) {xs ys : List Char} (h : k <:+: xs ++ c :: ys) :
    k <:+: xs ∨ k <:+: ys := by
  obtain ⟨before, after, h⟩ := h
  rw [List.append_assoc] at h
  rcases List.append_eq_append_iff.mp h with ⟨rest, rfl, hrest⟩ | ⟨rest, rfl, hrest⟩
  · rcases List.append_eq_append_iff.mp hrest with ⟨rest', rfl, -⟩ | ⟨rest', hk, hrest'⟩
    · exact .inl ⟨before, rest', by simp⟩
    · cases rest' with
      | nil => exact .inl ⟨before, [], by simp [hk]⟩
      | cons d rest' =>
        cases hrest'
        exact absurd (by rw [hk]; simp) hc
  · cases rest with
    | nil =>
      cases k with
      | nil => exact .inl List.nil_infix
      | cons d k =>
        cases hrest
        exact absurd List.mem_cons_self hc
    | cons d rest =>
      cases hrest
      exact .inr ⟨rest, after, by simp⟩

/-- A text of few digits has no room for a key. -/
theorem Secret.absent (hk : Secret k) {xs : List Char} (h : xs.countP isHexDigit < 63) :
    ¬ k <:+: xs := fun hks =>
  absurd (hks.sublist.countP_le (p := isHexDigit)) (not_le.mpr (h.trans_le hk.digits))

theorem Secret.absent_append (hk : Secret k) {c : Char} (hc : isSeparator c)
    {xs ys : List Char} (hxs : ¬ k <:+: xs) (hys : ¬ k <:+: ys) : ¬ k <:+: xs ++ c :: ys := by
  have hmem : c ∉ k := fun hmem => by simp [hk.separators c hmem] at hc
  exact fun h => (infix_of_append hmem h).elim hxs hys

theorem Secret.conceals (hk : Secret k) {s : String} (h : s.toList.countP isHexDigit < 63) :
    Conceals k s := hk.absent h

theorem Secret.ofList (hk : Secret k) {cs : List Char} (h : cs.countP isHexDigit < 63) :
    Conceals k (String.ofList cs) := hk.conceals (by rwa [String.toList_ofList])

theorem Secret.lead (hk : Secret k) (pre : String) (hpre : IsLead pre) {s : String}
    (hs : Conceals k s) : Conceals k (pre ++ s) := by
  obtain ⟨hlast, hcount⟩ := hpre
  obtain ⟨c, hc, hseparator⟩ := (Option.any_eq_true _ _).mp hlast
  obtain ⟨front, hfront⟩ := List.getLast?_eq_some_iff.mp hc
  rw [hfront, List.countP_append] at hcount
  rw [Conceals, String.toList_append, hfront, List.append_assoc]
  exact hk.absent_append hseparator (hk.absent (by omega)) hs

theorem Secret.tail (hk : Secret k) {s : String} (hs : Conceals k s) (post : String)
    (hpost : IsTail post) : Conceals k (s ++ post) := by
  obtain ⟨hhead, hcount⟩ := hpost
  obtain ⟨c, hc, hseparator⟩ := (Option.any_eq_true _ _).mp hhead
  obtain ⟨rest, hrest⟩ := List.head?_eq_some_iff.mp hc
  rw [hrest, List.countP_cons] at hcount
  rw [Conceals, String.toList_append, hrest]
  exact hk.absent_append hseparator hs (hk.absent (by omega))

/-- Two texts with a piece between them that separates them on either side. -/
theorem Secret.join (hk : Secret k) {s t : String} (hs : Conceals k s) (mid : String)
    (hmid : IsLead mid ∧ IsTail mid) (ht : Conceals k t) : Conceals k (s ++ mid ++ t) := by
  obtain ⟨⟨hlast, hcount⟩, htail⟩ := hmid
  obtain ⟨c, hc, hseparator⟩ := (Option.any_eq_true _ _).mp hlast
  obtain ⟨front, hfront⟩ := List.getLast?_eq_some_iff.mp hc
  have hbefore : ¬ k <:+: s.toList ++ front := by
    cases front with
    | nil => rwa [List.append_nil]
    | cons d front =>
      have hd : isSeparator d := by simpa [hfront] using htail.1
      rw [hfront, List.cons_append, List.countP_cons, List.countP_append] at hcount
      exact hk.absent_append hd hs (hk.absent (by omega))
  have htext : (s ++ mid ++ t).toList = (s.toList ++ front) ++ c :: t.toList := by
    simp [hfront]
  rw [Conceals, htext]
  exact hk.absent_append hseparator hbefore ht

/-- A number of less than 63 digits conceals every key. -/
theorem Secret.number (hk : Secret k) {n : Nat} (hn : n < 2 ^ 64) :
    Conceals k (toString n) := by
  refine hk.conceals ((List.countP_le_length).trans_lt ?_)
  have hwritten : (toString n).toList = Nat.toDigits 10 n := by
    change n.repr.toList = _
    rw [Nat.repr_eq_ofList_toDigits, String.toList_ofList]
  have hlength : (Nat.toDigits 10 n).length ≤ 20 :=
    (Nat.length_toDigits_le_iff (by decide) (by decide)).mpr (hn.trans_le (by decide))
  rw [hwritten]
  omega

end Sentences

end Bindery
