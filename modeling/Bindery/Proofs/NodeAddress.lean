import Bindery.Node.Url
import Bindery.Proofs.IntegerText
import Bindery.Proofs.ReadDocuments
import Bindery.Proofs.SplitText
import Mathlib.Data.Bool.AllAny
import Mathlib.Data.List.TakeWhile

/-!
# Addresses of nodes

The address of a node is put together from a scheme, an authority and the rest, none of which holds
a mark of those before it, so that it is taken apart into the same parts. Taken apart it is an
address unless its host looks like four numbers and is none, or its port has too many digits. What
it is then written as is of the same kind, so it can be put together anew with another query, unless
a part has become too long by being encoded.
-/

namespace Bindery.Node

structure Authority where
  user : Option (List Char)
  host : List Char
  port : Option (List Char)

inductive IsHost : List Char → Prop
  | name {cs : List Char} (hne : cs ≠ []) (h : ∀ c ∈ cs, Host.isNameChar c) : IsHost cs
  | literal {cs : List Char} (h : Host.isAddress6 cs)
    (hchars : ∀ c ∈ cs, Host.isNameChar c ∨ c = ':') : IsHost ('[' :: (cs ++ [']']))

namespace Authority

def place (a : Authority) : List Char := a.host ++ a.port.elim [] (':' :: ·)

def text (a : Authority) : List Char := a.user.elim [] (· ++ ['@']) ++ a.place

structure WellFormed (a : Authority) : Prop where
  user : ∀ cs, a.user = some cs → ∀ c ∈ cs, ¬ Url.isUnprintable c ∧ c ∉ ['/', '?', '#']
  host : IsHost a.host
  port : ∀ cs, a.port = some cs → ∀ c ∈ cs, Host.isDigit c

/-- What looks like four numbers has to be an address of four, and a port can be read. -/
structure Accepted (a : Authority) : Prop where
  host : Host.looksNumeric a.host → Host.isAddress4 a.host
  port : ∀ cs, a.port = some cs → cs.length ≤ Json.digitLimit

end Authority

section Characters

variable {c : Char}

theorem ne_of_isNameChar {d : Char} (h : Host.isNameChar c) (hd : Host.isNameChar d = false) :
    c ≠ d := by
  rintro rfl
  simp [hd] at h

theorem ne_of_isDigit {d : Char} (h : Host.isDigit c) (hd : Host.isDigit d = false) : c ≠ d := by
  rintro rfl
  simp [hd] at h

/-- A character of a name is one of ASCII that can be printed. -/
theorem toNat_of_isNameChar (h : Host.isNameChar c) : 0x20 < c.toNat ∧ c.toNat < 0x7f := by
  have hbetween {low high : UInt32} (h : low ≤ c.val ∧ c.val ≤ high) (hlow : 0x20 < low.toNat)
      (hhigh : high.toNat < 0x7f) : 0x20 < c.toNat ∧ c.toNat < 0x7f :=
    ⟨hlow.trans_le (UInt32.le_iff_toNat_le.mp h.1), (UInt32.le_iff_toNat_le.mp h.2).trans_lt hhigh⟩
  rcases Bool.or_eq_true_iff.mp h with h | h
  · rcases Bool.or_eq_true_iff.mp h with hletter | hdigit
    · rcases Bool.or_eq_true_iff.mp hletter with hupper | hlower
      · exact hbetween (of_decide_eq_true hupper) (by decide) (by decide)
      · obtain ⟨hlow, hhigh⟩ := Bool.and_eq_true_iff.mp hlower
        exact hbetween ⟨of_decide_eq_true hlow, of_decide_eq_true hhigh⟩ (by decide) (by decide)
    · obtain ⟨hlow, hhigh⟩ := Bool.and_eq_true_iff.mp hdigit
      exact hbetween ⟨of_decide_eq_true hlow, of_decide_eq_true hhigh⟩ (by decide) (by decide)
  · have hall : ∀ d ∈ "-._~!$&'()*+,;=\"\x60\x7b\x7d%|\\".toList,
        0x20 < d.toNat ∧ d.toNat < 0x7f :=
      List.all_iff_forall_prop.mp (by decide)
    exact hall c (List.contains_iff_mem.mp h)

theorem toNat_of_isDigit (h : Host.isDigit c) : 0x30 ≤ c.toNat ∧ c.toNat ≤ 0x39 := by
  obtain ⟨hlow, hhigh⟩ := Bool.and_eq_true_iff.mp h
  exact ⟨Char.le_def.mp (of_decide_eq_true hlow), Char.le_def.mp (of_decide_eq_true hhigh)⟩

end Characters

section Reading

variable {a : Authority}

theorem takeWhile_append_mark {p : Char → Bool} {xs : List Char} (h : ∀ c ∈ xs, p c) {m : Char}
    (hmark : p m = false) (ys : List Char) : (xs ++ m :: ys).takeWhile p = xs := by
  rw [List.takeWhile_append_of_pos h, List.takeWhile_cons_of_neg (by simp [hmark]), List.append_nil]

theorem IsHost.forall_mem {p : Char → Prop} {cs : List Char} (h : IsHost cs)
    (hname : ∀ c, Host.isNameChar c → p c) (hmarks : p '[' ∧ p ']' ∧ p ':') : ∀ c ∈ cs, p c := by
  intro c hc
  cases h with
  | name _ h => exact hname c (h c hc)
  | literal _ h =>
    rcases List.mem_cons.mp hc with rfl | hc
    · exact hmarks.1
    rcases List.mem_append.mp hc with hc | hc
    · rcases h c hc with hc | rfl
      · exact hname c hc
      · exact hmarks.2.2
    · rw [List.mem_singleton.mp hc]
      exact hmarks.2.1

namespace Authority

theorem WellFormed.forall_mem_place {p : Char → Prop} (h : a.WellFormed)
    (hname : ∀ c, Host.isNameChar c → p c) (hdigit : ∀ c, Host.isDigit c → p c)
    (hmarks : p '[' ∧ p ']' ∧ p ':') : ∀ c ∈ a.place, p c := by
  intro c hc
  rcases List.mem_append.mp hc with hc | hc
  · exact h.host.forall_mem hname hmarks c hc
  · cases hport : a.port with
    | none => simp [hport] at hc
    | some port =>
      rw [hport] at hc
      rcases List.mem_cons.mp hc with rfl | hc
      · exact hmarks.2.2
      · exact hdigit c (h.port port hport c hc)

theorem WellFormed.at_not_mem_place (h : a.WellFormed) : '@' ∉ a.place := fun hmem =>
  h.forall_mem_place (p := (· ≠ '@')) (fun _ hc => ne_of_isNameChar hc (by decide))
    (fun _ hc => ne_of_isDigit hc (by decide)) (by decide) '@' hmem rfl

/-- The user ends at the last mark of one, and there is none behind. -/
theorem WellFormed.place_eq (h : a.WellFormed) :
    (a.text.reverse.takeWhile (· ≠ '@')).reverse = a.place := by
  have hplace : ∀ c ∈ a.place.reverse, (c ≠ '@' : Bool) = true := by
    intro c hc
    have hne : c ≠ '@' := by
      rintro rfl
      exact h.at_not_mem_place (List.mem_reverse.mp hc)
    exact decide_eq_true hne
  rw [text]
  cases a.user with
  | none =>
    rw [Option.elim, List.nil_append, List.takeWhile_eq_self_iff.mpr hplace, List.reverse_reverse]
  | some user =>
    have hcut := takeWhile_append_mark hplace (m := '@') (by decide) user.reverse
    rw [Option.elim, List.append_assoc, List.singleton_append, List.reverse_append,
      List.reverse_cons, List.append_assoc, List.singleton_append, hcut, List.reverse_reverse]

theorem user_eq : (a.text.take (a.text.length - a.place.length)).dropLast = a.user.getD [] := by
  rw [text]
  cases a.user with
  | none => simp
  | some user =>
    have hlength : user.length + (a.place.length + 1) - a.place.length = user.length + 1 := by omega
    simp [hlength, List.take_append]

end Authority

/-- A host ends at the first colon, or with the last bracket if it starts with one. -/
theorem host_of_place (h : a.WellFormed) :
    let bracketed := if a.place.head? = some '[' then
      (a.place.reverse.dropWhile (· ≠ ']')).reverse else []
    (if bracketed.isEmpty then a.place.takeWhile (· ≠ ':') else bracketed) = a.host := by
  obtain ⟨user, host, port⟩ := a
  intro bracketed
  rcases h.host with ⟨hne, hname⟩ | ⟨h6, hchars⟩
  · have hnone : bracketed = [] := by
      obtain ⟨c, cs, rfl⟩ := List.exists_cons_of_ne_nil hne
      have hhead : c ≠ '[' := ne_of_isNameChar (hname c List.mem_cons_self) (by decide)
      exact if_neg fun heq => hhead (Option.some.inj heq)
    have hcolon : ∀ c ∈ host, (c ≠ ':' : Bool) = true := fun c hc =>
      decide_eq_true (ne_of_isNameChar (hname c hc) (by decide))
    rw [hnone]
    change (host ++ port.elim [] (':' :: ·)).takeWhile (· ≠ ':') = host
    cases port with
    | none =>
      rw [Option.elim, List.append_nil]
      exact List.takeWhile_eq_self_iff.mpr hcolon
    | some port => exact takeWhile_append_mark hcolon (by decide) port
  · rename_i cs
    have hport : ∀ c ∈ (port.elim [] (':' :: ·)).reverse, (c ≠ ']' : Bool) = true := by
      intro c hc
      cases port with
      | none => cases hc
      | some port =>
        rcases List.mem_cons.mp (List.mem_reverse.mp hc) with rfl | hc
        · decide
        · exact decide_eq_true (ne_of_isDigit (h.port port rfl c hc) (by decide))
    have hreverse : ('[' :: (cs ++ [']'])).reverse = ']' :: ('[' :: cs).reverse := by simp
    have hsome : bracketed = '[' :: (cs ++ [']']) := by
      refine (if_pos rfl).trans ?_
      rw [Authority.place, List.reverse_append, List.dropWhile_append_of_pos hport]
      dsimp only
      rw [hreverse, List.dropWhile_cons_of_neg (by decide), ← hreverse, List.reverse_reverse]
    rw [hsome]
    rfl

theorem readAuthority_text (h : a.WellFormed) :
    Url.readAuthority a.text = (a.user.getD [], a.host, a.port.getD []) := by
  have hhost := host_of_place h
  unfold Url.readAuthority
  simp only [h.place_eq, Authority.user_eq]
  dsimp only at hhost
  simp only [hhost]
  have hdrop : a.place.drop a.host.length = a.port.elim [] (':' :: ·) := by
    rw [Authority.place, List.drop_left]
  rw [hdrop]
  cases a.port <;> rfl

end Reading

section Hosts

/-- What holds of all the characters of ASCII holds of one. -/
theorem of_ascii {p : Char → Prop} (hall : ∀ n < 0x80, p (Char.ofNat n)) {c : Char}
    (hc : c.toNat < 0x80) : p c := by
  have h := hall c.toNat hc
  rwa [Char.ofNat_toNat] at h

theorem isNameChar_toLower {c : Char} (h : Host.isNameChar c) : Host.isNameChar c.toLower :=
  of_ascii (p := fun c => Host.isNameChar c → Host.isNameChar c.toLower)
    (by decide +kernel)
    (by have := toNat_of_isNameChar h; omega) h

theorem isDigit_toLower {c : Char} (h : Host.isNameChar c) :
    Host.isDigit c.toLower = Host.isDigit c :=
  of_ascii (p := fun c => Host.isDigit c.toLower = Host.isDigit c) (by decide)
    (by have := toNat_of_isNameChar h; omega)

theorem lowercase_of_isNameChar {cs : List Char} (h : ∀ c ∈ cs, Host.isNameChar c) :
    Text.lowercase cs = cs.map Char.toLower := by
  induction cs with
  | nil => rfl
  | cons c cs ih =>
    obtain ⟨hc, hcs⟩ := List.forall_mem_cons.mp h
    have hascii : c.toNat < 0x80 := by have := toNat_of_isNameChar hc; omega
    rw [Text.lowercase, List.flatMap_cons, ← Text.lowercase, ih hcs, Text.lowercaseChar]
    simp only [hascii, if_true, List.map_cons, List.singleton_append]

theorem percentEncode_of_safe {safe : Char → Bool} {cs : List Char} (h : ∀ c ∈ cs, safe c) :
    Text.percentEncode safe cs = cs := by
  induction cs with
  | nil => rfl
  | cons c cs ih =>
    obtain ⟨hc, hcs⟩ := List.forall_mem_cons.mp h
    rw [Text.percentEncode, List.flatMap_cons, ← Text.percentEncode, ih hcs]
    simp [hc]

/-- Lower case does not change what looks like four numbers. -/
theorem looksNumeric_lower {cs : List Char} (h : ∀ c ∈ cs, Host.isNameChar c) :
    Host.looksNumeric (cs.map Char.toLower) = Host.looksNumeric cs := by
  have hnext {c : Char} (hc : Host.isNameChar c) :
      Host.nextStates c.toLower = Host.nextStates c := by
    funext state
    rw [Host.nextStates, Host.nextStates, isDigit_toLower hc]
  have hfold (states : List Nat) :
      (cs.map Char.toLower).foldl
        (fun states c => (states.flatMap (Host.nextStates c)).eraseDups) states =
      cs.foldl (fun states c => (states.flatMap (Host.nextStates c)).eraseDups) states := by
    induction cs generalizing states with
    | nil => rfl
    | cons c cs ih =>
      obtain ⟨hc, hcs⟩ := List.forall_mem_cons.mp h
      rw [List.map_cons, List.foldl_cons, List.foldl_cons, hnext hc, ih hcs]
  rw [Host.looksNumeric, hfold, Host.looksNumeric]

theorem looksNumeric_bracket (cs : List Char) : Host.looksNumeric ('[' :: cs) = false := by
  have hfold :
      cs.foldl (fun states c => (states.flatMap (Host.nextStates c)).eraseDups) [] = [] := by
    induction cs with
    | nil => rfl
    | cons c cs ih => exact ih
  have hstart : ([0].flatMap (Host.nextStates '[')).eraseDups = [] := by decide
  rw [Host.looksNumeric, List.foldl_cons, hstart, hfold]
  rfl

/-- An address of groups has a colon. -/
theorem colon_mem_of_isAddress6 {cs : List Char} (h : Host.isAddress6 cs) : ':' ∈ cs := by
  obtain ⟨-, h⟩ := Bool.and_eq_true_iff.mp h
  by_contra hcolon
  have hnone : ':' ∉ cs.takeWhile (· ≠ '%') := fun hmem => hcolon (List.takeWhile_subset _ hmem)
  have hgroups : Host.groups? (cs.takeWhile (· ≠ '%')) = some [cs.takeWhile (· ≠ '%')] ∨
      Host.groups? (cs.takeWhile (· ≠ '%')) = some [['0'], ['0']] ∨
      Host.groups? (cs.takeWhile (· ≠ '%')) = none := by
    rw [Host.groups?, Text.split_of_not_mem hnone]
    simp only [List.getLast?_singleton]
    split_ifs
    · exact .inl rfl
    · exact .inr (.inl rfl)
    · exact .inr (.inr rfl)
  rcases hgroups with hg | hg | hg <;> rw [hg] at h
  · simp [Host.areGroups] at h
  · simp [Host.areGroups] at h
  · simp at h

def written (host : List Char) : List Char :=
  if host.contains ':' then '[' :: host ++ [']'] else host

theorem written_of_isNameChar {cs : List Char} (h : ∀ c ∈ cs, Host.isNameChar c) :
    written cs = cs := by
  refine if_neg fun hcolon => ?_
  exact ne_of_isNameChar (h ':' (List.contains_iff_mem.mp hcolon)) (by decide) rfl

theorem normalize_name {cs : List Char} (hne : cs ≠ []) (h : ∀ c ∈ cs, Host.isNameChar c) :
    Host.normalize cs =
      if Host.looksNumeric cs then
        if Host.isAddress4 cs then .ok cs else .error (.address4 (String.ofList cs))
      else .ok (cs.map Char.toLower) := by
  have hbracketed : Host.isBracketed cs = false := by
    obtain ⟨c, rest, rfl⟩ := List.exists_cons_of_ne_nil hne
    have hhead : c ≠ '[' := ne_of_isNameChar (h c List.mem_cons_self) (by decide)
    simp [Host.isBracketed, hhead]
  have hbasic : cs.all Text.Punycode.isBasic := List.all_eq_true.mpr fun c hc => by
    have := toNat_of_isNameChar (h c hc)
    exact decide_eq_true (by omega)
  have hlower : ∀ c ∈ cs.map Char.toLower, Host.isNameChar c := by
    intro c hc
    obtain ⟨d, hd, rfl⟩ := List.mem_map.mp hc
    exact isNameChar_toLower (h d hd)
  have hempty : cs.isEmpty = false := List.isEmpty_eq_false_iff.mpr hne
  simp only [Host.normalize, hempty, hbracketed, hbasic, lowercase_of_isNameChar h,
    percentEncode_of_safe hlower, if_true, Bool.false_eq_true, if_false]

theorem normalize_literal {cs : List Char} (h : Host.isAddress6 cs) :
    Host.normalize ('[' :: (cs ++ [']'])) = .ok cs := by
  have hbracketed : Host.isBracketed ('[' :: (cs ++ [']'])) := by
    have hlast : ('[' :: (cs ++ [']'])).getLast? = some ']' := by
      rw [← List.cons_append, List.getLast?_concat]
    rw [Host.isBracketed, hlast]
    simp
  have hinner : (('[' :: (cs ++ [']'])).drop 1).dropLast = cs := by simp
  simp only [Host.normalize, looksNumeric_bracket, hbracketed, hinner, h, List.isEmpty_cons,
    if_true, Bool.false_eq_true, if_false]

/-- A host is refused just when it looks like four numbers and is none; else it is kept as one that
is not refused. -/
theorem IsHost.normalize {cs : List Char} (h : IsHost cs) :
    (Host.looksNumeric cs ∧ ¬ Host.isAddress4 cs → ∃ e, Host.normalize cs = .error e) ∧
    ((Host.looksNumeric cs → Host.isAddress4 cs) →
      ∃ kept, Host.normalize cs = .ok kept ∧ kept ≠ [] ∧ IsHost (written kept) ∧
        (Host.looksNumeric (written kept) → Host.isAddress4 (written kept))) := by
  cases h with
  | name hne hname =>
    rw [normalize_name hne hname]
    refine ⟨fun ⟨hlooks, hnot⟩ => ⟨_, (if_pos hlooks).trans (if_neg hnot)⟩, fun haccepted => ?_⟩
    by_cases hlooks : Host.looksNumeric cs
    · have hkept : written cs = cs := written_of_isNameChar hname
      refine ⟨cs, (if_pos hlooks).trans (if_pos (haccepted hlooks)), hne, ?_, ?_⟩
      · rw [hkept]
        exact .name hne hname
      · rwa [hkept]
    · have hlower : ∀ c ∈ cs.map Char.toLower, Host.isNameChar c := by
        intro c hc
        obtain ⟨d, hd, rfl⟩ := List.mem_map.mp hc
        exact isNameChar_toLower (hname d hd)
      have hkept : written (cs.map Char.toLower) = cs.map Char.toLower :=
        written_of_isNameChar hlower
      have hne' : cs.map Char.toLower ≠ [] := fun heq => hne (List.map_eq_nil_iff.mp heq)
      refine ⟨cs.map Char.toLower, if_neg hlooks, hne', ?_, ?_⟩
      · rw [hkept]
        exact .name hne' hlower
      · rw [hkept, looksNumeric_lower hname]
        exact fun hlooks' => absurd hlooks' hlooks
  | @literal inner h6 hchars =>
    have hkept : written inner = '[' :: (inner ++ [']']) :=
      if_pos (List.contains_iff_mem.mpr (colon_mem_of_isAddress6 h6))
    have hnot : ¬ Host.looksNumeric ('[' :: (inner ++ [']'])) := by simp [looksNumeric_bracket]
    refine ⟨fun ⟨hlooks, _⟩ => absurd hlooks hnot, fun _ => ?_⟩
    refine ⟨inner, normalize_literal h6, ?_, ?_, ?_⟩
    · exact List.ne_nil_of_mem (colon_mem_of_isAddress6 h6)
    · rw [hkept]
      exact .literal h6 hchars
    · rw [hkept]
      exact fun hlooks => absurd hlooks hnot

end Hosts

section Ports

open Json (AllDigits digitLimit natOfDigits)

variable {cs : List Char}

/-- A port is refused just when it has too many digits; else it is kept as one that has not. -/
theorem portOf_of_allDigits (scheme : List Char) (h : AllDigits cs) :
    (digitLimit < cs.length → ∃ e, Url.portOf scheme cs = .error e) ∧
    (cs.length ≤ digitLimit →
      ∃ kept, Url.portOf scheme cs = .ok kept ∧ ∀ n, kept = some n →
        AllDigits (toString n).toList ∧ (toString n).toList.length ≤ digitLimit) := by
  rcases cs.eq_nil_or_concat with rfl | hconcat
  · exact ⟨fun hlong => absurd hlong (Nat.not_lt_zero _), fun _ => ⟨none, rfl, by simp⟩⟩
  have hne : cs ≠ [] := by
    obtain ⟨xs, x, rfl⟩ := hconcat
    simp
  have hempty : cs.isEmpty = false := List.isEmpty_eq_false_iff.mpr hne
  rw [Url.portOf, hempty, Text.readInteger_of_allDigits digitLimit hne h]
  refine ⟨fun hlong => ⟨_, by rw [if_pos hlong]; rfl⟩, fun hshort => ?_⟩
  rw [if_neg (not_lt.mpr hshort)]
  refine ⟨_, rfl, fun n hn => ?_⟩
  have hvalue : n = (natOfDigits cs : Int) := by
    split_ifs at hn
    exact (Option.some.inj hn).symm
  have hwritten : (toString n).toList = Nat.toDigits 10 (natOfDigits cs) := by
    rw [Json.toList_toString_int, hvalue, if_neg (by omega), Int.natAbs_natCast]
  rw [hwritten]
  refine ⟨Json.allDigits_toDigits _, ?_⟩
  exact Json.length_toDigits_le (by decide) (Json.natOfDigits_lt h hshort)

end Ports

section Parts

theorem mem_percentByte {b : UInt8} {c : Char} (hc : c ∈ Text.percentByte b) :
    c ∈ "%0123456789ABCDEF".toList := by
  have hdigit : ∀ n < 16, (Hex.digit n).toUpper ∈ "%0123456789ABCDEF".toList := by decide
  have hb := b.toNat_lt
  rcases List.mem_cons.mp hc with rfl | hc
  · decide
  obtain ⟨d, hd, rfl⟩ := List.mem_map.mp hc
  rw [Hex.digitsOf, List.mem_pair] at hd
  rcases hd with rfl | rfl
  · exact hdigit _ (by omega)
  · exact hdigit _ (by omega)

/-- What is encoded holds characters that may stand, and those of the encoding. -/
theorem mem_encodePart {excluded cs : List Char} {c : Char}
    (hc : c ∈ Url.encodePart excluded cs) :
    Url.mayStand excluded c ∨ c ∈ "%0123456789ABCDEF".toList := by
  obtain ⟨d, -, hc⟩ := List.mem_flatMap.mp hc
  by_cases hd : Url.mayStand excluded d || d = '%'
  · rw [if_pos hd, List.mem_singleton] at hc
    rw [hc]
    rcases Bool.or_eq_true_iff.mp hd with hd | hd
    · exact .inl hd
    · rw [of_decide_eq_true hd]
      exact .inr (by decide)
  · rw [if_neg hd] at hc
    obtain ⟨b, -, hc⟩ := List.mem_flatMap.mp hc
    exact .inr (mem_percentByte hc)

theorem encodePart_user {cs : List Char} {c : Char}
    (hc : c ∈ Url.encodePart Url.userExcluded cs) :
    ¬ Url.isUnprintable c ∧ c ∉ ['/', '?', '#'] := by
  rcases mem_encodePart hc with hc | hc
  · simp only [Url.mayStand, Bool.and_eq_true, decide_eq_true_eq, Bool.not_eq_true',
      List.contains_eq_mem, decide_eq_false_iff_not] at hc
    obtain ⟨⟨hlow, hhigh⟩, hexcluded⟩ := hc
    have hmarks : ∀ d ∈ ['/', '?', '#'], d ∈ Url.userExcluded :=
      List.all_iff_forall_prop.mp (by decide)
    refine ⟨?_, fun hmem => hexcluded (hmarks c hmem)⟩
    simp only [Url.isUnprintable, Bool.or_eq_true, decide_eq_true_eq]
    omega
  · have hall : ∀ c ∈ "%0123456789ABCDEF".toList,
        ¬ Url.isUnprintable c ∧ c ∉ ['/', '?', '#'] :=
      List.all_iff_forall_prop.mp (by decide)
    exact hall c hc

def Url.shownAuthority (u : Url) : Authority where
  user := if u.user.isEmpty then none else some u.user
  host := written u.host
  port := u.port.map fun n => (toString n).toList

theorem Url.authority_eq (u : Url) : u.authority = u.shownAuthority.text := by
  have huser : (if u.user.isEmpty then [] else u.user ++ ['@']) =
      u.shownAuthority.user.elim [] (· ++ ['@']) := by
    rw [Url.shownAuthority]
    split_ifs <;> rfl
  have hport : (u.port.elim [] fun n => ':' :: (toString n).toList) =
      u.shownAuthority.port.elim [] (':' :: ·) := by
    rw [Url.shownAuthority]
    cases u.port <;> rfl
  rw [Url.authority, Authority.text, Authority.place, huser, hport, List.append_assoc]
  rfl

variable {a : Authority} {p : UrlParts}

theorem ofParts_eq_ok {user host kept port : List Char} {shown : Option Int}
    (hread : Url.readAuthority p.authority = (user, host, port)) (hscheme : p.scheme ≠ [])
    (hhost : Host.normalize host = .ok kept) (hport : Url.portOf p.scheme port = .ok shown) :
    Url.ofParts p = .ok {
      scheme := p.scheme.map Char.toLower
      user := Url.encodePart Url.userExcluded user
      host := kept
      port := shown
      path := Url.encodePart Url.pathExcluded (Url.normalizePath p.path)
      query := p.query.map (Url.encodePart Url.queryExcluded)
      fragment := p.fragment.map (Url.encodePart Url.fragmentExcluded) } := by
  have hempty : p.scheme.isEmpty = false := List.isEmpty_eq_false_iff.mpr hscheme
  simp only [Url.ofParts, hread, hhost, hport, hempty, Bool.false_and]
  rfl

/-- Parts make no address if the host or the port is refused. -/
theorem ofParts_refused (h : a.WellFormed) (hp : p.authority = a.text) (hnot : ¬ a.Accepted) :
    ∃ e, Url.ofParts p = .error e := by
  have hread := readAuthority_text h
  by_cases hhost : Host.looksNumeric a.host → Host.isAddress4 a.host
  · obtain ⟨kept, hkept, -⟩ := h.host.normalize.2 hhost
    have hlong : ∃ port, a.port = some port ∧ Json.digitLimit < port.length := by
      by_contra hnone
      refine hnot ⟨hhost, fun port hport => not_lt.mp fun hlong => hnone ⟨port, hport, hlong⟩⟩
    obtain ⟨port, hport, hlong⟩ := hlong
    obtain ⟨e, he⟩ := (portOf_of_allDigits p.scheme (h.port port hport)).1 hlong
    refine ⟨e, ?_⟩
    simp only [Url.ofParts, hp, hread, hkept, hport, Option.getD_some, he]
    rfl
  · obtain ⟨e, he⟩ := h.host.normalize.1 (Classical.not_imp.mp hhost)
    refine ⟨.host e, ?_⟩
    simp only [Url.ofParts, hp, hread, he]
    rfl

/-- Parts with a scheme and an accepted authority make an address, under such an authority. -/
theorem ofParts_accepted (h : a.WellFormed) (hp : p.authority = a.text) (hscheme : p.scheme ≠ [])
    (ha : a.Accepted) :
    ∃ u, Url.ofParts p = .ok u ∧ u.scheme = p.scheme.map Char.toLower ∧ u.host ≠ [] ∧
      u.shownAuthority.WellFormed ∧ u.shownAuthority.Accepted := by
  have hread := readAuthority_text h
  rw [← hp] at hread
  obtain ⟨host, hhost, hne, hwritten, hnumeric⟩ := h.host.normalize.2 ha.host
  have hport : ∃ kept, Url.portOf p.scheme (a.port.getD []) = .ok kept ∧
      ∀ n, kept = some n →
        Json.AllDigits (toString n).toList ∧ (toString n).toList.length ≤ Json.digitLimit := by
    cases hport : a.port with
    | none => exact ⟨none, rfl, by simp⟩
    | some port => exact (portOf_of_allDigits p.scheme (h.port port hport)).2 (ha.port port hport)
  obtain ⟨port, hport, hdigits⟩ := hport
  refine ⟨_, ofParts_eq_ok hread hscheme hhost hport, rfl, hne, ⟨?_, hwritten, ?_⟩, hnumeric, ?_⟩
  · intro cs hcs c hc
    rw [Url.shownAuthority] at hcs
    split_ifs at hcs
    rw [← Option.some.inj hcs] at hc
    exact encodePart_user hc
  · intro cs hcs
    obtain ⟨n, hn, rfl⟩ := Option.map_eq_some_iff.mp hcs
    exact (hdigits n hn).1
  · intro cs hcs
    obtain ⟨n, hn, rfl⟩ := Option.map_eq_some_iff.mp hcs
    exact (hdigits n hn).2

end Parts

/-- The address of a node as it is written: a scheme, an authority and what follows it. -/
structure Base where
  scheme : List Char
  authority : Authority
  rest : List Char

namespace Base

def text (b : Base) : List Char := b.scheme ++ ':' :: '/' :: '/' :: (b.authority.text ++ b.rest)

structure WellFormed (b : Base) : Prop where
  letter : b.scheme.head?.any UrlParts.isLetter
  scheme : ∀ c ∈ b.scheme, UrlParts.isSchemeChar c
  authority : b.authority.WellFormed
  mark : ∀ c, b.rest.head? = some c → c ∈ ['/', '?', '#']
  rest : ∀ c ∈ b.rest, ¬ Url.isUnprintable c

end Base

section Cutting

variable {b : Base}

theorem toNat_of_isSchemeChar {c : Char} (h : UrlParts.isSchemeChar c) :
    0x20 < c.toNat ∧ c.toNat < 0x7f := by
  simp only [UrlParts.isSchemeChar, Bool.or_eq_true, decide_eq_true_eq] at h
  rcases h with ((h | rfl) | rfl) | rfl
  · exact toNat_of_isNameChar (Bool.or_eq_true_iff.mpr (.inl h))
  all_goals decide

theorem Authority.WellFormed.forall_mem_text {a : Authority} (h : a.WellFormed) :
    ∀ c ∈ a.text, ¬ Url.isUnprintable c ∧ c ∉ ['/', '?', '#'] := by
  intro c hc
  rcases List.mem_append.mp hc with hc | hc
  · cases huser : a.user with
    | none => simp [huser] at hc
    | some user =>
      rw [huser] at hc
      rcases List.mem_append.mp hc with hc | hc
      · exact h.user user huser c hc
      · rw [List.mem_singleton.mp hc]
        decide
  · refine h.forall_mem_place (p := fun c => ¬ Url.isUnprintable c ∧ c ∉ ['/', '?', '#'])
      (fun c hc => ⟨?_, ?_⟩) (fun c hc => ⟨?_, ?_⟩) (by decide) c hc
    · have := toNat_of_isNameChar hc
      simp only [Url.isUnprintable, Bool.or_eq_true, decide_eq_true_eq]
      omega
    · intro hmem
      have hmarks : ∀ d ∈ ['/', '?', '#'], Host.isNameChar d = false :=
        List.all_iff_forall_prop.mp (by decide)
      exact ne_of_isNameChar hc (hmarks c hmem) rfl
    · have := toNat_of_isDigit hc
      simp only [Url.isUnprintable, Bool.or_eq_true, decide_eq_true_eq]
      omega
    · intro hmem
      have hmarks : ∀ d ∈ ['/', '?', '#'], Host.isDigit d = false :=
        List.all_iff_forall_prop.mp (by decide)
      exact ne_of_isDigit hc (hmarks c hmem) rfl

theorem cutAt_fst (mark : Char) (cs : List Char) :
    (UrlParts.cutAt mark cs).1 = cs.takeWhile (· ≠ mark) := by
  rw [UrlParts.cutAt]
  split <;> rfl

theorem cutScheme_text {scheme rest : List Char} (hletter : scheme.head?.any UrlParts.isLetter)
    (h : ∀ c ∈ scheme, UrlParts.isSchemeChar c) :
    UrlParts.cutScheme (scheme ++ ':' :: rest) = (scheme, rest) := by
  have hhead : (scheme ++ ':' :: rest).head?.any UrlParts.isLetter := by
    cases scheme with
    | nil => cases hletter
    | cons c scheme => exact hletter
  have htake : (scheme ++ ':' :: rest).takeWhile UrlParts.isSchemeChar = scheme :=
    takeWhile_append_mark h (by decide) rest
  simp only [UrlParts.cutScheme, hhead, htake, if_true, List.drop_left]

theorem cutAuthority_text {authority rest : List Char}
    (h : ∀ c ∈ authority, c ∉ ['/', '?', '#'])
    (hrest : ∀ c, rest.head? = some c → c ∈ ['/', '?', '#']) :
    UrlParts.cutAuthority ('/' :: '/' :: (authority ++ rest)) = (authority, rest) := by
  have hstands : ∀ c ∈ authority, (c ≠ '/' && c ≠ '?' && c ≠ '#' : Bool) = true := by
    intro c hc
    have hmarks := h c hc
    simp only [List.mem_cons, List.not_mem_nil, or_false, not_or] at hmarks
    simp [hmarks]
  have hstops : rest.takeWhile (fun c => c ≠ '/' && c ≠ '?' && c ≠ '#') = [] := by
    cases rest with
    | nil => rfl
    | cons c rest =>
      refine List.takeWhile_cons_of_neg ?_
      rcases List.mem_cons.mp (hrest c rfl) with rfl | hc
      · decide
      rcases List.mem_pair.mp hc with rfl | rfl
      · decide
      · decide
  simp only [UrlParts.cutAuthority]
  rw [List.takeWhile_append_of_pos hstands, hstops, List.append_nil, List.drop_left]

namespace Base

/-- An address is cut into the parts of which it was put together. -/
theorem ofChars_text (h : b.WellFormed) :
    (UrlParts.ofChars b.text).scheme = b.scheme ∧
    (UrlParts.ofChars b.text).authority = b.authority.text := by
  have hhash : (UrlParts.cutAt '#' b.text).1 =
      b.scheme ++ ':' :: '/' :: '/' :: (b.authority.text ++ b.rest.takeWhile (· ≠ '#')) := by
    have hscheme : ∀ c ∈ b.scheme, (c ≠ '#' : Bool) = true := fun c hc =>
      decide_eq_true fun heq => by
        have := h.scheme c hc
        rw [heq] at this
        exact absurd this (by decide)
    have hauthority : ∀ c ∈ b.authority.text, (c ≠ '#' : Bool) = true := fun c hc =>
      decide_eq_true fun heq => by
        have := (h.authority.forall_mem_text c hc).2
        rw [heq] at this
        exact absurd (by decide) this
    rw [cutAt_fst, Base.text, List.takeWhile_append_of_pos hscheme,
      List.takeWhile_cons_of_pos (by decide), List.takeWhile_cons_of_pos (by decide),
      List.takeWhile_cons_of_pos (by decide), List.takeWhile_append_of_pos hauthority]
  have hmark : ∀ c, (b.rest.takeWhile (· ≠ '#')).head? = some c → c ∈ ['/', '?', '#'] := by
    intro c hc
    cases hrest : b.rest with
    | nil => simp [hrest] at hc
    | cons d rest =>
      rw [hrest, List.takeWhile_cons] at hc
      split_ifs at hc
      · rw [← Option.some.inj hc]
        exact h.mark d (by rw [hrest]; rfl)
      · cases hc
  have hauthority := cutAuthority_text (fun c hc => (h.authority.forall_mem_text c hc).2) hmark
  simp only [UrlParts.ofChars, hhash, cutScheme_text h.letter h.scheme, hauthority, and_self]

theorem WellFormed.printable (h : b.WellFormed) : ∀ c ∈ b.text, ¬ Url.isUnprintable c := by
  have hmarks : ∀ c ∈ [':', '/', '/'], ¬ Url.isUnprintable c :=
    List.all_iff_forall_prop.mp (by decide)
  have htext : b.text = b.scheme ++ ([':', '/', '/'] ++ (b.authority.text ++ b.rest)) := rfl
  intro c hc
  rw [htext] at hc
  rcases List.mem_append.mp hc with hc | hc
  · have := toNat_of_isSchemeChar (h.scheme c hc)
    simp only [Url.isUnprintable, Bool.or_eq_true, decide_eq_true_eq]
    omega
  rcases List.mem_append.mp hc with hc | hc
  · exact hmarks c hc
  rcases List.mem_append.mp hc with hc | hc
  · exact (h.authority.forall_mem_text c hc).1
  · exact h.rest c hc

theorem WellFormed.scheme_ne_nil (h : b.WellFormed) : b.scheme ≠ [] := by
  intro hnil
  have hletter := h.letter
  rw [hnil] at hletter
  cases hletter

theorem parse_text (h : b.WellFormed) (hlength : b.text.length ≤ Url.lengthLimit) :
    Url.parse (String.ofList b.text) = Url.ofParts (.ofChars b.text) := by
  have hnone : b.text.find? Url.isUnprintable = none := List.find?_eq_none.mpr h.printable
  simp only [Url.parse, String.toList_ofList, not_lt.mpr hlength, if_false, hnone]

theorem parse_refused (h : b.WellFormed)
    (hrefused : Url.lengthLimit < b.text.length ∨ ¬ b.authority.Accepted) :
    ∃ e, Url.parse (String.ofList b.text) = .error e := by
  by_cases hlength : Url.lengthLimit < b.text.length
  · refine ⟨.tooLong, ?_⟩
    simp only [Url.parse, String.toList_ofList, hlength, if_true]
  · rw [parse_text h (not_lt.mp hlength)]
    exact ofParts_refused h.authority (ofChars_text h).2 (hrefused.resolve_left hlength)

/-- An address that is not too long and whose authority is accepted can be used, and it is written
under such an authority. -/
theorem parse_accepted (h : b.WellFormed) (hlength : b.text.length ≤ Url.lengthLimit)
    (ha : b.authority.Accepted) :
    ∃ u, Url.parse (String.ofList b.text) = .ok u ∧ u.scheme = b.scheme.map Char.toLower ∧
      u.isAbsolute ∧ u.shownAuthority.WellFormed ∧ u.shownAuthority.Accepted := by
  obtain ⟨hscheme, hauthority⟩ := ofChars_text h
  have hne : (UrlParts.ofChars b.text).scheme ≠ [] := by
    rw [hscheme]
    exact h.scheme_ne_nil
  obtain ⟨u, hu, hkept, hhost, hshown, haccepted⟩ :=
    ofParts_accepted h.authority hauthority hne ha
  rw [hscheme] at hkept
  refine ⟨u, (parse_text h hlength).trans hu, hkept, ?_, hshown, haccepted⟩
  have hkept' : u.scheme ≠ [] := by
    rw [hkept]
    exact fun heq => h.scheme_ne_nil (List.map_eq_nil_iff.mp heq)
  simp [Url.isAbsolute, hkept', hhost]

end Base

def Url.HasLongPart (u : Url) : Prop :=
  ∃ part ∈ [u.authority, u.path, u.fragment.getD []], Url.lengthLimit < part.length

theorem Url.withQuery_refused {u : Url} (query : List Char) (hlong : u.HasLongPart) :
    ∃ e, u.withQuery query = .error e := by
  obtain ⟨part, hpart, hlength⟩ := hlong
  rw [Url.withQuery, Url.ofNewParts]
  split
  · exact ⟨_, rfl⟩
  · rename_i hnone
    have hshort := List.find?_eq_none.mp hnone
    simp only [List.mem_cons, List.not_mem_nil, or_false] at hpart
    refine absurd (decide_eq_true hlength) ?_
    rcases hpart with rfl | rfl | rfl
    · exact hshort ("authority", u.authority) (by simp)
    · exact hshort ("path", u.path) (by simp)
    · exact hshort ("fragment", u.fragment.getD []) (by simp)

/-- With another query, an address without long parts can be used if its authority is accepted. -/
theorem Url.withQuery_accepted {u : Url} {query : List Char} (hlong : ¬ u.HasLongPart)
    (hscheme : u.scheme.length ≤ Url.lengthLimit) (hquery : query.length ≤ Url.lengthLimit)
    (habsolute : u.isAbsolute) (h : u.shownAuthority.WellFormed)
    (ha : u.shownAuthority.Accepted) : ∃ v, u.withQuery query = .ok v ∧ v.isAbsolute := by
  have hshort : ∀ part ∈ [u.authority, u.path, u.fragment.getD []],
      part.length ≤ Url.lengthLimit := fun part hpart =>
    not_lt.mp fun hlength => hlong ⟨part, hpart, hlength⟩
  simp only [List.forall_mem_cons] at hshort
  obtain ⟨hauthority, hpath, hfragment, -⟩ := hshort
  have hne : u.scheme ≠ [] := fun hnil => by simp [Url.isAbsolute, hnil] at habsolute
  obtain ⟨v, hv, hkept, hhost, -⟩ := ofParts_accepted
    (p := ⟨u.scheme, u.authority, u.path, some query, u.fragment⟩) h u.authority_eq hne ha
  refine ⟨v, ?_, ?_⟩
  · have hnone : [("scheme", u.scheme), ("authority", u.authority), ("path", u.path),
        ("query", query), ("fragment", u.fragment.getD [])].find?
          (fun part => Url.lengthLimit < part.2.length) = none := by
      simp only [List.find?_eq_none, List.forall_mem_cons, decide_eq_true_eq, not_lt]
      exact ⟨hscheme, hauthority, hpath, hquery, hfragment, List.forall_mem_nil _⟩
    simp only [Url.withQuery, Url.ofNewParts, Option.getD_some, hnone]
    exact hv
  · have hkept' : v.scheme ≠ [] := by
      rw [hkept]
      exact fun heq => hne (List.map_eq_nil_iff.mp heq)
    simp [Url.isAbsolute, hkept', hhost]

end Cutting

end Bindery.Node
