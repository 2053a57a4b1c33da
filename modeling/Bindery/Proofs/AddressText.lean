import Bindery.Contract.Identity
import Bindery.Proofs.Base58Text
import Bindery.Proofs.Conversion
import Bindery.Proofs.HexSpelling

/-!
# The texts of an address

An address goes by its forty digits, in either case, and by its Base58 text, behind which there may
be blanks. These are all its texts: whatever else is read as an address is refused as a value that
cannot be converted. No Base58 text of an address has forty characters, so that the two kinds of
text are told apart by their length.
-/

namespace Bindery.Address

inductive TextOf (a : Address) : String → Prop
  | digits {s : String} (h : s.toLower = Hex.encode a.bytes) : TextOf a s
  | base58 {s : String} (hlength : s.length ≠ 40) (h : Text.trimEnd s = a.toBase58) : TextOf a s

theorem length_checksum (payload : Bytes) : (checksum payload).length = 4 := by
  simp [checksum]

theorem ofBytes?_eq_some_iff {b : Bytes} {a : Address} : ofBytes? b = some a ↔ a.bytes = b := by
  unfold ofBytes?
  split
  · constructor
    · intro h
      cases h
      rfl
    · rintro rfl
      rfl
  · rename_i hlength
    constructor
    · exact nofun
    · rintro rfl
      exact absurd a.size hlength

theorem ofBytes_eq_ok_iff {b : Bytes} {a : Address} : ofBytes b = .ok a ↔ a.bytes = b := by
  rw [← ofBytes?_eq_some_iff]
  unfold ofBytes
  cases ofBytes? b <;> simp

/-- The bytes whose Base58 text is that of an address. -/
def framed (a : Address) : Bytes := (version :: a.bytes) ++ checksum (version :: a.bytes)

theorem toBase58_eq (a : Address) : a.toBase58 = Base58.encode a.framed := rfl

theorem length_framed (a : Address) : a.framed.length = 25 := by
  simp [framed, a.size, length_checksum]

/-- What is checked of the bytes of a text leaves only those that an address is framed in. -/
theorem eq_framed_iff {b : Bytes} {a : Address} :
    b = a.framed ↔ (b.length = 25 ∧ b.head? = some version ∧ b.drop 21 = checksum (b.take 21)) ∧
      a.bytes = (b.take 21).drop 1 := by
  constructor
  · rintro rfl
    have hpayload : (version :: a.bytes).length = 21 := by simp [a.size]
    have htake : a.framed.take 21 = version :: a.bytes := by
      rw [framed, ← hpayload, List.take_left]
    have hdrop : a.framed.drop 21 = checksum (version :: a.bytes) := by
      rw [framed, ← hpayload, List.drop_left]
    rw [htake, hdrop]
    exact ⟨⟨a.length_framed, rfl, rfl⟩, rfl⟩
  · rintro ⟨⟨hlength, hversion, hchecksum⟩, hbytes⟩
    obtain ⟨x, rest, rfl⟩ := List.exists_cons_of_length_eq_add_one hlength
    obtain rfl : x = version := Option.some.inj hversion
    have htake : (version :: rest).take 21 = version :: a.bytes := by
      rw [hbytes]
      rfl
    rw [htake] at hchecksum
    rw [framed, ← hchecksum, ← htake, List.take_append_drop]

theorem ofBase58?_eq_some_iff {s : String} {a : Address} :
    ofBase58? s = some a ↔ Text.trimEnd s = a.toBase58 := by
  rw [toBase58_eq, ← Base58.decode?_eq_some_iff, ofBase58?]
  simp only [Option.bind_eq_bind, Option.bind_eq_some_iff, Option.ite_none_right_eq_some,
    ofBytes?_eq_some_iff, ← eq_framed_iff, exists_eq_right]

/-- The number of the framed bytes of an address has fewer than forty digits. -/
theorem length_toBase58_lt (a : Address) : a.toBase58.length < 40 := by
  have hlead : a.framed.head? ≠ some 0 := by
    change some version ≠ some 0
    decide
  have hnumber := Base58.toNatBig_lt a.framed
  rw [a.length_framed] at hnumber
  have hdigits : 256 ^ 25 ≤ 58 ^ 39 := by decide
  exact Nat.lt_succ_of_le (Base58.length_encode_le hlead (hnumber.trans_le hdigits))

theorem textOf_toBase58 (a : Address) : TextOf a a.toBase58 :=
  .base58 (Nat.ne_of_lt a.length_toBase58_lt) (Base58.trimEnd_encode _)

theorem hexBytes_text_eq_ok_iff {t : Text} {b : Bytes} :
    hexBytes (.text t) = .ok b ↔ ∃ s, t = .whole s ∧ Hex.decode? s = some b := by
  simp only [hexBytes_eq_ok_iff, Value.text?, Option.some.injEq]

theorem parse_broken_ne_ok (b : Text.Broken) (a : Address) : parse (.text (.broken b)) ≠ .ok a := by
  simp only [parse, Value.text?, Text.whole?, Option.bind_none]
  rw [withLiteral_of_text rfl]
  split
  · simp [bind_eq_ok, hexBytes_text_eq_ok_iff]
  · simp

theorem parse_whole_eq_ok_iff {s : String} {a : Address} :
    parse (.text (.whole s)) = .ok a ↔ TextOf a s := by
  simp only [parse, Value.text?, Text.whole?, Option.bind_some]
  by_cases hsize : (Text.whole s).size = 40
  · have hlength : s.length = 40 := hsize
    rw [if_pos hsize]
    simp only [bind_eq_ok, hexBytes_text_eq_ok_iff, ofBytes_eq_ok_iff, Text.whole.injEq,
      exists_eq_left']
    constructor
    · rintro ⟨b, hb, rfl⟩
      exact .digits (Hex.toLower_of_length hb (by rw [hlength, a.size]))
    · rintro (h | ⟨hother, -⟩)
      · exact ⟨_, Hex.decode?_of_toLower h, rfl⟩
      · exact absurd hlength hother
  · have hlength : s.length ≠ 40 := hsize
    rw [if_neg hsize, withLiteral_of_text rfl]
    have hread : ofBase58? s = some a ↔ TextOf a s := by
      rw [ofBase58?_eq_some_iff]
      constructor
      · exact .base58 hlength
      · rintro (h | ⟨-, h⟩)
        · exact absurd ((Hex.length_of_toLower h).trans (by rw [a.size])) hlength
        · exact h
    rw [← hread]
    cases ofBase58? s <;> simp

theorem parse_text_eq_ok_iff {t : Text} {a : Address} :
    parse (.text t) = .ok a ↔ ∃ s, t = .whole s ∧ TextOf a s := by
  cases t with
  | whole s =>
    rw [parse_whole_eq_ok_iff]
    simp
  | broken b =>
    refine iff_of_false (parse_broken_ne_ok b a) ?_
    rintro ⟨s, ⟨⟩, -⟩

/-- An address is read from itself and from each of its texts, and from no other text. What is the
text of no address is refused as what cannot be converted. -/
theorem parse_text_iff (a : Address) (t : Text) :
    parse (.address a) = .ok a ∧ parse (.text a.toBase58) = .ok a ∧
      (parse (.text t) = .ok a ↔ ∃ s, t = .whole s ∧ TextOf a s) ∧
      ((∃ e, parse (.text t) = .error (.conversion e)) ↔ ∀ b s, t = .whole s → ¬ TextOf b s) := by
  refine ⟨rfl, parse_whole_eq_ok_iff.mpr a.textOf_toBase58, parse_text_eq_ok_iff, ?_⟩
  constructor
  · rintro ⟨e, he⟩ b s rfl hb
    rw [parse_whole_eq_ok_iff.mpr hb] at he
    cases he
  · intro hnone
    cases hparse : parse (.text t) with
    | ok b =>
      obtain ⟨s, rfl, hs⟩ := parse_text_eq_ok_iff.mp hparse
      exact absurd hs (hnone b s rfl)
    | error e =>
      obtain ⟨cause, rfl⟩ := converts_parse t e hparse
      exact ⟨cause, rfl⟩

end Bindery.Address
