import Bindery.Json.Parse
import Bindery.Json.Print
import Bindery.Proofs.ShortestDecimal

/-!
# Numbers read back

A number is scanned as a whole part, a fraction and an exponent, each as far as it goes. What stands
behind a number ends it if no part can go on there.
-/

namespace Bindery.Json

theorem natOfDigits_append (a b : List Char) :
    natOfDigits (a ++ b) = natOfDigits a * 10 ^ b.length + natOfDigits b := by
  have hfold (n : ℕ) (cs : List Char) :
      cs.foldl (fun n c => 10 * n + (c.toNat - 48)) n = n * 10 ^ cs.length + natOfDigits cs := by
    induction cs generalizing n with
    | nil => simp [natOfDigits]
    | cons c cs ih =>
      rw [natOfDigits, List.foldl_cons, List.foldl_cons, ih, ih (10 * 0 + _), List.length_cons,
        pow_succ]
      ring
  rw [natOfDigits, List.foldl_append]
  exact hfold _ b

theorem natOfDigits_zeros (n : ℕ) : natOfDigits (Binary64.zeros n) = 0 := by
  induction n with
  | zero => rfl
  | succ n ih => exact ih

theorem natOfDigits_toDigits (n : ℕ) : natOfDigits (Nat.toDigits 10 n) = n :=
  Nat.ofDigitChars_toDigits (by decide) le_rfl

theorem ne_of_isDigit {c d : Char} (hc : isDigit c = true) (hd : isDigit d = false) : c ≠ d := by
  rintro rfl
  exact absurd hc (by simp [hd])

abbrev AllDigits (cs : List Char) : Prop := ∀ c ∈ cs, isDigit c = true

theorem allDigits_toDigits (n : ℕ) : AllDigits (Nat.toDigits 10 n) := by
  intro c hc
  have hdigit := Nat.isDigit_of_mem_toDigits (by decide) le_rfl hc
  simpa [Char.isDigit, isDigit, Char.le_def] using hdigit

theorem allDigits_zeros (n : ℕ) : AllDigits (Binary64.zeros n) := by
  intro c hc
  rw [List.eq_of_mem_replicate hc]
  rfl

theorem AllDigits.append {a b : List Char} (ha : AllDigits a) (hb : AllDigits b) :
    AllDigits (a ++ b) := fun c hc => (List.mem_append.mp hc).elim (ha c) (hb c)

/-- The first digit of a number other than zero is not a zero. -/
theorem exists_toDigits_eq_cons {n : ℕ} (hn : 0 < n) :
    ∃ d ds, Nat.toDigits 10 n = d :: ds ∧ d ≠ '0' := by
  have hdigit : ∀ m < 10, 0 < m → m.digitChar ≠ '0' := by decide
  induction n using Nat.strong_induction_on with
  | _ n ih =>
    rcases Nat.lt_or_ge n 10 with hlt | hge
    · exact ⟨n.digitChar, [], Nat.toDigits_of_lt_base hlt, hdigit n hlt hn⟩
    · obtain ⟨d, ds, hds, hd⟩ := ih (n / 10) (by omega) (by omega)
      refine ⟨d, ds ++ [(n % 10).digitChar], ?_, hd⟩
      rw [Nat.toDigits_of_base_le (by decide) hge, hds, List.cons_append]

def Stops (rest : List Char) : Prop :=
  ∀ c ∈ rest.head?, isDigit c = false ∧ c ≠ '.' ∧ c ≠ 'e' ∧ c ≠ 'E'

def IsWhole (whole : List Char) : Prop :=
  whole = ['0'] ∨ ∃ d ds, whole = d :: ds ∧ d ≠ '0' ∧ AllDigits whole

def IsFraction (fraction : List Char) : Prop :=
  fraction = [] ∨ ∃ places, fraction = '.' :: places ∧ places ≠ [] ∧ AllDigits places

def IsExponent (exponent : List Char) : Prop :=
  exponent = [] ∨ ∃ sign digits, exponent = 'e' :: sign :: digits ∧ (sign = '+' ∨ sign = '-') ∧
    digits ≠ [] ∧ AllDigits digits

def StopsDigits (rest : List Char) : Prop := ∀ c ∈ rest.head?, isDigit c = false

theorem Stops.stopsDigits {rest : List Char} (h : Stops rest) : StopsDigits rest :=
  fun c hc => (h c hc).1

theorem takeWhile_isDigit {cs rest : List Char} (hcs : AllDigits cs) (hrest : StopsDigits rest) :
    (cs ++ rest).takeWhile isDigit = cs := by
  rw [List.takeWhile_append_of_pos hcs]
  cases rest with
  | nil => simp
  | cons c rest =>
    rw [List.takeWhile_cons_of_neg (by simp [hrest c (by simp)]), List.append_nil]

theorem wholeOf_eq {whole rest : List Char} (h : IsWhole whole) (hrest : StopsDigits rest) :
    wholeOf (whole ++ rest) = whole := by
  rcases h with rfl | ⟨d, ds, rfl, hd, hall⟩
  · rfl
  · unfold wholeOf
    split
    · rename_i heq
      exact absurd (List.cons.inj heq).1 hd
    · exact takeWhile_isDigit hall hrest

theorem fractionOf_eq {fraction rest : List Char} (h : IsFraction fraction)
    (hrest : StopsDigits rest) (hpoint : rest.head? ≠ some '.') :
    fractionOf (fraction ++ rest) = fraction := by
  rcases h with rfl | ⟨places, rfl, hplaces, hall⟩
  · unfold fractionOf
    split
    · rename_i heq
      rw [List.nil_append] at heq
      exact absurd (by rw [heq]; rfl) hpoint
    · rfl
  · cases places with
    | nil => exact absurd rfl hplaces
    | cons d ds =>
      obtain ⟨hd, hds⟩ := List.forall_mem_cons.mp hall
      simp only [List.cons_append, fractionOf, hd, if_true]
      rw [takeWhile_isDigit hds hrest]

theorem exponentOf_eq {exponent rest : List Char} (h : IsExponent exponent) (hrest : Stops rest) :
    exponentOf (exponent ++ rest) = exponent := by
  rcases h with rfl | ⟨sign, digits, rfl, hsign, hne, hall⟩
  · cases rest with
    | nil => rfl
    | cons c rest =>
      obtain ⟨-, -, he, hE⟩ := hrest c rfl
      simp [exponentOf, he, hE]
  · have hdigits := takeWhile_isDigit hall hrest.stopsDigits
    rcases hsign with rfl | rfl
    · simp [exponentOf, hdigits, hne]
    · simp [exponentOf, hdigits, hne]

theorem IsExponent.stops {exponent rest : List Char} (h : IsExponent exponent)
    (hrest : Stops rest) :
    StopsDigits (exponent ++ rest) ∧ (exponent ++ rest).head? ≠ some '.' := by
  rcases h with rfl | ⟨sign, digits, rfl, -, -, -⟩
  · exact ⟨hrest.stopsDigits, fun hpoint => (hrest '.' hpoint).2.1 rfl⟩
  · refine ⟨fun c hc => ?_, by simp⟩
    obtain rfl : 'e' = c := by simpa using hc
    rfl

theorem IsFraction.stops {fraction rest : List Char} (h : IsFraction fraction)
    (hrest : StopsDigits rest) : StopsDigits (fraction ++ rest) := by
  rcases h with rfl | ⟨places, rfl, -, -⟩
  · exact hrest
  · intro c hc
    obtain rfl : '.' = c := by simpa using hc
    rfl

/-- A number is scanned as the parts that it is written in. -/
theorem scanNumber_eq {whole fraction exponent rest : List Char} (negative : Bool)
    (hwhole : IsWhole whole) (hfraction : IsFraction fraction) (hexponent : IsExponent exponent)
    (hrest : Stops rest) :
    scanNumber negative (whole ++ fraction ++ exponent ++ rest) =
      some (if fraction.isEmpty && exponent.isEmpty then .integer negative whole
        else .scalar (.float (realOf negative whole fraction exponent)),
        (whole ++ fraction ++ exponent).length) := by
  obtain ⟨hdigits, hpoint⟩ := hexponent.stops hrest
  have hempty : whole.isEmpty = false := by
    rcases hwhole with rfl | ⟨d, ds, rfl, -, -⟩ <;> rfl
  unfold scanNumber
  dsimp only
  rw [List.append_assoc, List.append_assoc, wholeOf_eq hwhole (hfraction.stops hdigits), hempty,
    List.drop_left, fractionOf_eq hfraction hdigits hpoint, List.drop_left,
    exponentOf_eq hexponent hrest]
  rw [List.length_append, List.length_append]
  simp only [Bool.false_eq_true, if_false]
  split <;> rfl

/-- The parts of a number, which is no integer, and the decimal that they make up. -/
def Spells (cs : List Char) (d : Binary64.Decimal) : Prop :=
  ∃ whole fraction exponent, cs = whole ++ fraction ++ exponent ∧
    IsWhole whole ∧ IsFraction fraction ∧ IsExponent exponent ∧
    (fraction.isEmpty && exponent.isEmpty) = false ∧ ∀ negative,
      realOf negative whole fraction exponent = Binary64.ofDecimal negative d.digits d.exponent

theorem realOf_point (negative : Bool) (whole places : List Char) :
    realOf negative whole ('.' :: places) [] =
      Binary64.ofDecimal negative (natOfDigits (whole ++ places)) (-places.length) := by
  simp [realOf]

theorem realOf_exponent (negative : Bool) (whole fraction digits : List Char) {below : Prop}
    [Decidable below] :
    realOf negative whole fraction ('e' :: (if below then '-' else '+') :: digits) =
      Binary64.ofDecimal negative (natOfDigits (whole ++ fraction.drop 1))
        ((if below then -natOfDigits digits else natOfDigits digits : ℤ)
          - (fraction.drop 1).length) := by
  by_cases h : below
  · rw [if_pos h, if_pos h]
    rfl
  · rw [if_neg h, if_neg h]
    rfl

theorem Spells.scanNumber_eq {cs rest : List Char} {d : Binary64.Decimal} (h : Spells cs d)
    (negative : Bool) (hrest : Stops rest) :
    scanNumber negative (cs ++ rest) =
      some (.scalar (.float (Binary64.ofDecimal negative d.digits d.exponent)), cs.length) := by
  obtain ⟨whole, fraction, exponent, rfl, hwhole, hfraction, hexponent, hreal, hvalue⟩ := h
  rw [Json.scanNumber_eq negative hwhole hfraction hexponent hrest, hreal, ← hvalue]
  rfl

end Bindery.Json

namespace Bindery.Binary64

open Json

variable {d : Decimal}

theorem spells_below_one {n : ℕ} {e : ℤ} (hlength : (Nat.toDigits 10 d.digits).length = n)
    (he : e = d.exponent + n - 1) (hneg : e < 0) :
    Spells ('0' :: '.' :: zeros (-e - 1).toNat ++ Nat.toDigits 10 d.digits) d := by
  have hplaces : AllDigits (zeros (-e - 1).toNat ++ Nat.toDigits 10 d.digits) :=
    (allDigits_zeros _).append (allDigits_toDigits _)
  refine ⟨['0'], '.' :: (zeros (-e - 1).toNat ++ Nat.toDigits 10 d.digits), [], by simp, .inl rfl,
    .inr ⟨_, rfl, by simp [Nat.toDigits_ne_nil], hplaces⟩, .inl rfl, rfl, fun negative => ?_⟩
  have hdigits : natOfDigits (['0'] ++ (zeros (-e - 1).toNat ++ Nat.toDigits 10 d.digits)) =
      d.digits := by
    rw [natOfDigits_append, natOfDigits_append, natOfDigits_zeros, natOfDigits_toDigits]
    simp [natOfDigits]
  have hexponent : -((zeros (-e - 1).toNat ++ Nat.toDigits 10 d.digits).length : ℤ) =
      d.exponent := by
    rw [List.length_append, hlength, zeros, List.length_replicate]
    omega
  rw [realOf_point, hdigits, hexponent]

theorem isWhole_toDigits_append {n : ℕ} (hn : 0 < n) {cs : List Char} (hcs : AllDigits cs) :
    IsWhole (Nat.toDigits 10 n ++ cs) := by
  obtain ⟨c, ds, hds, hc⟩ := exists_toDigits_eq_cons hn
  have hall := (allDigits_toDigits n).append hcs
  rw [hds] at hall ⊢
  exact .inr ⟨c, ds ++ cs, rfl, hc, hall⟩

theorem isWhole_take_toDigits {n : ℕ} (hn : 0 < n) (k : ℕ) :
    IsWhole ((Nat.toDigits 10 n).take (k + 1)) := by
  obtain ⟨c, ds, hds, hc⟩ := exists_toDigits_eq_cons hn
  have hall : AllDigits ((Nat.toDigits 10 n).take (k + 1)) :=
    fun c h => allDigits_toDigits n c (List.mem_of_mem_take h)
  rw [hds, List.take_succ_cons] at hall ⊢
  exact .inr ⟨c, ds.take k, rfl, hc, hall⟩

/-- A whole number takes zeros up to its point, and one behind it. -/
theorem exists_spells_whole (hd : 0 < d.digits) {k : ℕ} (hk : d.exponent = k) :
    ∃ d' : Decimal, d'.value = d.value ∧
      Spells (Nat.toDigits 10 d.digits ++ zeros k ++ ['.', '0']) d' := by
  refine ⟨⟨d.digits * 10 ^ (k + 1), -1⟩, ?_, Nat.toDigits 10 d.digits ++ zeros k, ['.', '0'], [],
    by simp, isWhole_toDigits_append hd (allDigits_zeros k),
    .inr ⟨['0'], rfl, by simp, by simp [AllDigits, isDigit]⟩, .inl rfl, rfl, fun negative => ?_⟩
  · rw [Decimal.value, Decimal.value, hk, zpow_natCast]
    push_cast
    rw [zpow_neg_one]
    ring
  · have hdigits : natOfDigits (Nat.toDigits 10 d.digits ++ zeros k ++ ['0']) =
        d.digits * 10 ^ (k + 1) := by
      rw [List.append_assoc, natOfDigits_append, natOfDigits_append, natOfDigits_zeros,
        natOfDigits_toDigits]
      simp [natOfDigits, zeros]
    rw [realOf_point, hdigits]
    rfl

/-- A number with places behind its point has all its digits there. -/
theorem spells_fraction (hd : 0 < d.digits) {k : ℕ}
    (hk : k + 1 < (Nat.toDigits 10 d.digits).length)
    (he : d.exponent = k + 1 - (Nat.toDigits 10 d.digits).length) :
    Spells ((Nat.toDigits 10 d.digits).take (k + 1) ++
      '.' :: (Nat.toDigits 10 d.digits).drop (k + 1)) d := by
  have hplaces : AllDigits ((Nat.toDigits 10 d.digits).drop (k + 1)) :=
    fun c h => allDigits_toDigits _ c (List.mem_of_mem_drop h)
  refine ⟨(Nat.toDigits 10 d.digits).take (k + 1), '.' :: (Nat.toDigits 10 d.digits).drop (k + 1),
    [], (List.append_nil _).symm, isWhole_take_toDigits hd k,
    .inr ⟨_, rfl, by simpa using hk, hplaces⟩, .inl rfl, rfl, fun negative => ?_⟩
  have hdigits : natOfDigits ((Nat.toDigits 10 d.digits).take (k + 1) ++
      (Nat.toDigits 10 d.digits).drop (k + 1)) = d.digits := by
    rw [List.take_append_drop, natOfDigits_toDigits]
  have hexponent : -(((Nat.toDigits 10 d.digits).drop (k + 1)).length : ℤ) = d.exponent := by
    rw [List.length_drop, he]
    omega
  rw [realOf_point, hdigits, hexponent]

/-- The exponent of a number in scientific notation is that of its first digit. -/
theorem spells_scientific (hd : 0 < d.digits) {n : ℕ} {e : ℤ} (width : ℕ)
    (hlength : (Nat.toDigits 10 d.digits).length = n) (he : e = d.exponent + n - 1) :
    Spells ((match Nat.toDigits 10 d.digits with
      | d :: [] => [d]
      | d :: rest => d :: '.' :: rest
      | [] => []) ++ 'e' :: (if e < 0 then '-' else '+') ::
        zeros (width - (Nat.toDigits 10 e.natAbs).length) ++ Nat.toDigits 10 e.natAbs) d := by
  have hdigits := natOfDigits_toDigits d.digits
  have hall := allDigits_toDigits d.digits
  have hpower : natOfDigits (zeros (width - (Nat.toDigits 10 e.natAbs).length) ++
      Nat.toDigits 10 e.natAbs) = e.natAbs := by
    rw [natOfDigits_append, natOfDigits_zeros, natOfDigits_toDigits, zero_mul, zero_add]
  have hexponent : IsExponent ('e' :: (if e < 0 then '-' else '+') ::
      (zeros (width - (Nat.toDigits 10 e.natAbs).length) ++ Nat.toDigits 10 e.natAbs)) :=
    .inr ⟨_, _, rfl, by split <;> simp, by simp [Nat.toDigits_ne_nil],
      (allDigits_zeros _).append (allDigits_toDigits _)⟩
  obtain ⟨c, ds, hds, hc⟩ := exists_toDigits_eq_cons hd
  rw [hds] at hdigits hall hlength ⊢
  have hone : IsWhole [c] := .inr ⟨c, [], rfl, hc, by simpa [AllDigits] using hall c (by simp)⟩
  have hvalue : (if e < 0 then -(e.natAbs : ℤ) else e.natAbs) = e := by split <;> omega
  cases ds with
  | nil =>
    refine ⟨[c], [], _, by simp, hone, .inl rfl, hexponent, rfl, fun negative => ?_⟩
    rw [realOf_exponent, hpower, hvalue]
    refine congrArg₂ (ofDecimal negative) hdigits ?_
    simp only [List.length_singleton] at hlength
    simp only [List.drop_nil, List.length_nil]
    omega
  | cons c' ds =>
    refine ⟨[c], '.' :: c' :: ds, _, by simp, hone,
      .inr ⟨_, rfl, by simp, fun c h => hall c (by simp [h])⟩, hexponent, rfl, fun negative => ?_⟩
    rw [realOf_exponent, hpower, hvalue]
    refine congrArg₂ (ofDecimal negative) hdigits ?_
    simp only [List.length_cons] at hlength
    simp only [List.drop_one, List.tail_cons, List.length_cons]
    omega

/-- How the text of a decimal reads: as some decimal of the same value. -/
theorem exists_spells_write (hd : 0 < d.digits) :
    ∃ d' : Decimal, d'.value = d.value ∧ Spells (Layout.plain.write d) d' := by
  obtain ⟨e, he⟩ : ∃ e : ℤ, e = d.exponent + (Nat.toDigits 10 d.digits).length - 1 := ⟨_, rfl⟩
  unfold Layout.write
  dsimp only [Layout.plain]
  rw [← he]
  change ∃ d' : Decimal, d'.value = d.value ∧ Spells (if -4 ≤ e ∧ e < 16 then _ else _) d'
  by_cases hplain : -4 ≤ e ∧ e < 16
  · rw [if_pos hplain]
    by_cases hneg : e < 0
    · rw [if_pos hneg]
      exact ⟨d, rfl, spells_below_one rfl he hneg⟩
    · rw [if_neg hneg]
      by_cases hk : e.toNat + 1 < (Nat.toDigits 10 d.digits).length
      · have hnone : e.toNat + 1 - (Nat.toDigits 10 d.digits).length = 0 := by omega
        have hrest : ((Nat.toDigits 10 d.digits).drop (e.toNat + 1)).isEmpty = false := by
          simpa using hk
        rw [hnone, hrest, if_neg Bool.false_ne_true, zeros, List.replicate_zero, List.append_nil]
        exact ⟨d, rfl, spells_fraction hd hk (by omega)⟩
      · have hrest : (Nat.toDigits 10 d.digits).drop (e.toNat + 1) = [] :=
          List.drop_eq_nil_of_le (by omega)
        rw [hrest, List.take_of_length_le (by omega)]
        exact exists_spells_whole hd (by omega)
  · rw [if_neg hplain]
    exact ⟨d, rfl, spells_scientific hd 2 rfl he⟩

def body (significand : ℕ) (exponent : ℤ) : List Char :=
  if significand = 0 then ['0', '.', '0'] else Layout.plain.write (shortest significand exponent)

theorem spells_zero : Spells ['0', '.', '0'] ⟨0, -1⟩ :=
  ⟨['0'], ['.', '0'], [], rfl, .inl rfl, .inr ⟨['0'], rfl, by simp, allDigits_zeros 1⟩, .inl rfl,
    rfl, fun negative => by rw [realOf_point]; rfl⟩

theorem exists_spells_body {x : Binary64} {negative : Bool} {s : ℕ} {e : ℤ}
    (h : x.shape = .finite negative s e) :
    ∃ d : Decimal, Spells (body s e) d ∧ ofDecimal negative d.digits d.exponent = x := by
  obtain ⟨hx, hzero, hterms⟩ := shape_eq_finite h
  unfold body
  split
  · rename_i hs
    rw [hzero hs, hs] at hx
    exact ⟨_, spells_zero, hx.symm⟩
  · rename_i hne
    have hfinite := hterms (Nat.pos_of_ne_zero hne)
    obtain ⟨d, hvalue, hspells⟩ := exists_spells_write (shortest_digits_pos hfinite)
    have hcovers := covers_shortest hfinite
    rw [← hvalue] at hcovers
    exact ⟨d, hspells, (ofDecimal_eq hfinite hcovers negative).trans hx.symm⟩

theorem exists_shape_eq_finite {x : Binary64} (h : x.isFinite) :
    ∃ negative s e, x.shape = .finite negative s e := by
  have hlt : x.magnitude < infinityBits := by simpa [isFinite] using h
  have hfield : x.magnitude / hiddenBit ≠ 2047 := by
    simp only [infinityBits, hiddenBit] at *
    omega
  unfold shape
  dsimp only
  rw [if_neg hfield]
  split
  · exact ⟨_, _, _, rfl⟩
  · exact ⟨_, _, _, rfl⟩

theorem toList_render {x : Binary64} {negative : Bool} {s : ℕ} {e : ℤ}
    (h : x.shape = .finite negative s e) :
    x.render.toList = if negative then '-' :: body s e else body s e := by
  rw [render, h]
  exact String.toList_ofList

end Bindery.Binary64

namespace Bindery.Json

/-- The text of a number: a sign or none, and a body that is scanned as the token `t`. -/
def Numeral (cs : List Char) (t : Token) : Prop :=
  ∃ negative c body, cs = (if negative then '-' :: c :: body else c :: body) ∧ isDigit c = true ∧
    ∀ rest, Stops rest →
      scanNumber negative (c :: (body ++ rest)) = some (t, (c :: body).length)

def integerToken (n : ℤ) : Token := .integer (n < 0) (Nat.toDigits 10 n.natAbs)

theorem toList_toString_int (n : ℤ) :
    (toString n).toList =
      if n < 0 then '-' :: Nat.toDigits 10 n.natAbs else Nat.toDigits 10 n.natAbs := by
  cases n with
  | ofNat n =>
    change n.repr.toList = _
    rw [Nat.repr_eq_ofList_toDigits, String.toList_ofList]
    rfl
  | negSucc n =>
    change ("-" ++ (n + 1).repr).toList = _
    rw [if_pos (Int.negSucc_lt_zero n), Nat.repr_eq_ofList_toDigits]
    simp only [String.toList_append, String.toList_ofList]
    rfl

theorem isWhole_toDigits (n : ℕ) : IsWhole (Nat.toDigits 10 n) := by
  rcases Nat.eq_zero_or_pos n with rfl | hn
  · exact .inl (Nat.toDigits_zero 10)
  · have hwhole := Binary64.isWhole_toDigits_append hn (List.forall_mem_nil _)
    rwa [List.append_nil] at hwhole

theorem numeral_int (n : ℤ) : Numeral (toString n).toList (integerToken n) := by
  obtain ⟨c, ds, hds⟩ := List.exists_cons_of_ne_nil (Nat.toDigits_ne_nil (n := n.natAbs) (b := 10))
  have hc : isDigit c = true := allDigits_toDigits n.natAbs c (by simp [hds])
  refine ⟨decide (n < 0), c, ds, ?_, hc, fun rest hrest => ?_⟩
  · rw [toList_toString_int, hds]
    simp
  · have hscan := scanNumber_eq (decide (n < 0)) (isWhole_toDigits n.natAbs) (.inl rfl) (.inl rfl)
      hrest
    rw [List.append_nil, List.append_nil, hds] at hscan
    rw [integerToken, hds]
    exact hscan

theorem integerOf_toDigits (n : ℤ) :
    integerOf (decide (n < 0)) (Nat.toDigits 10 n.natAbs) = n := by
  rw [integerOf, natOfDigits_toDigits]
  simp only [decide_eq_true_eq]
  split <;> omega

theorem longMagnitude_eq : longMagnitude = Nat.pow 10 digitLimit := by
  delta longMagnitude
  with_reducible rfl

theorem length_toDigits_le {n k : ℕ} (hk : 0 < k) (h : n < Nat.pow 10 k) :
    (Nat.toDigits 10 n).length ≤ k := by
  rwa [Nat.length_toDigits_le_iff (by decide) hk]

theorem length_toDigits_of_not_isLong {n : ℤ} (h : isLong n = false) :
    (Nat.toDigits 10 n.natAbs).length ≤ digitLimit := by
  unfold isLong at h
  have hlt : n.natAbs < longMagnitude := not_le.mp (of_decide_eq_false h)
  rw [longMagnitude_eq] at hlt
  exact length_toDigits_le (by decide) hlt

theorem Spells.exists_cons {cs : List Char} {d : Binary64.Decimal} (h : Spells cs d) :
    ∃ c body, cs = c :: body ∧ isDigit c = true := by
  obtain ⟨whole, fraction, exponent, rfl, hwhole, -⟩ := h
  rcases hwhole with rfl | ⟨c, ds, rfl, -, hall⟩
  · exact ⟨'0', fraction ++ exponent, rfl, rfl⟩
  · exact ⟨c, ds ++ fraction ++ exponent, rfl, hall c List.mem_cons_self⟩

/-- The text of a finite number is scanned as the number itself. -/
theorem numeral_float {x : Binary64} (h : x.isFinite) :
    Numeral x.render.toList (.scalar (.float x)) := by
  obtain ⟨negative, s, e, hshape⟩ := Binary64.exists_shape_eq_finite h
  obtain ⟨d, hspells, hvalue⟩ := Binary64.exists_spells_body hshape
  obtain ⟨c, body, hbody, hc⟩ := hspells.exists_cons
  refine ⟨negative, c, body, ?_, hc, fun rest hrest => ?_⟩
  · rw [Binary64.toList_render hshape, hbody]
  · have hscan := hspells.scanNumber_eq negative hrest
    rwa [hvalue, hbody] at hscan

end Bindery.Json
