import Bindery.Proofs.CheckedValues
import Bindery.Proofs.Conversion
import Bindery.Proofs.IntegerText
import Bindery.Proofs.Submission

/-!
# Gas as a number and as a text

The gas of a call is given by a number or by its decimal text. Both are written out and read back,
so that they come to the same transaction or to the same failure, but for two numbers: zero counts
as no gas at all, while its text is read, and a number of too many digits is not written, while its
text is refused when it is read.
-/

namespace Bindery

namespace Text

open Json (isDigit AllDigits natOfDigits)

theorem trimAscii_minus {cs : List Char} (hne : cs ≠ []) (h : AllDigits cs) :
    trimAscii ('-' :: cs) = '-' :: cs := by
  obtain ⟨first, last, rfl⟩ := List.eq_nil_or_concat cs |>.resolve_left hne
  have hlast : isAsciiBlank last = false := by
    by_contra hblank
    have hdigit := h last (by simp)
    rw [isDigit_of_isAsciiBlank (Bool.not_eq_false _ ▸ hblank)] at hdigit
    cases hdigit
  have hminus : isAsciiBlank '-' = false := rfl
  simp [trimAscii, hlast, hminus]

/-- The decimal text of an integer is read as the integer, if its digits are not too many. -/
theorem readInteger_toString (limit : Nat) (n : Int) :
    readInteger limit (toString n) =
      if limit < (Nat.toDigits 10 n.natAbs).length then none else some n := by
  have hdigits := Json.allDigits_toDigits n.natAbs
  have hne : Nat.toDigits 10 n.natAbs ≠ [] := Nat.toDigits_ne_nil
  have htext := Json.toList_toString_int n
  rcases lt_or_ge n 0 with hn | hn
  · rw [if_pos hn] at htext
    have hascii : (toString n).toList.all isAscii := by
      rw [htext, List.all_cons, all_isAscii_of_allDigits hdigits]
      rfl
    rw [readInteger]
    simp only [hascii, if_true]
    rw [htext, readAsciiInteger_eq, trimAscii_minus hne hdigits]
    simp only [signAndDigits, readDigits_of_allDigits hne hdigits, Option.bind_some, Nat.zero_add,
      if_true]
    change (if _ then none else some (-(natOfDigits (Nat.toDigits 10 n.natAbs) : Int))) = _
    rw [Json.natOfDigits_toDigits, Int.ofNat_natAbs_of_nonpos (le_of_lt hn), neg_neg]
  · rw [if_neg (not_lt.mpr hn)] at htext
    have hofList : toString n = String.ofList (Nat.toDigits 10 n.natAbs) := by
      rw [← htext, String.ofList_toList]
    rw [hofList, readInteger_of_allDigits limit hne hdigits, Json.natOfDigits_toDigits,
      Int.natAbs_of_nonneg hn]

theorem isEmpty_toString (n : Int) : (toString n).isEmpty = false := by
  refine Bool.eq_false_iff.mpr fun hempty => ?_
  have htext := Json.toList_toString_int n
  rw [String.isEmpty_iff.mp hempty] at htext
  split at htext
  · cases htext
  · exact Nat.toDigits_ne_nil htext.symm

end Text

def Options.withGas (o : Options) (x : TextOr Int) : Gas → Options
  | .price => { o with gasPrice := some x }
  | .limit => { o with gasLimit := some x }

def Transaction.withGas (tx : Transaction) (n : Int) : Gas → Transaction
  | .price => { tx with gasPrice := .int n }
  | .limit => { tx with gasLimit := .int n }

namespace Gas

def spellings : Gas → List String
  | .price => ["gasPrice", "gas_price"]
  | .limit => ["gasLimit", "gas_limit"]

def default : Gas → Int
  | .price => 500
  | .limit => 20000

def ofOption (gas : Gas) (x : TextOr Int) : Except Failure Int := do
  gasNumber gas (.text (← Options.gasText gas (some x)))

end Gas

section Values

variable {gas : Gas} {n : Int}

/-- Integers of 64 bits have few digits. -/
theorem not_isLong_of_range (hn : 0 ≤ n ∧ n < 2 ^ 64) : Json.isLong n = false := by
  have hlimit : 2 ^ 64 ≤ Json.longMagnitude := by decide +kernel
  unfold Json.isLong
  exact decide_eq_false (by omega)

theorem gasNumber_toString (hn : 0 ≤ n ∧ n < 2 ^ 64) :
    gasNumber gas (.text (toString n)) = .ok n := by
  have hshort := Json.length_toDigits_of_not_isLong (not_isLong_of_range hn)
  simp only [gasNumber, Value.toInteger, Value.toInteger.ofOption, Text.whole?, Option.bind_some,
    Text.readInteger_toString, if_neg (not_lt.mpr hshort)]
  exact if_pos hn

/-- The decimal text of an integer stands for no other integer. -/
theorem eq_of_gasNumber_toString {m : Int} (h : gasNumber gas (.text (toString n)) = .ok m) :
    m = n := by
  simp only [gasNumber, Value.toInteger, Value.toInteger.ofOption, Text.whole?, Option.bind_some,
    Text.readInteger_toString] at h
  split_ifs at h
  · dsimp only at h
    rw [withLiteral_of_text rfl] at h
    cases h
  · dsimp only at h
    split_ifs at h
    · cases h
      rfl
    · rw [withLiteral_of_text rfl] at h
      cases h

theorem exists_gasNumber_toString_eq_error (hn : n < 0 ∨ 2 ^ 64 ≤ n) :
    ∃ cause, gasNumber gas (.text (toString n)) = .error (.conversion cause) := by
  cases h : gasNumber gas (.text (toString n)) with
  | ok m =>
    have hrange := gasNumber_eq_ok h
    rw [eq_of_gasNumber_toString h] at hrange
    omega
  | error e =>
    obtain ⟨cause, rfl⟩ := converts_gasNumber gas (toString n) e h
    exact ⟨cause, rfl⟩

namespace Gas

theorem ofOption_text : gas.ofOption (.text (toString n)) = gasNumber gas (.text (toString n)) := by
  simp only [ofOption, Options.gasText, Text.isEmpty, Text.isEmpty_toString, Bool.false_eq_true,
    if_false, ok_bind]

theorem ofOption_zero : gas.ofOption (.is 0) = .ok gas.default := by
  have hdefault : defaultGas gas = toString gas.default := by cases gas <;> decide +kernel
  have hrange : 0 ≤ gas.default ∧ gas.default < 2 ^ 64 := by cases gas <;> decide
  rw [ofOption, Options.gasText, if_pos rfl, hdefault, ok_bind, gasNumber_toString hrange]

theorem ofOption_number (hzero : n ≠ 0) (hlong : Json.isLong n = false) :
    gas.ofOption (.is n) = gas.ofOption (.text (toString n)) := by
  rw [ofOption_text]
  simp only [ofOption, Options.gasText, hzero, hlong, Bool.false_eq_true, if_false, ok_bind]

theorem ofOption_long (hzero : n ≠ 0) (hlong : Json.isLong n) :
    gas.ofOption (.is n) = .error (.misuse .longInteger) := by
  simp only [ofOption, Options.gasText, hzero, hlong, if_false, if_true]
  rfl

end Gas

end Values

namespace Options

variable {members : List (Text × Value)}

theorem check_dict_eq_ok {o : Options} :
    check (.dict members) = .ok o ↔
      optionalMember Checked.address ["payer"] members = .ok o.payer ∧
        privateKeyMember members = .ok o.privateKey ∧
        optionalMember Checked.integer (Gas.spellings .price) members = .ok o.gasPrice ∧
        optionalMember Checked.integer (Gas.spellings .limit) members = .ok o.gasLimit := by
  simp only [check, Checked.object, map_eq_ok, Prod.exists, Checked.both_eq_ok]
  constructor
  · rintro ⟨payer, key, price, limit, h, rfl⟩
    exact h
  · intro h
    exact ⟨_, _, _, _, h, rfl⟩

theorem spelled?_setMember_of_not_mem {name : String} {spellings : List String}
    (h : name ∉ spellings) (v : Value) :
    spelled? (Json.setMember (.whole name) v members) spellings = spelled? members spellings := by
  induction spellings with
  | nil => rfl
  | cons s rest ih =>
    obtain ⟨hs, hrest⟩ := not_or.mp fun hmem => h (List.mem_cons.mpr hmem)
    simp only [spelled?, List.findSome?_cons] at ih ⊢
    have hne : Text.whole s ≠ .whole name := fun heq => hs (Text.whole.inj heq).symm
    rw [Json.member?_setMember_of_ne hne, ih hrest]

theorem spelled?_setMember {name : String} {before after : List String}
    (hbefore : ∀ other ∈ before, other ≠ name ∧ .whole other ∉ members.map Prod.fst) (v : Value) :
    spelled? (Json.setMember (.whole name) v members) (before ++ name :: after) =
      some (name, v) := by
  induction before with
  | nil => simp [spelled?, Json.member?_setMember_self]
  | cons s rest ih =>
    obtain ⟨⟨hne, hs⟩, hrest⟩ := List.forall_mem_cons.mp hbefore
    have hnone : Json.member? (.whole s) members = none := by
      rw [Json.member?, Option.map_eq_none_iff, List.find?_eq_none]
      intro m hm hms
      exact hs (of_decide_eq_true hms ▸ List.mem_map_of_mem hm)
    have hrest := ih hrest
    simp only [spelled?, List.cons_append, List.findSome?_cons] at hrest ⊢
    have hne' : Text.whole s ≠ .whole name := fun heq => hne (Text.whole.inj heq)
    rw [Json.member?_setMember_of_ne hne', hnone]
    exact hrest

/-- A gas value is taken as what it is given as. -/
theorem optional_integer_toValue (place : List Step) (x : TextOr Int) :
    Checked.optional (Checked.integer place) (x.toValue .int) = .ok (some x) := by
  cases x <;> rfl

end Options

namespace GivenOptions

/-- One gas option has been set to `x`, in checked options or in a mapping under a name that no
other name comes before. -/
inductive SetsGas (gas : Gas) (x : TextOr Int) : GivenOptions → GivenOptions → Prop
  | checked (o : Options) : SetsGas gas x (.checked o) (.checked (o.withGas x gas))
  | member {members : List (Text × Value)} {before after : List String} {name : String}
      (hname : gas.spellings = before ++ name :: after)
      (hbefore : ∀ other ∈ before, .whole other ∉ members.map Prod.fst) :
      SetsGas gas x (.value (.dict members))
        (.value (.dict (Json.setMember (.whole name) (x.toValue .int) members)))

variable {gas : Gas} {x : TextOr Int} {given changed : GivenOptions} {o : Options}

theorem SetsGas.options (h : SetsGas gas x given changed) (hgiven : given.options = .ok o) :
    changed.options = .ok (o.withGas x gas) := by
  cases h with
  | checked =>
    cases hgiven
    rfl
  | @member members before after name hname hbefore =>
    have hcheck := mapError_eq_ok.mp hgiven
    refine mapError_eq_ok.mpr ?_
    rw [Options.check_dict_eq_ok] at hcheck ⊢
    obtain ⟨hpayer, hkey, hprice, hlimit⟩ := hcheck
    have hnodup : gas.spellings.Nodup := by cases gas <;> decide
    have hset : Options.optionalMember Checked.integer gas.spellings
        (Json.setMember (.whole name) (x.toValue .int) members) = .ok (some x) := by
      rw [hname] at hnodup
      have hne (other : String) (hother : other ∈ before) : other ≠ name := by
        rintro rfl
        exact (List.nodup_append.mp hnodup).2.2 other hother other List.mem_cons_self rfl
      rw [Options.optionalMember, hname,
        Options.spelled?_setMember fun other hother => ⟨hne other hother, hbefore other hother⟩]
      exact Options.optional_integer_toValue _ x
    have hmem : name ∈ gas.spellings := by simp [hname]
    have hother {spellings : List String} (h : ∀ s ∈ gas.spellings, s ∉ spellings) :
        Options.spelled? (Json.setMember (.whole name) (x.toValue .int) members) spellings =
          Options.spelled? members spellings :=
      Options.spelled?_setMember_of_not_mem (h name hmem) _
    have hpayer' : Options.optionalMember Checked.address ["payer"]
        (Json.setMember (.whole name) (x.toValue .int) members) = .ok o.payer := by
      rw [Options.optionalMember, hother (by cases gas <;> decide)]
      exact hpayer
    have hkey' : Options.privateKeyMember (Json.setMember (.whole name) (x.toValue .int) members) =
        .ok o.privateKey := by
      rw [Options.privateKeyMember, hother (by cases gas <;> decide)]
      exact hkey
    cases gas with
    | price =>
      refine ⟨hpayer', hkey', hset, ?_⟩
      rw [Options.optionalMember, hother (by decide)]
      exact hlimit
    | limit =>
      refine ⟨hpayer', hkey', ?_, hset⟩
      rw [Options.optionalMember, hother (by decide)]
      exact hprice

end GivenOptions

namespace Call

variable {levels : ℕ} {call : Call} {o : Options} {given number text : GivenOptions} {nonce : Value}
  {tx : Transaction} {gas : Gas} {n : Int}

/-- Of a call that is in order, only the gas is looked at again when it is changed. -/
theorem transaction_withGas (h : call.transaction levels o nonce = .ok tx) (x : TextOr Int)
    (gas : Gas) :
    call.transaction levels (o.withGas x gas) nonce =
      (gas.ofOption x).map fun n => tx.withGas n gas := by
  obtain ⟨f, hf, h⟩ := bind_eq_ok.mp h
  obtain ⟨arguments, harguments, h⟩ := bind_eq_ok.mp h
  obtain ⟨price, hprice, h⟩ := bind_eq_ok.mp h
  obtain ⟨limit, hlimit, h⟩ := bind_eq_ok.mp h
  obtain ⟨payer, hpayer, h⟩ := bind_eq_ok.mp h
  obtain ⟨address, haddress, h⟩ := bind_eq_ok.mp h
  obtain ⟨data, p, l, hdata, hp, hl, hcall, rfl⟩ := Transaction.invoke_eq_ok h
  cases gas with
  | price =>
    have hpayer' : (o.withGas x .price).payerAddress = .ok payer := hpayer
    simp only [transaction, hf, harguments, ok_bind, hpayer', haddress]
    simp only [Options.withGas, hlimit, ok_bind, Transaction.invoke, hdata, hl, hcall, Gas.ofOption]
    cases Options.gasText .price (some x) with
    | error e => rfl
    | ok s =>
      simp only [ok_bind]
      cases gasNumber .price (.text s) <;> rfl
  | limit =>
    have hpayer' : (o.withGas x .limit).payerAddress = .ok payer := hpayer
    simp only [transaction, hf, harguments, ok_bind, hpayer', haddress]
    simp only [Options.withGas, hprice, ok_bind, Transaction.invoke, hdata, hp, hcall, Gas.ofOption]
    cases Options.gasText .limit (some x) with
    | error e => rfl
    | ok s =>
      simp only [ok_bind]
      cases gasNumber .limit (.text s) <;> rfl

theorem build_of_setsGas {x : TextOr Int} {changed : GivenOptions}
    (hbuilt : (call.build levels given nonce).run.1 = .ok tx)
    (hset : GivenOptions.SetsGas gas x given changed) :
    (call.build levels changed nonce).run.1 = (gas.ofOption x).map fun n => tx.withGas n gas := by
  rw [(call.local_build levels given nonce).run] at hbuilt
  obtain ⟨o, ho, htx⟩ := bind_eq_ok.mp hbuilt
  rw [(call.local_build levels changed nonce).run, hset.options ho, ok_bind,
    transaction_withGas htx]

/-- Two ways to give a call end in the same transaction, or both in a value that cannot be
converted. -/
def SameOutcome (a b : Except Failure Transaction) : Prop :=
  (∃ tx, a = .ok tx ∧ b = .ok tx) ∨
    ∃ e f, a = .error (.conversion e) ∧ b = .error (.conversion f)

theorem sameOutcome_map_gasNumber (t : Text) (f : Int → Transaction) :
    SameOutcome ((gasNumber gas (.text t)).map f) ((gasNumber gas (.text t)).map f) := by
  cases h : gasNumber gas (.text t) with
  | ok m => exact .inl ⟨_, rfl, rfl⟩
  | error e =>
    obtain ⟨cause, rfl⟩ := converts_gasNumber gas t e h
    exact .inr ⟨_, _, rfl, rfl⟩

/-- In a call that is otherwise in order a number and its decimal text come to the same, unless the
number is zero or has too many digits. From one up to the largest number of 64 bits that is a
transaction with the number as its gas, and all others are refused. Zero as a number stands for the
gas of a call that gives none, and as a text for itself. -/
theorem build_gas_number_and_text (hbuilt : (call.build levels given nonce).run.1 = .ok tx)
    (hnumber : GivenOptions.SetsGas gas (.is n) given number)
    (htext : GivenOptions.SetsGas gas (.text (toString n)) given text) :
    (n ≠ 0 → Json.isLong n = false →
        SameOutcome (call.build levels number nonce).run.1 (call.build levels text nonce).run.1) ∧
      (0 < n → n < 2 ^ 64 → (call.build levels number nonce).run.1 = .ok (tx.withGas n gas) ∧
        (call.build levels text nonce).run.1 = .ok (tx.withGas n gas)) ∧
      (n = 0 → (call.build levels number nonce).run.1 = .ok (tx.withGas gas.default gas) ∧
        (call.build levels text nonce).run.1 = .ok (tx.withGas 0 gas)) ∧
      (n < 0 ∨ 2 ^ 64 ≤ n → (∃ e, (call.build levels number nonce).run.1 = .error e) ∧
        ∃ cause, (call.build levels text nonce).run.1 = .error (.conversion cause)) := by
  rw [build_of_setsGas hbuilt hnumber, build_of_setsGas hbuilt htext]
  refine ⟨fun hzero hlong => ?_, fun hpos hlt => ?_, ?_, fun hrange => ?_⟩
  · rw [Gas.ofOption_number hzero hlong, Gas.ofOption_text]
    exact sameOutcome_map_gasNumber _ _
  · have hrange : 0 ≤ n ∧ n < 2 ^ 64 := ⟨le_of_lt hpos, hlt⟩
    rw [Gas.ofOption_number (ne_of_gt hpos) (not_isLong_of_range hrange), Gas.ofOption_text,
      gasNumber_toString hrange]
    exact ⟨rfl, rfl⟩
  · rintro rfl
    rw [Gas.ofOption_zero, Gas.ofOption_text, gasNumber_toString (by decide)]
    exact ⟨rfl, rfl⟩
  · have hzero : n ≠ 0 := by omega
    obtain ⟨cause, hcause⟩ := @exists_gasNumber_toString_eq_error gas n hrange
    rw [Gas.ofOption_text, hcause]
    refine ⟨?_, cause, rfl⟩
    cases hlong : Json.isLong n with
    | false =>
      rw [Gas.ofOption_number hzero hlong, Gas.ofOption_text, hcause]
      exact ⟨_, rfl⟩
    | true =>
      rw [Gas.ofOption_long hzero hlong]
      exact ⟨_, rfl⟩

def plainCall : Call := ⟨
  ⟨⟨"f1d7b2a1c3d4e5f60718293a4b5c6d7e8f901234",
    [⟨"transfer", [⟨"amount", "Integer", []⟩], []⟩], []⟩, none⟩, "transfer", [.int 7]⟩

def keyAnd (name : String) (v : Value) : GivenOptions :=
  .value (.dict [("privateKey", .text "01"), (name, v)])

theorem exists_build_plainCall :
    ∃ tx, (plainCall.build 960 (.value (.dict [("privateKey", .text "01")])) (.int 1)).run.1 =
      .ok tx :=
  exists_eq_ok (by decide +kernel)

theorem setsGas_keyAnd {before after : List String} {name : String} (x : TextOr Int)
    (hname : gas.spellings = before ++ name :: after) (hkey : "privateKey" ∉ name :: before) :
    GivenOptions.SetsGas gas x (.value (.dict [("privateKey", .text "01")]))
      (keyAnd name (x.toValue .int)) := by
  obtain ⟨hne, hbefore⟩ := not_or.mp fun h => hkey (List.mem_cons.mpr h)
  have hset : keyAnd name (x.toValue .int) =
      .value (.dict
        (Json.setMember (.whole name) (x.toValue .int) [("privateKey", .text "01")])) := by
    simp [keyAnd, Json.setMember, hne]
  rw [hset]
  refine .member hname fun other hother hmem => hbefore ?_
  rwa [Text.whole.inj (List.mem_singleton.mp hmem)] at hother

theorem build_gas_number_and_text_largest :
    ∃ tx, (plainCall.build 960 (.value (.dict [("privateKey", .text "01")])) (.int 1)).run.1 =
        .ok tx ∧
      GivenOptions.SetsGas .price (.is (2 ^ 64 - 1)) (.value (.dict [("privateKey", .text "01")]))
        (keyAnd "gas_price" (.int (2 ^ 64 - 1))) ∧
      GivenOptions.SetsGas .price (.text (toString (2 ^ 64 - 1 : Int)))
        (.value (.dict [("privateKey", .text "01")]))
        (keyAnd "gasPrice" (.text (toString (2 ^ 64 - 1 : Int)))) ∧
      (plainCall.build 960 (keyAnd "gas_price" (.int (2 ^ 64 - 1))) (.int 1)).run.1 =
        .ok (tx.withGas (2 ^ 64 - 1) .price) ∧
      (plainCall.build 960 (keyAnd "gasPrice" (.text (toString (2 ^ 64 - 1 : Int))))
        (.int 1)).run.1 = .ok (tx.withGas (2 ^ 64 - 1) .price) := by
  obtain ⟨tx, htx⟩ := exists_build_plainCall
  have hnumber := @setsGas_keyAnd .price ["gasPrice"] [] _ (.is (2 ^ 64 - 1)) rfl (by decide)
  have htext := @setsGas_keyAnd .price [] ["gas_price"] _ (.text (toString (2 ^ 64 - 1 : Int))) rfl
    (by decide)
  obtain ⟨hbuilt, hbuilt'⟩ :=
    (build_gas_number_and_text htx hnumber htext).2.1 (by decide) (by decide)
  exact ⟨tx, htx, hnumber, htext, hbuilt, hbuilt'⟩

/-- Zero as a number takes the default, and as a text it is the gas of the transaction. -/
theorem not_sameOutcome_zero :
    ∃ tx, (plainCall.build 960 (.value (.dict [("privateKey", .text "01")])) (.int 1)).run.1 =
        .ok tx ∧
      (plainCall.build 960 (keyAnd "gasPrice" (.int 0)) (.int 1)).run.1 =
        .ok (tx.withGas 500 .price) ∧
      (plainCall.build 960 (keyAnd "gasPrice" (.text (toString (0 : Int)))) (.int 1)).run.1 =
        .ok (tx.withGas 0 .price) ∧
      ¬ SameOutcome (plainCall.build 960 (keyAnd "gasPrice" (.int 0)) (.int 1)).run.1
        (plainCall.build 960 (keyAnd "gasPrice" (.text (toString (0 : Int)))) (.int 1)).run.1 := by
  obtain ⟨tx, htx⟩ := exists_build_plainCall
  have hset (x : TextOr Int) := @setsGas_keyAnd .price [] ["gas_price"] _ x rfl (by decide)
  have hnumber : (plainCall.build 960 (keyAnd "gasPrice" (.int 0)) (.int 1)).run.1 =
      .ok (tx.withGas 500 .price) := by
    have hbuild := build_of_setsGas htx (hset (.is 0))
    rwa [Gas.ofOption_zero] at hbuild
  have htext :
      (plainCall.build 960 (keyAnd "gasPrice" (.text (toString (0 : Int)))) (.int 1)).run.1 =
      .ok (tx.withGas 0 .price) := by
    have hbuild := build_of_setsGas htx (hset (.text (toString (0 : Int))))
    rwa [Gas.ofOption_text, gasNumber_toString (by decide)] at hbuild
  refine ⟨tx, htx, hnumber, htext, ?_⟩
  rw [hnumber, htext]
  rintro (⟨same, hsame, hsame'⟩ | ⟨_, _, ⟨⟩, -⟩)
  have hprice := congrArg Transaction.gasPrice
    (Except.ok.inj (hsame.trans hsame'.symm) : tx.withGas 500 .price = tx.withGas 0 .price)
  simp [Transaction.withGas] at hprice

end Call

end Bindery
