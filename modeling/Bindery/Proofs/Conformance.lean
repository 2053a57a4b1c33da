import Bindery.Proofs.ArgumentKinds
import Bindery.Proofs.Building
import Bindery.Proofs.IntegerText

/-!
# Building from conforming arguments

Building an invocation comes down to the check of its arguments, but for gas in too many digits, for
byte strings whose length no prefix can give, for texts that have no encoding, and for values that
go too deep.
-/

namespace Bindery

def DenotesGas (s : String) : Prop :=
  ∃ n, Text.Denotes s n ∧ 0 ≤ n ∧ n < 0x10000000000000000

/-- Gas of 64 bits is read just when it is written in no more digits than are read. -/
theorem exists_gasNumber_iff {gas : Gas} {s : String} (h : DenotesGas s) :
    (∃ n, gasNumber gas (.text s) = .ok n) ↔ Text.digitCount s ≤ Json.digitLimit := by
  obtain ⟨n, hdenotes, hrange⟩ := h
  simp only [gasNumber, Value.toInteger, Value.toInteger.ofOption, Text.whole?, Option.bind_some]
  constructor
  · rintro ⟨m, hm⟩
    cases hread : Text.readInteger Json.digitLimit s with
    | none =>
      rw [hread] at hm
      dsimp only at hm
      rw [withLiteral_of_text rfl] at hm
      cases hm
    | some k => exact (Text.readInteger_eq_some_iff.mp hread).2
  · intro hcount
    rw [Text.readInteger_eq_some_iff.mpr ⟨hdenotes, hcount⟩]
    exact ⟨n, if_pos hrange⟩

namespace Transaction

variable {levels : ℕ} {function : Text} {arguments : List Argument} {contract : Address}
  {payer : Option Address} {nonce : Value} {gas : Gas → String}

/-- A transaction is built from all arguments that conform and from no others, and where none is
built something could not be converted. -/
structure Checked (arguments : List Argument) (built : Except Failure Transaction) : Prop where
  builds_iff : (∃ tx, built = .ok tx) ↔ ∀ a ∈ arguments, a.Conforms
  converts : Converts built

theorem exists_invoke_iff (hgas : ∀ g, DenotesGas (gas g)) :
    (∃ tx, invoke levels function arguments contract (.text (gas .price)) (.text (gas .limit)) payer
        nonce = .ok tx) ↔
      (∃ data, arguments.mapM (Argument.datum levels) = .ok data ∧ Script.callable function data) ∧
        ∀ g, Text.digitCount (gas g) ≤ Json.digitLimit := by
  constructor
  · rintro ⟨tx, htx⟩
    obtain ⟨data, price, limit, hdata, hprice, hlimit, hcall, -⟩ := invoke_eq_ok htx
    refine ⟨⟨data, hdata, hcall⟩, fun g => ?_⟩
    cases g with
    | price => exact (exists_gasNumber_iff (hgas .price)).mp ⟨price, hprice⟩
    | limit => exact (exists_gasNumber_iff (hgas .limit)).mp ⟨limit, hlimit⟩
  · rintro ⟨⟨data, hdata, hcall⟩, hcount⟩
    have hnumber (g : Gas) : ∃ n, gasNumber g (.text (gas g)) = .ok n :=
      (exists_gasNumber_iff (hgas g)).mpr (hcount g)
    obtain ⟨price, hprice⟩ := hnumber .price
    obtain ⟨limit, hlimit⟩ := hnumber .limit
    simp only [invoke, hdata, hprice, hlimit, ok_bind, hcall]
    exact ⟨_, rfl⟩

/-- Building accepts just the arguments that conform, and refuses all others as what cannot be
converted, unless an argument is met that goes too deep, or all conform and gas is written in too
many digits or the script cannot be written. -/
theorem invoke_checked_iff (levels : ℕ) (function : Text) (arguments : List Argument)
    (contract : Address) (payer : Option Address) (nonce : Value)
    (hgas : ∀ g, DenotesGas (gas g)) :
    Checked arguments (invoke levels function arguments contract (.text (gas .price))
        (.text (gas .limit)) payer nonce) ↔
      ¬ Argument.Overrun levels arguments ∧
        ((∀ a ∈ arguments, a.Conforms) → (∀ g, Text.digitCount (gas g) ≤ Json.digitLimit) ∧
          ∀ data, arguments.mapM (Argument.datum levels) = .ok data →
            Script.callable function data) := by
  constructor
  · intro h
    refine ⟨Argument.converts_data_iff.mp fun e he => h.converts e ?_, fun hall => ?_⟩
    · exact bind_eq_error.mpr (.inl he)
    · obtain ⟨⟨data, hdata, hcall⟩, hcount⟩ := (exists_invoke_iff hgas).mp (h.builds_iff.mpr hall)
      refine ⟨hcount, fun other hother => ?_⟩
      rw [hdata] at hother
      cases hother
      exact hcall
  · rintro ⟨hover, h⟩
    by_cases hall : ∀ a ∈ arguments, a.Conforms
    · obtain ⟨hcount, hcall⟩ := h hall
      have hwithin := Argument.within_of_not_overrun hall hover
      obtain ⟨data, hdata⟩ := Argument.exists_data_iff.mpr fun a ha => ⟨hall a ha, hwithin a ha⟩
      obtain ⟨tx, htx⟩ : ∃ tx, invoke levels function arguments contract (.text (gas .price))
          (.text (gas .limit)) payer nonce = .ok tx :=
        (exists_invoke_iff hgas).mpr ⟨⟨data, hdata, hcall data hdata⟩, hcount⟩
      rw [htx]
      exact ⟨iff_of_true ⟨tx, rfl⟩ hall, onlyFails_ok tx⟩
    · cases hdata : arguments.mapM (Argument.datum levels) with
      | ok data =>
        have hall' := Argument.exists_data_iff.mp ⟨data, hdata⟩
        exact absurd (fun a ha => (hall' a ha).1) hall
      | error e =>
        have hfails : invoke levels function arguments contract (.text (gas .price))
            (.text (gas .limit)) payer nonce = .error e := by
          rw [invoke, hdata]
          rfl
        rw [hfails]
        refine ⟨iff_of_false (by rintro ⟨tx, ⟨⟩⟩) hall, onlyFails_error ?_⟩
        exact Argument.converts_data_iff.mpr hover e hdata

def nestedArguments : List Argument :=
  [ ⟨"owner", .byteArray, .text "0xAB cd"⟩, ⟨"ids", .longArray, .tuple [.int (-1), .int 300]⟩,
    ⟨"any", .other, .list [.tuple [.text "é", .list []], .address Address.zero]⟩ ]

theorem conforms_nestedArguments : ∀ a ∈ nestedArguments, a.Conforms := by
  have hdata : (nestedArguments.mapM (Argument.datum 3)).isOk := by decide +kernel
  exact fun a ha => (Argument.exists_data_iff.mp (exists_eq_ok hdata) a ha).1

theorem denotesGas_plain : DenotesGas "20000" :=
  ⟨20000, ⟨5, by decide +kernel⟩, by decide, by decide⟩

theorem invoke_checked_iff_nested :
    let gas : Gas → String := fun g => g.casesOn " +5_00\n" "20000"
    (∀ g, DenotesGas (gas g)) ∧ Checked nestedArguments (invoke 3 "Do" nestedArguments Address.zero
      (.text (gas .price)) (.text (gas .limit)) none (.int 1)) := by
  intro gas
  have hgas : ∀ g, DenotesGas (gas g)
    | .price => ⟨500, ⟨3, by decide +kernel⟩, by decide, by decide⟩
    | .limit => denotesGas_plain
  have hdata : (nestedArguments.mapM (Argument.datum 3)).isOk := by decide +kernel
  have hover : ¬ Argument.Overrun 3 nestedArguments := by
    obtain ⟨data, hdata⟩ := exists_eq_ok hdata
    rw [← Argument.converts_data_iff, hdata]
    exact onlyFails_ok data
  refine ⟨hgas, (invoke_checked_iff 3 "Do" nestedArguments Address.zero none (.int 1) hgas).mpr
    ⟨hover, fun _ => ?_⟩⟩
  have hcall : (nestedArguments.mapM (Argument.datum 3)).toOption.all (Script.callable "Do") := by
    decide +kernel
  have hcount : Text.digitCount (gas .price) ≤ Json.digitLimit ∧
      Text.digitCount (gas .limit) ≤ Json.digitLimit := by decide +kernel
  refine ⟨fun g => g.casesOn hcount.1 hcount.2, fun data hdata => ?_⟩
  rw [hdata] at hcall
  exact hcall

def paddedGas (zeros : Nat) : String := String.ofList (Binary64.zeros zeros ++ ['5', '0', '0'])

theorem denotes_paddedGas (zeros : Nat) :
    Text.Denotes (paddedGas zeros) 500 ∧ Text.digitCount (paddedGas zeros) = zeros + 3 := by
  have hrest : Json.AllDigits ['5', '0', '0'] := List.all_eq_true.mp rfl
  have hdigits := (Json.allDigits_zeros zeros).append hrest
  obtain ⟨hdenotes, hcount⟩ := Text.denotes_of_allDigits (by simp) hdigits
  rw [Json.natOfDigits_append, Json.natOfDigits_zeros] at hdenotes
  refine ⟨hdenotes, hcount.trans ?_⟩
  rw [List.length_append, Binary64.zeros, List.length_replicate]
  rfl

/-- Gas in one digit more than are read. -/
theorem not_checked_paddedGas :
    DenotesGas (paddedGas 4298) ∧ (∀ a ∈ nestedArguments, a.Conforms) ∧
      ¬ Checked nestedArguments (invoke 3 "Do" nestedArguments Address.zero
        (.text (paddedGas 4298)) (.text "20000") none (.int 1)) := by
  obtain ⟨hdenotes, hcount⟩ := denotes_paddedGas 4298
  have hpadded : DenotesGas (paddedGas 4298) := ⟨500, hdenotes, by decide, by decide⟩
  refine ⟨hpadded, conforms_nestedArguments, fun h => ?_⟩
  let gas : Gas → String := fun g => g.casesOn (paddedGas 4298) "20000"
  have hgas : ∀ g, DenotesGas (gas g)
    | .price => hpadded
    | .limit => denotesGas_plain
  have hfits : Text.digitCount (paddedGas 4298) ≤ Json.digitLimit :=
    ((exists_invoke_iff hgas).mp (h.builds_iff.mpr conforms_nestedArguments)).2 .price
  rw [hcount] at hfits
  exact absurd hfits (by decide)

theorem length_encodeUtf8_replicate (n : Nat) :
    (Text.encodeUtf8 (String.ofList (List.replicate n 'a'))).length = n := by
  rw [Text.encodeUtf8, String.toList_ofList]
  induction n with
  | zero => rfl
  | succ n ih =>
    rw [List.replicate_succ, List.flatMap_cons, List.length_append, ih, Nat.add_comm]
    rfl

def nestedLists : ℕ → Value
  | 0 => .list []
  | n + 1 => .list [nestedLists n]

theorem plain_nestedLists (n : ℕ) : (nestedLists n).Plain := by
  induction n with
  | zero => exact .list (List.forall_mem_nil _)
  | succ n ih => exact .list (List.forall_mem_singleton.mpr ih)

theorem nesting_nestedLists (n : ℕ) : (nestedLists n).nesting = n + 1 := by
  induction n with
  | zero => rfl
  | succ n ih => simp [nestedLists, Value.nesting, Value.nestingItems, ih]

/-- However many levels there are, something conforms that goes deeper. -/
theorem not_checked_nestedLists (levels : ℕ) :
    let deep : Argument := ⟨"p", .other, nestedLists levels⟩
    deep.Conforms ∧ ¬ Checked [deep] (invoke levels "Do" [deep] Address.zero (.text "20000")
      (.text "20000") none (.int 1)) := by
  intro deep
  have hdeep : deep.Conforms := plain_nestedLists levels
  refine ⟨hdeep, fun h => ?_⟩
  obtain ⟨tx, htx⟩ := h.builds_iff.mpr (List.forall_mem_singleton.mpr hdeep)
  obtain ⟨data, -, -, hdata, -⟩ := invoke_eq_ok htx
  have hwithin := (Argument.exists_data_iff.mp ⟨data, hdata⟩ deep List.mem_cons_self).2 rfl
  rw [nesting_nestedLists] at hwithin
  exact absurd hwithin (Nat.not_succ_le_self levels)

/-- A text whose length no prefix can give conforms, and no transaction is built from it. -/
theorem not_checked_of_lengthLimit_le (levels : ℕ) {n : Nat} (hn : Script.lengthLimit ≤ n) :
    let long : Argument := ⟨"p", .string, .text (String.ofList (List.replicate n 'a'))⟩
    long.Conforms ∧ ¬ Checked [long] (invoke levels "Do" [long] Address.zero
      (.text "20000") (.text "20000") none (.int 1)) := by
  intro long
  have hlong : long.Conforms := ⟨_, rfl⟩
  refine ⟨hlong, fun h => ?_⟩
  have hbuilt := h.builds_iff.mpr (List.forall_mem_singleton.mpr hlong)
  obtain ⟨⟨data, hdata, hcall⟩, -⟩ :=
    (@exists_invoke_iff _ _ _ _ _ _ (fun _ => "20000") fun _ => denotesGas_plain).mp hbuilt
  obtain rfl : [.bytes (Text.encodeUtf8 (String.ofList (List.replicate n 'a')))] = data :=
    Except.ok.inj hdata
  simp only [Script.callable, Script.pushable, Script.pushableItems, Script.fits,
    length_encodeUtf8_replicate, Bool.and_eq_true, decide_eq_true_eq] at hcall
  omega

/-- A text that no encoding writes conforms, and no transaction is built from it. -/
theorem not_checked_broken (levels : ℕ) (b : Text.Broken) :
    let half : Argument := ⟨"p", .string, .text (.broken b)⟩
    half.Conforms ∧ ¬ Checked [half] (invoke levels "Do" [half] Address.zero (.text "20000")
      (.text "20000") none (.int 1)) := by
  intro half
  have hhalf : half.Conforms := ⟨_, rfl⟩
  refine ⟨hhalf, fun h => ?_⟩
  obtain ⟨tx, htx⟩ := h.builds_iff.mpr (List.forall_mem_singleton.mpr hhalf)
  obtain ⟨data, -, -, hdata, -, -, hcall, -⟩ := invoke_eq_ok htx
  obtain rfl : [.broken b] = data := Except.ok.inj hdata
  simp [Script.callable, Script.pushable, Script.pushableItems] at hcall

end Transaction

end Bindery
