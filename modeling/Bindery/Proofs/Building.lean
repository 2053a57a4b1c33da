import Bindery.Contract.Call
import Bindery.Proofs.Results

/-!
# What has been checked when a transaction has been built

A call is refused or becomes a transaction that carries the function's name and its arguments, each
of which conforms to its kind.
-/

namespace Bindery

theorem gasNumber_eq_ok {gas : Gas} {v : Value} {n : Int} (h : gasNumber gas v = .ok n) :
    0 ≤ n ∧ n < 0x10000000000000000 := by
  unfold gasNumber withLiteral at h
  split at h
  · cases h
  · split at h <;> cases h
  · split at h
    · rename_i hrange
      cases h
      exact hrange
    · split at h <;> cases h

/-- An error that says itself what is wrong with a field, in words that are known. -/
def FieldError.IsOwn : FieldError → Prop
  | .foreign .. => False
  | _ => True

namespace Transaction

/-- Everything that building an invocation checks and lays out. -/
theorem invoke_eq_ok {levels : ℕ} {function : Text} {arguments : List Argument} {contract : Address}
    {gasPrice gasLimit nonce : Value} {payer : Option Address} {tx : Transaction}
    (h : invoke levels function arguments contract gasPrice gasLimit payer nonce = .ok tx) :
    ∃ data price limit, arguments.mapM (Argument.datum levels) = .ok data ∧
      gasNumber .price gasPrice = .ok price ∧ gasNumber .limit gasLimit = .ok limit ∧
      Script.callable function data ∧
      tx = {
        function := function
        arguments := arguments
        version := .int 0
        type := .int invokeType
        nonce := nonce
        gasPrice := .int price
        gasLimit := .int limit
        payer := .bytes (payer.getD Address.zero).bytes
        payload := .bytes (Script.call function data contract)
        attributes := .bytes []
        endorsements := [] } := by
  obtain ⟨data, hdata, h⟩ := bind_eq_ok.mp h
  obtain ⟨price, hprice, h⟩ := bind_eq_ok.mp h
  obtain ⟨limit, hlimit, h⟩ := bind_eq_ok.mp h
  refine ⟨data, price, limit, hdata, hprice, hlimit, ?_⟩
  by_cases hcall : Script.callable function data
  · simp only [hcall] at h
    cases h
    exact ⟨hcall, rfl⟩
  · simp only [hcall] at h
    cases h

variable {tx : Transaction}

theorem hash_eq_ok_iff {h : Bytes} :
    tx.hash = .ok h ↔ ∃ head, tx.unsigned = .ok head ∧ Sha256.hashTwice head = h :=
  map_eq_ok

/-- Signing adds the one endorsement of the bytes that are signed, and fails only with them. -/
theorem sign_eq_ok_iff {key : PrivateKey} {signed : Transaction} :
    tx.sign key = .ok signed ↔ ∃ head, tx.unsigned = .ok head ∧
      signed = tx.endorse key (Sha256.hashTwice head) := by
  unfold sign
  rw [bind_eq_ok]
  constructor
  · rintro ⟨h, hhash, hsigned⟩
    obtain ⟨head, hhead, rfl⟩ := hash_eq_ok_iff.mp hhash
    cases hsigned
    exact ⟨head, hhead, rfl⟩
  · rintro ⟨head, hhead, rfl⟩
    exact ⟨_, hash_eq_ok_iff.mpr ⟨head, hhead, rfl⟩, rfl⟩

/-- The fields that are laid out as bytes hold bytes, as they do until another value is assigned. -/
structure HoldsBytes (tx : Transaction) : Prop where
  payer : ∃ b, tx.payer = .bytes b
  payload : ∃ b, tx.payload = .bytes b
  attributes : ∃ b, tx.attributes = .bytes b

theorem holdsBytes_of_invoke {levels : ℕ} {function : Text} {arguments : List Argument}
    {contract : Address} {gasPrice gasLimit nonce : Value} {payer : Option Address}
    (h : invoke levels function arguments contract gasPrice gasLimit payer nonce = .ok tx) :
    tx.HoldsBytes := by
  obtain ⟨data, _, _, -, -, -, -, rfl⟩ := invoke_eq_ok h
  exact ⟨⟨_, rfl⟩, ⟨_, rfl⟩, ⟨_, rfl⟩⟩

section FieldErrors

open FieldError (IsOwn)

theorem onlyFails_byteField (v : Value) : OnlyFails IsOwn (byteField v) := by
  unfold byteField
  split
  · exact onlyFails_error trivial
  · split_ifs
    · exact onlyFails_error trivial
    · exact onlyFails_error trivial
    · exact onlyFails_ok _

theorem onlyFails_wordField (v : Value) : OnlyFails IsOwn (wordField v) := by
  unfold wordField
  split
  · exact onlyFails_error trivial
  · split_ifs
    · exact onlyFails_error trivial
    · exact onlyFails_error trivial
    · exact onlyFails_ok _

theorem onlyFails_longField (v : Value) : OnlyFails IsOwn (longField v) := by
  unfold longField
  split
  · exact onlyFails_error trivial
  · split_ifs
    · exact onlyFails_error trivial
    · exact onlyFails_ok _

theorem onlyFails_count (n : ℕ) : OnlyFails IsOwn (count n) := by
  unfold count
  split_ifs
  all_goals first | exact onlyFails_ok _ | exact onlyFails_error trivial

theorem onlyFails_counted (b : Bytes) : OnlyFails IsOwn (counted b) :=
  (onlyFails_count b.length).map _

theorem onlyFails_payloadField (b : Bytes) : OnlyFails IsOwn (payloadField b) := by
  unfold payloadField
  split
  · exact onlyFails_ok _
  · exact onlyFails_counted b

theorem HoldsBytes.onlyFails_unsigned (h : tx.HoldsBytes) : OnlyFails IsOwn tx.unsigned := by
  obtain ⟨⟨payer, hpayer⟩, ⟨payload, hpayload⟩, ⟨attributes, hattributes⟩⟩ := h
  unfold unsigned
  rw [hpayer, hpayload, hattributes]
  refine (onlyFails_byteField _).bind fun _ _ => (onlyFails_byteField _).bind fun _ _ => ?_
  refine (onlyFails_wordField _).bind fun _ _ => (onlyFails_longField _).bind fun _ _ => ?_
  refine (onlyFails_longField _).bind fun _ _ => (onlyFails_ok _).bind fun _ _ => ?_
  refine (onlyFails_payloadField _).bind fun _ _ => (onlyFails_count _).bind fun _ _ => ?_
  exact onlyFails_ok _

theorem HoldsBytes.onlyFails_hash (h : tx.HoldsBytes) : OnlyFails IsOwn tx.hash :=
  h.onlyFails_unsigned.map _

theorem HoldsBytes.onlyFails_sign (h : tx.HoldsBytes) (key : PrivateKey) :
    OnlyFails IsOwn (tx.sign key) :=
  h.onlyFails_hash.bind fun _ _ => onlyFails_ok _

theorem HoldsBytes.onlyFails_text (h : tx.HoldsBytes) : OnlyFails IsOwn tx.text := by
  refine OnlyFails.map ?_ _
  refine h.onlyFails_unsigned.bind fun _ _ => (onlyFails_count _).bind fun _ _ => ?_
  refine (onlyFails_mapM fun e _ => ?_).bind fun _ _ => onlyFails_ok _
  exact (onlyFails_counted _).bind fun _ _ => (onlyFails_counted _).bind fun _ _ => onlyFails_ok _

/-- Signing leaves what the fields hold. -/
theorem HoldsBytes.of_sign {key : PrivateKey} {signed : Transaction} (h : tx.HoldsBytes)
    (hsign : tx.sign key = .ok signed) : signed.HoldsBytes := by
  obtain ⟨_, -, rfl⟩ := sign_eq_ok_iff.mp hsign
  exact ⟨h.payer, h.payload, h.attributes⟩

end FieldErrors

end Transaction

namespace Call

/-- The steps that lead from a call to its transaction. -/
theorem exists_invoke_of_transaction {levels : ℕ} {call : Call} {options : Options} {nonce : Value}
    {tx : Transaction} (h : call.transaction levels options nonce = .ok tx) :
    ∃ f arguments address gasPrice gasLimit payer, call.resolve = .ok f ∧
      call.arguments? f = .ok arguments ∧ call.contract.address = .ok address ∧
        Transaction.invoke levels f.name arguments address gasPrice gasLimit payer nonce =
          .ok tx := by
  obtain ⟨f, hf, h⟩ := bind_eq_ok.mp h
  obtain ⟨arguments, harguments, h⟩ := bind_eq_ok.mp h
  obtain ⟨price, -, h⟩ := bind_eq_ok.mp h
  obtain ⟨limit, -, h⟩ := bind_eq_ok.mp h
  obtain ⟨payer, -, h⟩ := bind_eq_ok.mp h
  obtain ⟨address, haddress, h⟩ := bind_eq_ok.mp h
  exact ⟨f, arguments, address, _, _, payer, hf, harguments, haddress, h⟩

theorem transaction_eq_ok {levels : ℕ} {call : Call} {options : Options} {nonce : Value}
    {tx : Transaction} (h : call.transaction levels options nonce = .ok tx) :
    ∃ f arguments, call.resolve = .ok f ∧ call.arguments? f = .ok arguments ∧
      tx.function = f.name ∧ tx.arguments = arguments ∧
      ∃ data, arguments.mapM (Argument.datum levels) = .ok data := by
  obtain ⟨f, arguments, address, _, _, payer, hf, harguments, -, h⟩ :=
    exists_invoke_of_transaction h
  obtain ⟨data, _, _, hdata, -, -, -, rfl⟩ := Transaction.invoke_eq_ok h
  exact ⟨f, arguments, hf, harguments, rfl, rfl, data, hdata⟩

end Call

end Bindery
