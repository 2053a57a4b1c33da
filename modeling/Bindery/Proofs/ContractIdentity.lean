import Bindery.Proofs.AddressText
import Bindery.Proofs.Submission

/-!
# One contract behind queries and calls

The hash of an interface goes two ways: as a text, without the marker in front of it, into every
query of the contract, and read as bytes into the address that the calls of the contract go to. The
reading takes more texts than the digits of an address; it leaves out a second marker and blanks,
which stay in the queries. Without these both ways lead to the same contract.
-/

namespace Bindery

def Request.codeHash? : Request → Option Text
  | .storage h _ | .contract h | .contractJson h => some h
  | .sendRawTransaction .. => none

/-- Up to case the text is the digits of the address, its last byte first. -/
def Address.HasCodeHash (a : Address) (h : String) : Prop := h.toLower = Hex.encode a.reverse.bytes

theorem Address.ofCodeHash_eq_ok_iff {a : Address} {t : Text} :
    ofCodeHash (.text t) = .ok a ↔ ∃ h, t = .whole h ∧ Hex.decode? h = some a.reverse.bytes := by
  have hreverse (b : Bytes) : a.bytes = b.reverse ↔ b = a.reverse.bytes :=
    List.reverse_eq_iff.symm.trans eq_comm
  simp only [ofCodeHash, bind_eq_ok, hexBytes_text_eq_ok_iff, ofBytes_eq_ok_iff, hreverse,
    exists_eq_right]

theorem Abi.codeHash_of_bare {abi : Abi} {h : String} (hbare : Hex.Bare h)
    (hhash : abi.hash ∈ [h, "0x" ++ h, "0X" ++ h].map Text.whole) : abi.codeHash = .whole h := by
  have hdropped (marker : String) (hmarker : ∀ cs, Hex.dropMarkerChars (marker.toList ++ cs) = cs) :
      Hex.dropMarker (marker ++ h) = h := by
    rw [Hex.dropMarker, String.toList_append, hmarker, String.ofList_toList]
  rw [codeHash]
  simp only [List.map_cons, List.map_nil, List.mem_cons, List.not_mem_nil, or_false] at hhash
  rcases hhash with hhash | hhash | hhash
  · rw [hhash, Hex.withoutMarker, hbare.unmarked]
  · rw [hhash, Hex.withoutMarker, hdropped "0x" fun _ => rfl]
  · rw [hhash, Hex.withoutMarker, hdropped "0X" fun _ => rfl]

namespace Contract

open Activity

variable {c : Contract} {a : Address}

inductive Query (c : Contract) : Activity Value → Prop
  | storage (key : Value) : Query c (c.getStorage key)
  | contract : Query c c.getContract
  | contractJson : Query c c.getContractJson

/-- Everything that is asked about a contract and called of it concerns the contract at one
address. -/
structure OneIdentity (c : Contract) (a : Address) : Prop where
  queries : ∀ q, c.Query q → ∀ asked ∈ q.run.2.requests,
    ∃ h, asked.2.codeHash? = some (.whole h) ∧ a.HasCodeHash h
  calls : ∀ (levels : ℕ) (call : Call) (given : GivenOptions) (nonce : Value) (tx : Transaction),
    call.contract = c → (call.build levels given nonce).run.1 = .ok tx →
      ∃ script, tx.payload = .bytes (script ++ Script.callInstruction :: a.bytes)

theorem requests_ask (client : Option Client) (request : Request) :
    ∀ asked ∈ (ask client request).run.2.requests, asked.2 = request := by
  cases client with
  | none => exact nofun
  | some client =>
    intro asked hasked
    obtain rfl : asked = (client.name, request) := List.mem_singleton.mp hasked
    rfl

/-- Looking at what has been answered asks nobody. -/
theorem trace_bind_ofExcept {α β : Type} (x : Activity α) (f : α → Except Failure β) :
    (x >>= fun y => Activity.ofExcept (f y)).run.2 = x.run.2 := by
  rw [run_eq_exec, run_eq_exec, exec_bind]
  cases x.exec ⟨[], []⟩ with
  | mk result trace => cases result <;> rfl

theorem codeHash?_of_query {q : Activity Value} (hq : c.Query q) :
    ∀ asked ∈ q.run.2.requests, asked.2.codeHash? = some c.codeHash := by
  have hask (request : Request) (hrequest : request.codeHash? = some c.codeHash) :
      ∀ asked ∈ (ask c.client request).run.2.requests,
        asked.2.codeHash? = some c.codeHash := by
    intro asked hasked
    rw [requests_ask c.client request asked hasked, hrequest]
  cases hq with
  | contract => exact hask _ rfl
  | contractJson => exact hask _ rfl
  | storage key =>
    unfold getStorage
    cases hclient : c.client with
    | none => exact nofun
    | some client =>
      cases storageKey key with
      | error e => exact nofun
      | ok k =>
        rw [hclient] at hask
        change ∀ asked ∈ (ask (some client) (.storage c.codeHash k) >>= fun reply =>
          Activity.ofExcept (storageResult reply)).run.2.requests, _
        rw [trace_bind_ofExcept]
        exact hask _ rfl

theorem address_eq_ok_iff : c.address = .ok a ↔
    ∃ h, c.codeHash = .whole h ∧ Hex.decode? h = some a.reverse.bytes :=
  Address.ofCodeHash_eq_ok_iff

theorem payload_of_build {levels : ℕ} (haddress : c.address = .ok a) {call : Call}
    {given : GivenOptions}
    {nonce : Value} {tx : Transaction} (hcall : call.contract = c)
    (hbuild : (call.build levels given nonce).run.1 = .ok tx) :
    ∃ script, tx.payload = .bytes (script ++ Script.callInstruction :: a.bytes) := by
  rw [(call.local_build levels given nonce).run] at hbuild
  obtain ⟨options, -, htx⟩ := bind_eq_ok.mp hbuild
  obtain ⟨f, arguments, address, price, limit, payer, -, -, hown, hinvoke⟩ :=
    Call.exists_invoke_of_transaction htx
  rw [hcall, haddress] at hown
  cases hown
  obtain ⟨data, _, _, -, -, -, -, rfl⟩ := Transaction.invoke_eq_ok hinvoke
  exact ⟨_, rfl⟩

/-- The calls of a contract go to its address, and the queries name the same contract unless
something besides the digits was left out in reading its hash. -/
theorem oneIdentity_iff_bare (hclient : c.client.isSome) (haddress : c.address = .ok a) :
    c.OneIdentity a ↔ ∃ h, c.codeHash = .whole h ∧ Hex.Bare h := by
  obtain ⟨h, hhash, hdecode⟩ := address_eq_ok_iff.mp haddress
  simp only [hhash, Text.whole.injEq, exists_eq_left']
  rw [Hex.bare_iff_of_decode? hdecode]
  constructor
  · intro h
    obtain ⟨client, hclient⟩ := Option.isSome_iff_exists.mp hclient
    have hasked : (client.name, .contract c.codeHash) ∈ c.getContract.run.2.requests := by
      rw [getContract, hclient]
      exact List.mem_singleton_self _
    rw [hhash] at hasked
    obtain ⟨text, htext, hdigits⟩ := h.queries _ .contract _ hasked
    cases htext
    exact hdigits
  · intro hdigits
    exact {
      queries := fun q hq asked hasked =>
        ⟨h, hhash ▸ codeHash?_of_query hq asked hasked, hdigits⟩
      calls := fun levels call given nonce tx => payload_of_build haddress }

/-- A contract whose address can be computed is the same one in its queries and in its calls just
when its hash, behind the marker, holds no second marker and no blanks. Every address is that of the
contract whose hash is the digits of the address from the last byte to the first, with or without a
marker, and that contract is the same one in its queries and in its calls. -/
theorem oneIdentity_iff (abi : Abi) (client : Client) (a : Address) :
    let c : Contract := ⟨abi, some client⟩
    (c.address = .ok a → (c.OneIdentity a ↔ ∃ h, c.codeHash = .whole h ∧ Hex.Bare h)) ∧
      ∀ h, a.HasCodeHash h → abi.hash ∈ [h, "0x" ++ h, "0X" ++ h].map Text.whole →
        c.address = .ok a ∧ c.OneIdentity a := by
  intro c
  refine ⟨oneIdentity_iff_bare rfl, fun h hdigits hhash => ?_⟩
  have hdecode := Hex.decode?_of_toLower hdigits
  have hbare := (Hex.bare_iff_of_decode? hdecode).mpr hdigits
  have hcodeHash : c.codeHash = .whole h := Abi.codeHash_of_bare hbare hhash
  have haddress : c.address = .ok a := address_eq_ok_iff.mpr ⟨h, hcodeHash, hdecode⟩
  exact ⟨haddress, (oneIdentity_iff_bare rfl haddress).mpr ⟨h, hcodeHash, hbare⟩⟩

def countdown : Address :=
  ⟨[20, 19, 18, 17, 16, 15, 14, 13, 12, 11, 10, 9, 8, 7, 6, 5, 4, 3, 2, 1], rfl⟩

theorem oneIdentity_iff_marked :
    let c : Contract := ⟨⟨"0x0102030405060708090A0b0c0d0e0f1011121314", [], []⟩,
      some ⟨"own", fun _ => .ok .null⟩⟩
    c.address = .ok countdown ∧
      (c.OneIdentity countdown ↔ ∃ h, c.codeHash = .whole h ∧ Hex.Bare h) ∧
      c.OneIdentity countdown := by
  intro c
  have hboth := oneIdentity_iff c.abi ⟨"own", fun _ => .ok .null⟩ countdown
  have hdigits : countdown.HasCodeHash "0102030405060708090A0b0c0d0e0f1011121314" := by
    unfold Address.HasCodeHash
    decide +kernel
  obtain ⟨haddress, hone⟩ := hboth.2 _ hdigits (by decide +kernel)
  exact ⟨haddress, hboth.1 haddress, hone⟩

/-- A hash with two markers: one stays in the queries, both are left out of the address. -/
theorem not_oneIdentity_two_markers :
    let c : Contract := ⟨⟨"0x0x0102030405060708090a0b0c0d0e0f1011121314", [], []⟩,
      some ⟨"own", fun _ => .ok .null⟩⟩
    c.address = .ok countdown ∧
      c.getContract.run.2.requests =
        [("own", .contract "0x0102030405060708090a0b0c0d0e0f1011121314")] ∧
      ¬ c.OneIdentity countdown := by
  intro c
  have hcodeHash : c.codeHash = .whole "0x0102030405060708090a0b0c0d0e0f1011121314" := by
    decide +kernel
  have haddress : c.address = .ok countdown :=
    address_eq_ok_iff.mpr ⟨_, hcodeHash, by decide +kernel⟩
  refine ⟨haddress, by rw [← hcodeHash]; rfl, fun h => ?_⟩
  obtain ⟨text, htext, hbare⟩ := (oneIdentity_iff_bare rfl haddress).mp h
  rw [hcodeHash] at htext
  cases htext
  exact absurd hbare.unmarked (by decide +kernel)

end Contract

end Bindery
