import Bindery.Proofs.Wire

/-!
# One submission or none

Everything that can fail on the side of the caller happens before a client is asked. `Local` holds
of an activity that asks nobody, `Submits` of one that does local work and then asks a client once;
both say how the activity ends, whatever has been done before it. Along the steps of `Call.send`
they give that a call is submitted exactly once or not at all.
-/

namespace Bindery

namespace Activity

variable {α β : Type}

def exec (a : Activity α) (t : Trace) : Except Failure α × Trace :=
  StateT.run (m := Id) (ExceptT.run a) t

theorem run_eq_exec (a : Activity α) : a.run = a.exec ⟨[], []⟩ := rfl

theorem exec_bind (a : Activity α) (f : α → Activity β) (t : Trace) :
    (a >>= f).exec t =
      match a.exec t with
      | (.ok x, t) => (f x).exec t
      | (.error e, t) => (.error e, t) := by
  have hrun : (a >>= f).exec t = ExceptT.bindCont f (a.exec t).1 (a.exec t).2 := rfl
  rw [hrun]
  cases a.exec t with
  | mk r t => cases r <;> rfl

def Local (a : Activity α) (r : Except Failure α) : Prop :=
  ∀ t, (a.exec t).1 = r ∧ (a.exec t).2.requests = t.requests

theorem local_ofExcept (r : Except Failure α) : Local (ofExcept r) r := fun _ => ⟨rfl, rfl⟩

theorem local_pure (x : α) : Local (pure x) (.ok x) := fun _ => ⟨rfl, rfl⟩

theorem local_log (record : LogRecord) : Local (log record) (.ok ()) := fun _ => ⟨rfl, rfl⟩

/-- What `c` is asked once some work is done: what the work has given, and nothing if it failed. -/
def asked (c : Client) : Except Failure Request → List (String × Request)
  | .error _ => []
  | .ok request => [(c.name, request)]

/-- The activity does some work, asks `c` once what the work has given and ends as `c` answers; if
the work fails it ends with that failure and asks nobody. -/
def Submits (a : Activity Value) (work : Except Failure Request) (c : Client) : Prop :=
  ∀ t, (a.exec t).1 = work >>= c.answer ∧ (a.exec t).2.requests = t.requests ++ asked c work

theorem submits_ask (c : Client) (request : Request) :
    Submits (ask (some c) request) (.ok request) c := fun _ => ⟨rfl, rfl⟩

variable {a : Activity α} {r : Except Failure α}

theorem Local.bind {f : α → Activity β} {g : α → Except Failure β} (ha : a.Local r)
    (hf : ∀ x, (f x).Local (g x)) : (a >>= f).Local (r >>= g) := by
  intro t
  obtain ⟨hresult, hrequests⟩ := ha t
  rw [exec_bind]
  cases hexec : a.exec t with
  | mk result t' =>
    rw [hexec] at hresult hrequests
    subst hresult
    cases result with
    | error e => exact ⟨rfl, hrequests⟩
    | ok x =>
      obtain ⟨hresult', hrequests'⟩ := hf x t'
      exact ⟨hresult', hrequests'.trans hrequests⟩

theorem Local.submits {f : α → Activity Value} {g : α → Except Failure Request} {c : Client}
    (ha : a.Local r) (hf : ∀ x, (f x).Submits (g x) c) : (a >>= f).Submits (r >>= g) c := by
  intro t
  obtain ⟨hresult, hrequests⟩ := ha t
  rw [exec_bind]
  cases hexec : a.exec t with
  | mk result t' =>
    rw [hexec] at hresult hrequests
    subst hresult
    cases result with
    | error e => exact ⟨rfl, hrequests.trans (List.append_nil _).symm⟩
    | ok x =>
      obtain ⟨hresult', hrequests'⟩ := hf x t'
      exact ⟨hresult', hrequests'.trans (hrequests ▸ rfl)⟩

theorem Local.run (h : a.Local r) : a.run.1 = r := (h ⟨[], []⟩).1

theorem Submits.run {a : Activity Value} {work : Except Failure Request} {c : Client}
    (h : a.Submits work c) : a.run.1 = work >>= c.answer ∧ a.run.2.requests = asked c work :=
  h ⟨[], []⟩

end Activity

namespace Call

open Activity

variable {levels : ℕ} {call : Call} {given : GivenOptions} {nonce : Value}

theorem local_buildWith (levels : ℕ) (call : Call) (options : Options) (nonce : Value) :
    (call.buildWith levels options nonce).Local (call.transaction levels options nonce) := by
  have hsteps : (call.buildWith levels options nonce).Local (do
      let tx ← call.transaction levels options nonce
      let address ← call.contract.address
      let () ← .ok ()
      .ok tx) :=
    (local_ofExcept _).bind fun tx => (local_ofExcept _).bind fun address =>
      (local_log _).bind fun _ => local_pure tx
  cases htx : call.transaction levels options nonce with
  | error e =>
    rwa [htx] at hsteps
  | ok tx =>
    obtain ⟨-, -, address, -, -, -, -, -, haddress, -⟩ := exists_invoke_of_transaction htx
    rwa [htx, haddress] at hsteps

theorem local_build (levels : ℕ) (call : Call) (given : GivenOptions) (nonce : Value) :
    (call.build levels given nonce).Local
      (given.options >>= fun o => call.transaction levels o nonce) :=
  (local_ofExcept _).bind fun options => call.local_buildWith levels options nonce

/-- The text of a call: what building it returns, signed by the key of the options and laid out. -/
def prepared (levels : ℕ) (call : Call) (given : GivenOptions) (nonce : Value) :
    Except Failure String := do
  let tx ← (call.build levels given nonce).run.1
  let key ← given.options >>= Options.signingKey
  let signed ← (tx.sign key).mapError .field
  signed.text.mapError .field

theorem local_layout {α : Type} (r : Except FieldError α) :
    Local (layout r) (r.mapError .field) := local_ofExcept _

def sendingWork (levels : ℕ) (call : Call) (given : GivenOptions) (nonce : Value) :
    Except Failure Request := do
  let options ← given.options
  let tx ← call.transaction levels options nonce
  let key ← options.signingKey
  let tx ← (tx.sign key).mapError .field
  let _ ← tx.hash.mapError .field
  let () ← .ok ()
  let text ← tx.text.mapError .field
  .ok (.sendRawTransaction text false)

theorem submits_sendingWork {client : Option Client} {c : Client}
    (h : client.or call.contract.client = some c) :
    (call.send levels given client nonce).Submits (call.sendingWork levels given nonce) c := by
  refine (local_ofExcept _).submits fun options => ?_
  refine (call.local_buildWith levels options nonce).submits fun tx => ?_
  refine (local_ofExcept _).submits fun key => ?_
  refine (local_layout _).submits fun signed => ?_
  refine (local_layout _).submits fun hash => ?_
  refine (local_log _).submits fun _ => ?_
  refine (local_layout _).submits fun text => ?_
  rw [h]
  exact submits_ask c _

/-- A transaction that has been signed has a hash: what is hashed are the bytes that were signed. -/
theorem exists_hash_of_sign {tx signed : Transaction} {key : PrivateKey}
    (h : tx.sign key = .ok signed) : ∃ hash, signed.hash = .ok hash := by
  obtain ⟨head, hhead, rfl⟩ := Transaction.sign_eq_ok_iff.mp h
  exact ⟨_, Transaction.hash_eq_ok_iff.mpr ⟨head, hhead, rfl⟩⟩

theorem sendingWork_eq (levels : ℕ) (call : Call) (given : GivenOptions) (nonce : Value) :
    call.sendingWork levels given nonce =
      (call.prepared levels given nonce).map fun text => .sendRawTransaction text false := by
  have hbuild := (call.local_build levels given nonce).run
  rw [prepared, hbuild, sendingWork]
  cases given.options with
  | error e => rfl
  | ok options =>
    simp only [ok_bind]
    cases call.transaction levels options nonce with
    | error e => rfl
    | ok tx =>
      simp only [ok_bind]
      cases options.signingKey with
      | error e => rfl
      | ok key =>
        simp only [ok_bind]
        cases hsign : tx.sign key with
        | error e => rfl
        | ok signed =>
          obtain ⟨hash, hhash⟩ := exists_hash_of_sign hsign
          simp only [Except.mapError, ok_bind, hhash]
          cases signed.text <;> rfl

/-- The client that was given comes before that of the contract. -/
theorem client_eq {bound : Client} (h : call.contract.client = some bound)
    (client : Option Client) : client.or call.contract.client = some (client.getD bound) := by
  rw [h]
  cases client <;> rfl

/-- A call is sent once or not at all. What is sent is the text of the transaction that building the
call returns, signed by the given key, and it goes to the client that was given or else to the one
of the contract; the call then ends as that client answers. If there is no such text nobody is
asked. -/
theorem send_once_or_not {bound : Client} (h : call.contract.client = some bound)
    (client : Option Client) :
    match call.prepared levels given nonce with
    | .error e =>
      (call.send levels given client nonce).run.1 = .error e ∧
        (call.send levels given client nonce).run.2.requests = []
    | .ok text =>
      (call.send levels given client nonce).run.1 =
          (client.getD bound).answer (.sendRawTransaction text false) ∧
        (call.send levels given client nonce).run.2.requests =
          [((client.getD bound).name, .sendRawTransaction text false)] := by
  have hsubmits := @submits_sendingWork levels call given nonce _ _ (client_eq h client)
  obtain ⟨hresult, hrequests⟩ := hsubmits.run
  rw [sendingWork_eq] at hresult hrequests
  cases hprepared : call.prepared levels given nonce with
  | error e =>
    rw [hprepared] at hresult hrequests
    exact ⟨hresult, hrequests⟩
  | ok text =>
    rw [hprepared] at hresult hrequests
    exact ⟨hresult, hrequests⟩

/-- Once a call is built and has bytes to sign, it has a text. -/
theorem exists_prepared_eq_ok {tx : Transaction} {head : Bytes} {options : Options}
    {key : PrivateKey} (htx : (call.build levels given nonce).run.1 = .ok tx)
    (hhead : tx.unsigned = .ok head) (hoptions : given.options = .ok options)
    (hkey : options.signingKey = .ok key) :
    ∃ text, call.prepared levels given nonce = .ok text := by
  have hsign : tx.sign key = .ok _ := Transaction.sign_eq_ok_iff.mpr ⟨head, hhead, rfl⟩
  have hsigned := Transaction.signed_eq hhead (key.length_sign (Sha256.hashTwice head))
    key.length_publicKey_toBytes
  have htext : Transaction.text _ = .ok _ := map_eq_ok.mpr ⟨_, hsigned, rfl⟩
  have hchosen : given.options >>= Options.signingKey = .ok key :=
    bind_eq_ok.mpr ⟨options, hoptions, hkey⟩
  exact ⟨_, bind_eq_ok.mpr ⟨tx, htx, bind_eq_ok.mpr ⟨key, hchosen,
    bind_eq_ok.mpr ⟨_, mapError_eq_ok.mpr hsign, mapError_eq_ok.mpr htext⟩⟩⟩⟩

/-- A client that refuses, given where the contract is bound to one that accepts. -/
theorem send_once_or_not_override :
    let contract : Contract := ⟨
      ⟨"f1d7b2a1c3d4e5f60718293a4b5c6d7e8f901234",
        [⟨"transfer", [⟨"amount", "Integer", []⟩], []⟩], []⟩,
      some ⟨"own", fun _ => .ok .null⟩⟩
    let call : Call := ⟨contract, "transfer", [.int 7]⟩
    let given : GivenOptions := .checked ⟨none, .is (.ofNat 1), none, some (.text "30000")⟩
    let other : Client := ⟨"other", fun _ => .error (.misuse .infinity)⟩
    ∃ text, call.prepared 960 given (.int 5) = .ok text ∧
      (call.send 960 given (some other) (.int 5)).run.1 = .error (.misuse .infinity) ∧
      (call.send 960 given (some other) (.int 5)).run.2.requests =
        [("other", .sendRawTransaction text false)] := by
  intro contract call given other
  have hunsigned : ((call.build 960 given (.int 5)).run.1 >>= fun tx =>
      tx.unsigned.mapError .field).isOk := by decide +kernel
  obtain ⟨head, hhead⟩ := exists_eq_ok hunsigned
  obtain ⟨tx, htx, hhead⟩ := bind_eq_ok.mp hhead
  obtain ⟨text, htext⟩ := exists_prepared_eq_ok htx (mapError_eq_ok.mp hhead) rfl rfl
  have hclient : call.contract.client = some ⟨"own", fun _ => .ok .null⟩ := rfl
  have hsent := @send_once_or_not 960 call given (.int 5) _ hclient (some other)
  rw [htext] at hsent
  exact ⟨text, htext, hsent⟩

end Call

end Bindery
