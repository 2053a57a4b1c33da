import Bindery.Proofs.Building
import Bindery.Transaction.Handling

/-!
# Signatures along a history

What a transaction tells of its signing, whatever has been done with it and whatever of that has
failed. A history is a run of actions on one transaction. Only signing touches the endorsements, and
only after there is a hash to sign; so they are those of the last signing that succeeded, and as
long as no field is assigned they cover what is sent.
-/

namespace Bindery.Transaction

variable {tx other : Transaction}

/-- Transactions whose fields hold the same, whatever calls they carry and whoever signed them. -/
structure SameFields (tx other : Transaction) : Prop where
  version : tx.version = other.version
  type : tx.type = other.type
  nonce : tx.nonce = other.nonce
  gasPrice : tx.gasPrice = other.gasPrice
  gasLimit : tx.gasLimit = other.gasLimit
  payer : tx.payer = other.payer
  payload : tx.payload = other.payload
  attributes : tx.attributes = other.attributes

theorem SameFields.refl (tx : Transaction) : tx.SameFields tx :=
  ⟨rfl, rfl, rfl, rfl, rfl, rfl, rfl, rfl⟩

theorem SameFields.trans {third : Transaction} (h : tx.SameFields other)
    (h' : other.SameFields third) : tx.SameFields third where
  version := h.version.trans h'.version
  type := h.type.trans h'.type
  nonce := h.nonce.trans h'.nonce
  gasPrice := h.gasPrice.trans h'.gasPrice
  gasLimit := h.gasLimit.trans h'.gasLimit
  payer := h.payer.trans h'.payer
  payload := h.payload.trans h'.payload
  attributes := h.attributes.trans h'.attributes

theorem SameFields.unsigned_eq (h : tx.SameFields other) : tx.unsigned = other.unsigned := by
  simp only [unsigned, h.version, h.type, h.nonce, h.gasPrice, h.gasLimit, h.payer, h.payload,
    h.attributes]

theorem SameFields.hash_eq (h : tx.SameFields other) : tx.hash = other.hash := by
  rw [hash, hash, h.unsigned_eq]

theorem SameFields.text_eq (h : tx.SameFields other)
    (hendorsements : tx.endorsements = other.endorsements) : tx.text = other.text := by
  rw [text, text, signed, signed, h.unsigned_eq, hendorsements]

theorem sameFields_endorse (tx : Transaction) (key : PrivateKey) (h : Bytes) :
    tx.SameFields (tx.endorse key h) :=
  ⟨rfl, rfl, rfl, rfl, rfl, rfl, rfl, rfl⟩

theorem endorsements_assign (tx : Transaction) (a : Assignment) :
    (tx.assign a).endorsements = tx.endorsements := by
  cases a <;> rfl

namespace Handling

variable {α β : Type}

theorem run_bind (step : Handling α) (f : α → Handling β) (tx : Transaction) :
    (step >>= f).run tx =
      match step.run tx with
      | (.ok a, tx) => (f a).run tx
      | (.error e, tx) => (.error e, tx) := by
  have hrun : (step >>= f).run tx = ExceptT.bindCont f (step.run tx).1 (step.run tx).2 := rfl
  rw [hrun]
  cases step.run tx with
  | mk r tx => cases r <;> rfl

@[simp] theorem run_hash (tx : Transaction) : hash.run tx = (tx.hash, tx) := rfl

@[simp] theorem run_text (tx : Transaction) : text.run tx = (tx.text, tx) := rfl

/-- Without a hash there is nothing to sign, and nothing has been touched. -/
theorem run_sign (key : PrivateKey) (tx : Transaction) :
    (sign key).run tx =
      match tx.hash with
      | .ok h => (.ok (), tx.endorse key h)
      | .error e => (.error e, tx) := by
  rw [sign, run_bind, run_hash]
  cases tx.hash <;> rfl

end Handling

namespace Action

theorem run_serialize (tx : Transaction) :
    serialize.perform.run tx = (tx.text.map .text, tx) := by
  rw [perform, Handling.run_bind, Handling.run_text]
  cases tx.text <;> rfl

theorem run_hash (tx : Transaction) : hash.perform.run tx = (tx.hash.map .hash, tx) := by
  rw [perform, Handling.run_bind, Handling.run_hash]
  cases tx.hash <;> rfl

theorem run_assign (a : Assignment) (tx : Transaction) :
    (assign a).perform.run tx = (.ok .done, tx.assign a) := rfl

theorem run_sign (key : PrivateKey) (tx : Transaction) :
    (sign key).perform.run tx =
      match tx.hash with
      | .ok h => (.ok .done, tx.endorse key h)
      | .error e => (.error e, tx) := by
  rw [perform, Handling.run_bind, Handling.run_sign]
  cases tx.hash <;> rfl

/-- The signing that an action is, with the hash that it signs; none if it fails. -/
def signing? (tx : Transaction) : Action → Option (PrivateKey × Bytes)
  | .sign key => tx.hash.toOption.map fun h => (key, h)
  | _ => none

/-- One step: a signing that succeeds replaces the endorsements, anything else keeps them. -/
theorem endorsements_run (a : Action) (tx : Transaction) :
    (a.perform.run tx).2.endorsements =
      match a.signing? tx with
      | some (key, h) => [.over key h]
      | none => tx.endorsements := by
  cases a with
  | assign a =>
    rw [run_assign]
    exact endorsements_assign tx a
  | sign key =>
    rw [run_sign, signing?]
    cases tx.hash <;> rfl
  | serialize => rw [run_serialize]; rfl
  | hash => rw [run_hash]; rfl

def IsAssignment : Action → Prop
  | .assign _ => True
  | _ => False

theorem sameFields_run {a : Action} (ha : ¬ a.IsAssignment) (tx : Transaction) :
    tx.SameFields (a.perform.run tx).2 := by
  cases a with
  | assign a => exact absurd trivial ha
  | sign key =>
    rw [run_sign]
    cases tx.hash with
    | error e => exact .refl tx
    | ok h => exact sameFields_endorse tx key h
  | serialize => rw [run_serialize]; exact .refl tx
  | hash => rw [run_hash]; exact .refl tx

end Action

theorem after_append (tx : Transaction) (before rest : List Action) :
    tx.after (before ++ rest) = (tx.after before).after rest := by
  induction before generalizing tx with
  | nil => rfl
  | cons a before ih => exact ih _

def signings (tx : Transaction) : List Action → List (PrivateKey × Bytes)
  | [] => []
  | a :: rest => (a.signing? tx).toList ++ signings (a.perform.run tx).2 rest

/-- A whole history: the endorsements are those of its last signing that succeeds. -/
theorem endorsements_after (tx : Transaction) (history : List Action) :
    (tx.after history).endorsements =
      match (tx.signings history).getLast? with
      | some (key, h) => [.over key h]
      | none => tx.endorsements := by
  induction history generalizing tx with
  | nil => rfl
  | cons a rest ih =>
    rw [after, ih, signings, List.getLast?_append, Action.endorsements_run]
    cases ((a.perform.run tx).2.signings rest).getLast? with
    | some last => rfl
    | none => cases a.signing? tx <;> rfl

theorem sameFields_after {rest : List Action} (h : ∀ a ∈ rest, ¬ a.IsAssignment)
    (tx : Transaction) : tx.SameFields (tx.after rest) := by
  induction rest generalizing tx with
  | nil => exact .refl tx
  | cons a rest ih =>
    obtain ⟨ha, hrest⟩ := List.forall_mem_cons.mp h
    exact (Action.sameFields_run ha tx).trans (ih hrest _)

structure Truthful (start : Transaction) (history : List Action) : Prop where
  /-- Writing and hashing change nothing. -/
  serialize_keeps : (Action.serialize.perform.run (start.after history)).2 = start.after history
  hash_keeps : (Action.hash.perform.run (start.after history)).2 = start.after history
  /-- The fields alone make the hash, and with the endorsements the text. -/
  hash_result : ∀ other, (start.after history).SameFields other →
    (Action.hash.perform.run (start.after history)).1 = (Action.hash.perform.run other).1
  serialize_result : ∀ other, (start.after history).SameFields other →
    (start.after history).endorsements = other.endorsements →
      (Action.serialize.perform.run (start.after history)).1 =
        (Action.serialize.perform.run other).1
  /-- Signing changes the endorsements alone, and nothing if it fails. -/
  sign_keeps : ∀ key, ∃ endorsements, ((Action.sign key).perform.run (start.after history)).2 =
    { start.after history with endorsements := endorsements }
  sign_fails : ∀ key e, ((Action.sign key).perform.run (start.after history)).1 = .error e →
    ((Action.sign key).perform.run (start.after history)).2 = start.after history
  /-- There is no endorsement before a signing has succeeded, and then the one of the last. -/
  endorsements : (start.after history).endorsements =
    match (start.signings history).getLast? with
    | some (key, h) => [⟨key.publicKey.toBytes, 1, key.sign h⟩]
    | none => []
  /-- It covers the hash of the transaction until a field is assigned. -/
  covers : ∀ before key h since, history = before ++ .sign key :: since →
    (start.after before).hash = .ok h → (∀ a ∈ since, ¬ a.IsAssignment) →
      ((start.after before).endorse key h).signings since = [] →
        (start.after history).hash = .ok h ∧
          (start.after history).endorsements = [⟨key.publicKey.toBytes, 1, key.sign h⟩]

theorem covers_since {before since : List Action} {key : PrivateKey} {h : Bytes}
    (hhash : (tx.after before).hash = .ok h) (hsince : ∀ a ∈ since, ¬ a.IsAssignment)
    (hlast : ((tx.after before).endorse key h).signings since = []) :
    (tx.after (before ++ .sign key :: since)).hash = .ok h ∧
      (tx.after (before ++ .sign key :: since)).endorsements = [.over key h] := by
  have hsigned : ((Action.sign key).perform.run (tx.after before)).2 =
      (tx.after before).endorse key h := by
    rw [Action.run_sign, hhash]
  rw [after_append, after, hsigned]
  constructor
  · rw [← (sameFields_after hsince _).hash_eq, ← (sameFields_endorse _ key h).hash_eq, hhash]
  · rw [endorsements_after, hlast]
    rfl

/-- A transaction that has been built tells the truth about its signing after any history. -/
theorem truthful_after {levels : ℕ} {function : Text} {arguments : List Argument}
    {contract : Address}
    {gasPrice gasLimit nonce : Value} {payer : Option Address}
    (h : invoke levels function arguments contract gasPrice gasLimit payer nonce = .ok tx)
    (history : List Action) : tx.Truthful history where
  serialize_keeps := by rw [Action.run_serialize]
  hash_keeps := by rw [Action.run_hash]
  hash_result other hother := by rw [Action.run_hash, Action.run_hash, hother.hash_eq]
  serialize_result other hother hendorsements := by
    rw [Action.run_serialize, Action.run_serialize, hother.text_eq hendorsements]
  sign_keeps key := by
    rw [Action.run_sign]
    cases (tx.after history).hash with
    | error e => exact ⟨_, rfl⟩
    | ok h => exact ⟨_, rfl⟩
  sign_fails key e herror := by
    rw [Action.run_sign] at herror ⊢
    cases hhash : (tx.after history).hash with
    | error e => rfl
    | ok h => simp [hhash] at herror
  endorsements := by
    obtain ⟨_, _, _, -, -, -, -, rfl⟩ := invoke_eq_ok h
    exact endorsements_after _ history
  covers before key hash since hhistory hhash hsince hlast := by
    subst hhistory
    exact covers_since hhash hsince hlast

/-- A signing that fails between two that succeed: the nonce is out of range, then no number. -/
def mendedHistory : List Action :=
  [ .sign (.ofNat 1), .assign (.nonce (.int (-1))), .sign (.ofNat 2), .hash, .serialize,
    .assign (.nonce (.text "9")), .sign (.ofNat 3), .assign (.nonce (.int 9)),
    .assign (.payload (.bytes (List.replicate 300 0))), .sign (.ofNat 2), .serialize, .hash ]

theorem truthful_after_mended :
    ∃ tx, invoke 960 "Do" [] Address.zero (.int 500) (.int 20000) none (.int 1) = .ok tx ∧
      (tx.signings mendedHistory).map Prod.fst = [.ofNat 1, .ofNat 2] ∧
      tx.Truthful mendedHistory := by
  let built := invoke 960 "Do" [] Address.zero (.int 500) (.int 20000) none (.int 1)
  have hbuilt : built.isOk := by decide +kernel
  have hkeys : (built.toOption.map fun tx => (tx.signings mendedHistory).map Prod.fst) =
      some [.ofNat 1, .ofNat 2] := by decide +kernel
  obtain ⟨tx, htx⟩ := exists_eq_ok hbuilt
  rw [htx] at hkeys
  exact ⟨tx, htx, Option.some.inj hkeys, truthful_after htx mendedHistory⟩

end Bindery.Transaction
