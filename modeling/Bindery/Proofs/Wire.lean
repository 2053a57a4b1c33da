import Bindery.Proofs.Building
import Bindery.Proofs.CurveGroup
import Bindery.Proofs.HexText

/-!
# The wire format

A reader of signed invocations: fields of fixed width with the least significant byte first, counts
of one, three, five or nine bytes, and the two scripts of a signature behind their counts. It does
not refer to the way in which transactions are written.

`Reads r b a` says that `r` takes just the bytes `b` from the front of whatever they stand before
and makes `a` of them; it follows the reader from field to field. `signed_text_reads_back` says that
what is sent for an invocation reads back as what went in, so that no two invocations are written
alike.
-/

namespace Bindery.Wire

abbrev Reader := StateT Bytes Option

def take (n : Nat) : Reader Bytes := fun b =>
  if n ≤ b.length then some (b.take n, b.drop n) else none

def number (width : Nat) : Reader Nat := do return Bytes.toNatLittle (← take width)

def expect (b : UInt8) : Reader Unit := do guard ((← take 1) = [b])

/-- The count that a first byte is, or that follows it as a marker of its width. -/
def countFrom : Nat → Reader Nat
  | 0xfd => number 2
  | 0xfe => number 4
  | 0xff => number 8
  | n => return n

def count : Reader Nat := do countFrom (← number 1)

def counted : Reader Bytes := do take (← count)

def whole {α : Type} (r : Reader α) (b : Bytes) : Option α :=
  match r.run b with
  | some (a, []) => some a
  | _ => none

def within {α : Type} (r : Reader α) : Reader α := do StateT.lift (whole r (← counted))

structure Invocation where
  version : Nat
  nonce : Nat
  gasPrice : Nat
  gasLimit : Nat
  payer : Bytes
  payload : Bytes
  deriving DecidableEq

structure SignedInvocation where
  invocation : Invocation
  signature : Bytes
  publicKey : Bytes
  deriving DecidableEq

def invocation : Reader Invocation := do
  let version ← number 1
  expect 0xd1
  let nonce ← number 4
  let gasPrice ← number 8
  let gasLimit ← number 8
  let payer ← take 20
  let payload ← counted
  expect 0x00
  return ⟨version, nonce, gasPrice, gasLimit, payer, payload⟩

def signatureScript : Reader Bytes := do
  expect 0x40
  take 64

def keyScript : Reader Bytes := do
  expect 0x21
  let key ← take 33
  expect 0xac
  return key

def signedInvocation : Reader SignedInvocation := do
  let invocation ← invocation
  expect 0x01
  let signature ← within signatureScript
  let publicKey ← within keyScript
  return ⟨invocation, signature, publicKey⟩

/-- The reader takes just these bytes and makes `a` of them, whatever follows. -/
def Reads {α : Type} (r : Reader α) (b : Bytes) (a : α) : Prop :=
  ∀ rest, r.run (b ++ rest) = some (a, rest)

section

variable {α β : Type}

theorem Reads.pure (a : α) : Reads (Pure.pure a) [] a := fun _ => rfl

theorem Reads.bind {r : Reader α} {f : α → Reader β} {b c : Bytes} {a : α} {x : β}
    (hr : Reads r b a) (hf : Reads (f a) c x) : Reads (r >>= f) (b ++ c) x := by
  intro rest
  rw [StateT.run_bind, List.append_assoc, hr]
  exact hf rest

/-- The last step of a reader, which takes nothing more. -/
theorem Reads.map {r : Reader α} {f : α → β} {b : Bytes} {a : α} (hr : Reads r b a) :
    Reads (do return f (← r)) b (f a) := by
  have h := hr.bind (f := fun a => Pure.pure (f a)) (Reads.pure (f a))
  rwa [List.append_nil] at h

theorem Reads.whole_eq {r : Reader α} {b : Bytes} {a : α} (h : Reads r b a) :
    whole r b = some a := by
  have hrun := h []
  rw [List.append_nil] at hrun
  rw [whole, hrun]

/-- Bytes that two runs of one reader agree on were written for one value. -/
theorem Reads.unique {r : Reader α} {b : Bytes} {a a' : α} (h : Reads r b a) (h' : Reads r b a') :
    a = a' :=
  Option.some.inj (h.whole_eq.symm.trans h'.whole_eq)

end

theorem reads_take {n : Nat} {b : Bytes} (h : b.length = n) : Reads (take n) b b := by
  intro rest
  subst h
  change (if b.length ≤ (b ++ rest).length then _ else _) = _
  rw [if_pos (by simp), List.take_left, List.drop_left]

theorem reads_number {width n : Nat} (h : n < 256 ^ width) :
    Reads (number width) (Bytes.littleEndian width n) n := by
  have hread := (reads_take (Bytes.length_littleEndian width n)).map (f := Bytes.toNatLittle)
  have hvalue : Bytes.toNatLittle (Bytes.littleEndian width n) = n :=
    (Bytes.toNatLittle_littleEndian width n).trans (Nat.mod_eq_of_lt h)
  rwa [hvalue] at hread

theorem reads_byte {n : Nat} (h : n < 256) : Reads (number 1) [UInt8.ofNat n] n :=
  @reads_number 1 n h

theorem reads_guard {p : Prop} [Decidable p] (h : p) : Reads (guard p) [] () := by
  rw [guard, if_pos h]
  exact Reads.pure ()

theorem reads_expect (b : UInt8) : Reads (expect b) [b] () :=
  (reads_take rfl).bind (b := [b]) (c := []) (f := fun first => guard (first = [b]))
    (reads_guard rfl)

theorem countFrom_of_lt {n : Nat} (h : n < 0xfd) : countFrom n = pure n := by
  unfold countFrom
  split
  · omega
  · omega
  · omega
  · rfl

theorem reads_count {n : Nat} {b : Bytes} (h : Transaction.count n = .ok b) : Reads count b n := by
  unfold Transaction.count at h
  split_ifs at h with hone htwo hfour height
  · cases h
    have hrest : Reads (countFrom n) [] n := countFrom_of_lt hone ▸ Reads.pure n
    exact (reads_byte (hone.trans (by decide))).bind hrest
  · cases h
    exact (reads_byte (n := 0xfd) (by decide)).bind (f := countFrom) (reads_number htwo)
  · cases h
    exact (reads_byte (n := 0xfe) (by decide)).bind (f := countFrom) (reads_number hfour)
  · cases h
    exact (reads_byte (n := 0xff) (by decide)).bind (f := countFrom) (reads_number height)

theorem reads_counted {b c : Bytes} (h : Transaction.counted b = .ok c) : Reads counted c b := by
  obtain ⟨prefixed, hcount, rfl⟩ := map_eq_ok.mp h
  exact (reads_count hcount).bind (reads_take rfl)

theorem reads_within {α : Type} {r : Reader α} {b c : Bytes} {a : α}
    (h : Transaction.counted b = .ok c) (hr : Reads r b a) : Reads (within r) c a := by
  have hlift : Reads (StateT.lift (whole r b)) [] a := by
    rw [hr.whole_eq]
    exact Reads.pure a
  have hread := (reads_counted h).bind (f := fun inner => StateT.lift (whole r inner)) hlift
  rwa [List.append_nil] at hread

end Bindery.Wire

namespace Bindery.Transaction

structure Carries (tx : Transaction) (i : Wire.Invocation) : Prop where
  version : tx.version = .int i.version
  nonce : tx.nonce = .int i.nonce
  gasPrice : tx.gasPrice = .int i.gasPrice
  gasLimit : tx.gasLimit = .int i.gasLimit
  payer : tx.payer = .bytes i.payer
  payload : tx.payload = .bytes i.payload

def IsBuilt (tx : Transaction) : Prop :=
  ∃ levels function arguments contract gasPrice gasLimit payer, ∃ nonce : Nat, nonce < 2 ^ 32 ∧
    invoke levels function arguments contract gasPrice gasLimit payer (.int nonce) = .ok tx

structure Fits (tx : Transaction) (i : Wire.Invocation) : Prop extends tx.Carries i where
  type : tx.type = .int invokeType
  attributes : tx.attributes = .bytes []
  version_lt : i.version < 256
  nonce_lt : i.nonce < 256 ^ 4
  gasPrice_lt : i.gasPrice < 256 ^ 8
  gasLimit_lt : i.gasLimit < 256 ^ 8
  payer_length : i.payer.length = 20
  payload_ne : i.payload ≠ []

theorem IsBuilt.exists_fits {tx : Transaction} (h : tx.IsBuilt) : ∃ i, tx.Fits i := by
  obtain ⟨levels, function, arguments, contract, gasPrice, gasLimit, payer, nonce, hnonce, h⟩ := h
  obtain ⟨data, price, limit, -, hprice, hlimit, -, rfl⟩ := invoke_eq_ok h
  obtain ⟨hprice0, hprice64⟩ := gasNumber_eq_ok hprice
  obtain ⟨hlimit0, hlimit64⟩ := gasNumber_eq_ok hlimit
  refine ⟨⟨0, nonce, price.toNat, limit.toNat, (payer.getD Address.zero).bytes,
    Script.call function data contract⟩, ?_⟩
  exact {
    version := rfl
    nonce := rfl
    gasPrice := congrArg Value.int (Int.toNat_of_nonneg hprice0).symm
    gasLimit := congrArg Value.int (Int.toNat_of_nonneg hlimit0).symm
    payer := rfl
    payload := rfl
    type := rfl
    attributes := rfl
    version_lt := Nat.zero_lt_succ _
    nonce_lt := hnonce
    gasPrice_lt := by change price.toNat < 2 ^ 64; omega
    gasLimit_lt := by change limit.toNat < 2 ^ 64; omega
    payer_length := (payer.getD Address.zero).size
    payload_ne := by simp [Script.call] }

theorem byteField_int {n : Nat} (h : n < 256) : byteField (.int n) = .ok [UInt8.ofNat n] := by
  simp only [byteField, Value.number?]
  rw [if_neg (by omega), if_neg (by omega), Int.toNat_natCast]

theorem wordField_int {n : Nat} (h : n < 256 ^ 4) :
    wordField (.int n) = .ok (Bytes.littleEndian 4 n) := by
  simp only [wordField, Value.number?]
  rw [if_neg (by omega), if_neg (by omega), Int.toNat_natCast]

theorem longField_int {n : Nat} (h : n < 256 ^ 8) :
    longField (.int n) = .ok (Bytes.littleEndian 8 n) := by
  simp only [longField, Value.number?]
  rw [if_neg (by omega), Int.toNat_natCast]

theorem counted_eq_ok_iff {b : Bytes} : (∃ c, counted b = .ok c) ↔ b.length < 2 ^ 64 := by
  unfold counted count
  split_ifs <;> simp [Except.map] <;> omega

section

variable {tx : Transaction} {i : Wire.Invocation}

/-- The layout of the part that is signed; only a payload that is too long for its count is
refused. -/
theorem Fits.unsigned_eq (h : tx.Fits i) :
    tx.unsigned = (counted i.payload).map fun payload =>
      [UInt8.ofNat i.version] ++ ([0xd1] ++ (Bytes.littleEndian 4 i.nonce
        ++ (Bytes.littleEndian 8 i.gasPrice ++ (Bytes.littleEndian 8 i.gasLimit
        ++ (i.payer ++ (payload ++ [0])))))) := by
  have hempty : i.payload.isEmpty = false := by simpa using h.payload_ne
  have hpayload : payloadField i.payload = counted i.payload := by
    rw [payloadField, hempty, if_neg Bool.false_ne_true]
  rw [unsigned, h.version, h.type, h.nonce, h.gasPrice, h.gasLimit, h.payer, h.payload,
    h.attributes, byteField_int h.version_lt, byteField_int (by decide), wordField_int h.nonce_lt,
    longField_int h.gasPrice_lt, longField_int h.gasLimit_lt, Content.written, Content.written,
    Content.written, hpayload]
  cases counted i.payload with
  | error e => rfl
  | ok payload =>
    refine congrArg Except.ok ?_
    simp only [List.append_assoc]
    rfl

theorem Fits.unsigned_eq_ok_iff (h : tx.Fits i) :
    (∃ head, tx.unsigned = .ok head) ↔ i.payload.length < 2 ^ 64 := by
  rw [← counted_eq_ok_iff, h.unsigned_eq]
  cases counted i.payload <;> simp [Except.map]

theorem Fits.reads_unsigned (h : tx.Fits i) {head : Bytes} (hhead : tx.unsigned = .ok head) :
    Wire.Reads Wire.invocation head i := by
  rw [h.unsigned_eq] at hhead
  obtain ⟨payload, hpayload, rfl⟩ := map_eq_ok.mp hhead
  exact (Wire.reads_byte h.version_lt).bind <| (Wire.reads_expect 0xd1).bind <|
    (Wire.reads_number h.nonce_lt).bind <| (Wire.reads_number h.gasPrice_lt).bind <|
    (Wire.reads_number h.gasLimit_lt).bind <| (Wire.reads_take h.payer_length).bind <|
    (Wire.reads_counted hpayload).bind <| (Wire.reads_expect 0).map

theorem counted_of_length {b : Bytes} {n : Nat} (h : b.length = n) (hn : n < 0xfd) :
    counted b = .ok ([UInt8.ofNat n] ++ b) := by
  rw [counted, h, count, if_pos hn]
  rfl

theorem pushBytes_of_length {b : Bytes} {n : Nat} (h : b.length = n) (hn : n < 75) :
    Script.pushBytes b = [UInt8.ofNat n] ++ b := by
  rw [Script.pushBytes, h, Script.pushPrefix, if_pos hn]

theorem counted_signatureScript {signature : Bytes} (h : signature.length = 64) :
    counted (0x40 :: signature) = .ok (0x41 :: 0x40 :: signature) :=
  counted_of_length (by simp [h]) (by decide)

theorem counted_keyScript {publicKey : Bytes} (h : publicKey.length = 33) :
    counted (0x21 :: publicKey ++ [0xac]) = .ok (0x23 :: 0x21 :: publicKey ++ [0xac]) :=
  counted_of_length (by simp [h]) (by decide)

/-- A transaction with one signature of 64 bytes by a key of 33 bytes. -/
theorem signed_eq {head publicKey signature : Bytes} (hhead : tx.unsigned = .ok head)
    (hsignature : signature.length = 64) (hkey : publicKey.length = 33) :
    ({ tx with endorsements := [⟨publicKey, 1, signature⟩] } : Transaction).signed =
      .ok (head ++ 0x01 :: 0x41 :: 0x40 :: signature ++ 0x23 :: 0x21 :: publicKey ++ [0xac]) := by
  have hlayout : Endorsement.layout ⟨publicKey, 1, signature⟩ =
      .ok ((0x41 :: 0x40 :: signature) ++ (0x23 :: 0x21 :: publicKey ++ [0xac])) := by
    rw [Endorsement.layout, pushBytes_of_length hsignature (by decide),
      pushBytes_of_length hkey (by decide)]
    exact bind_eq_ok.mpr ⟨_, counted_signatureScript hsignature,
      bind_eq_ok.mpr ⟨_, counted_keyScript hkey, rfl⟩⟩
  refine bind_eq_ok.mpr ⟨head, hhead, bind_eq_ok.mpr ⟨[0x01], rfl, ?_⟩⟩
  simp [hlayout, pure, Except.pure, bind, Except.bind]

theorem Fits.reads_signed (h : tx.Fits i) {head publicKey signature : Bytes}
    (hhead : tx.unsigned = .ok head) (hsignature : signature.length = 64)
    (hkey : publicKey.length = 33) :
    Wire.Reads Wire.signedInvocation
      (head ++ 0x01 :: 0x41 :: 0x40 :: signature ++ 0x23 :: 0x21 :: publicKey ++ [0xac])
      ⟨i, signature, publicKey⟩ := by
  have hfirst : Wire.Reads Wire.signatureScript (0x40 :: signature) signature :=
    (Wire.reads_expect 0x40).bind (Wire.reads_take hsignature)
  have hsecond : Wire.Reads Wire.keyScript (0x21 :: publicKey ++ [0xac]) publicKey :=
    (Wire.reads_expect 0x21).bind <| (Wire.reads_take hkey).bind <| (Wire.reads_expect 0xac).map
  have hread : Wire.Reads Wire.signedInvocation (head ++ ([0x01] ++
      ((0x41 :: 0x40 :: signature) ++ (0x23 :: 0x21 :: publicKey ++ [0xac]))))
      ⟨i, signature, publicKey⟩ :=
    (h.reads_unsigned hhead).bind <| (Wire.reads_expect 0x01).bind <|
    (Wire.reads_within (counted_signatureScript hsignature) hfirst).bind <|
    (Wire.reads_within (counted_keyScript hkey) hsecond).map
  simpa using hread

theorem Carries.unique {i' : Wire.Invocation} (h : tx.Carries i) (h' : tx.Carries i') :
    i = i' := by
  obtain ⟨version, nonce, gasPrice, gasLimit, payer, payload⟩ := i
  obtain ⟨version', nonce', gasPrice', gasLimit', payer', payload'⟩ := i'
  have hversion := h.version.symm.trans h'.version
  have hnonce := h.nonce.symm.trans h'.nonce
  have hprice := h.gasPrice.symm.trans h'.gasPrice
  have hlimit := h.gasLimit.symm.trans h'.gasLimit
  have hpayer := h.payer.symm.trans h'.payer
  have hpayload := h.payload.symm.trans h'.payload
  simp only [Value.int.injEq, Int.natCast_inj] at hversion hnonce hprice hlimit
  simp only [Content.bytes.injEq] at hpayer hpayload
  rw [Wire.Invocation.mk.injEq]
  exact ⟨hversion, hnonce, hprice, hlimit, hpayer, hpayload⟩

/-- What is sent for an invocation is the unsigned bytes, the count of one signature, and the
signature and the key in their scripts. It reads back as what went in, with nothing left over, and
invocations that carry something different have different unsigned bytes. Signing succeeds unless
the payload is longer than the widest count can say. -/
theorem signed_text_reads_back (h : tx.IsBuilt) (key : PrivateKey) :
    ∃ i, tx.Carries i ∧
      ((∃ signed, tx.sign key = .ok signed) ↔ i.payload.length < 2 ^ 64) ∧
      (∀ signed, tx.sign key = .ok signed → ∃ head signature text,
        tx.unsigned = .ok head ∧
        signature = key.sign (Sha256.hashTwice head) ∧
        signature.length = 64 ∧ key.publicKey.toBytes.length = 33 ∧
        text = Hex.encode (head ++ 0x01 :: 0x41 :: 0x40 :: signature
          ++ 0x23 :: 0x21 :: key.publicKey.toBytes ++ [0xac]) ∧
        signed.text = .ok text ∧
        (Hex.decode? text).bind (Wire.whole Wire.signedInvocation) =
          some ⟨i, signature, key.publicKey.toBytes⟩) ∧
      ∀ other j, IsBuilt other → other.Carries j → i ≠ j →
        ∀ head, tx.unsigned = .ok head → other.unsigned ≠ .ok head := by
  obtain ⟨i, hi⟩ := h.exists_fits
  have hsignature (m : Bytes) : (key.sign m).length = 64 := key.length_sign m
  have hkey : key.publicKey.toBytes.length = 33 := key.length_publicKey_toBytes
  refine ⟨i, hi.toCarries, ?_, ?_, ?_⟩
  · rw [← hi.unsigned_eq_ok_iff]
    constructor
    · rintro ⟨signed, hsigned⟩
      obtain ⟨head, hhead, -⟩ := sign_eq_ok_iff.mp hsigned
      exact ⟨head, hhead⟩
    · rintro ⟨head, hhead⟩
      exact ⟨_, sign_eq_ok_iff.mpr ⟨head, hhead, rfl⟩⟩
  · intro signed hsigned
    obtain ⟨head, hhead, rfl⟩ := sign_eq_ok_iff.mp hsigned
    refine ⟨head, _, _, hhead, rfl, hsignature _, hkey, rfl, ?_, ?_⟩
    · exact map_eq_ok.mpr ⟨_, signed_eq hhead (hsignature _) hkey, rfl⟩
    · rw [Hex.decode?_encode, Option.bind_some]
      exact (hi.reads_signed hhead (hsignature _) hkey).whole_eq
  · intro other j hother hj hne head hhead hsame
    obtain ⟨j', hj'⟩ := hother.exists_fits
    obtain rfl := hj.unique hj'.toCarries
    exact hne ((hi.reads_unsigned hhead).unique (hj'.reads_unsigned hsame))

end

/-- An argument that makes a payload of more than 252 bytes, whose count takes three. -/
def longArgument : Argument := ⟨"data", .other, .blob .fixed (List.replicate 300 0xfd)⟩

theorem signed_text_reads_back_long :
    ∃ tx, invoke 960 "Do" [longArgument] Address.zero (.int 500)
        (.int 0xffffffffffffffff) none (.int 0xffffffff) = .ok tx ∧
      ∃ i, tx.Carries i ∧
        ((∃ signed, tx.sign (.ofNat 1) = .ok signed) ↔ i.payload.length < 2 ^ 64) ∧
        (∀ signed, tx.sign (.ofNat 1) = .ok signed → ∃ head signature text,
          tx.unsigned = .ok head ∧
          signature = (PrivateKey.ofNat 1).sign (Sha256.hashTwice head) ∧
          signature.length = 64 ∧ (PrivateKey.ofNat 1).publicKey.toBytes.length = 33 ∧
          text = Hex.encode (head ++ 0x01 :: 0x41 :: 0x40 :: signature
            ++ 0x23 :: 0x21 :: (PrivateKey.ofNat 1).publicKey.toBytes ++ [0xac]) ∧
          signed.text = .ok text ∧
          (Hex.decode? text).bind (Wire.whole Wire.signedInvocation) =
            some ⟨i, signature, (PrivateKey.ofNat 1).publicKey.toBytes⟩) ∧
        ∀ other j, IsBuilt other → other.Carries j → i ≠ j →
          ∀ head, tx.unsigned = .ok head → other.unsigned ≠ .ok head := by
  have hbuilt : (invoke 960 "Do" [longArgument] Address.zero (.int 500)
      (.int 0xffffffffffffffff) none (.int 0xffffffff)).isOk := by decide +kernel
  obtain ⟨tx, htx⟩ := exists_eq_ok hbuilt
  exact ⟨tx, htx, signed_text_reads_back ⟨_, _, _, _, _, _, _, 0xffffffff, by decide, htx⟩ _⟩

end Bindery.Transaction
