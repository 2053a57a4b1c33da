import Bindery.Proofs.AddressText
import Bindery.Proofs.Submission

/-!
# Byte arrays in every spelling

A byte array is given by its bytes or by hexadecimal digits. `Hex.TextOf` says which texts are the
digits of some bytes: pairs of digits in either case with blanks around them, behind a marker or
none. Whichever spelling is used, the payload of the call is the one in which the bytes themselves
are pushed; a text that spells no bytes is refused.
-/

namespace Bindery

namespace Hex

/-- The digits of some bytes, a pair for each, with blanks before, between and after the pairs. -/
inductive Spaced : Bytes → List Char → Prop
  | nil : Spaced [] []
  | blank {b : Bytes} {c : Char} {cs : List Char} (hc : isBlank c) (h : Spaced b cs) :
      Spaced b (c :: cs)
  | byte {b : Bytes} {x : UInt8} {c d : Char} {cs : List Char}
      (hx : [c.toLower, d.toLower] = digitsOf x) (h : Spaced b cs) : Spaced (x :: b) (c :: d :: cs)

/-- The texts that give some bytes; only the very start of a text is a place for a marker. -/
inductive TextOf (b : Bytes) (s : String) : Prop
  | bare (h : Spaced b s.toList)
  | marked {x : Char} {cs : List Char} (hx : x = 'x' ∨ x = 'X') (hs : s.toList = '0' :: x :: cs)
      (h : Spaced b cs)

theorem digitValue?_of_toLower {c : Char} {n : Nat} (hn : n < 16) (h : c.toLower = digit n) :
    digitValue? c = some n := by
  rw [← digitValue?_toLower, h, digitValue?_digit hn]

theorem isBlank_of_toLower {c : Char} {n : Nat} (hn : n < 16) (h : c.toLower = digit n) :
    isBlank c = false := by
  rw [← isBlank_toLower, h, isBlank_digit hn]

theorem readPairs_blank {c : Char} (hc : isBlank c) (cs : List Char) :
    readPairs (c :: cs) = readPairs cs := by
  cases cs with
  | nil => simp [readPairs, hc]
  | cons d cs => simp [readPairs, hc]

theorem readPairs_eq_some_iff {cs : List Char} {b : Bytes} :
    readPairs cs = some b ↔ Spaced b cs := by
  constructor
  · intro h
    induction cs using readPairs.induct generalizing b with
    | case1 =>
      cases h
      exact .nil
    | case2 c hc =>
      rw [readPairs_blank hc] at h
      cases h
      exact .blank hc .nil
    | case3 c hc =>
      rw [readPairs, if_neg hc] at h
      cases h
    | case4 c d rest hc ih =>
      rw [readPairs_blank hc] at h
      exact .blank hc (ih h)
    | case5 c d rest hc ih =>
      rw [readPairs, if_neg hc] at h
      simp only [Option.bind_eq_bind, Option.bind_eq_some_iff, Option.pure_def, Option.some.injEq]
        at h
      obtain ⟨high, hhigh, low, hlow, tail, htail, rfl⟩ := h
      obtain ⟨hhigh, hc⟩ := toLower_of_digitValue? hhigh
      obtain ⟨hlow, hd⟩ := toLower_of_digitValue? hlow
      exact .byte (by rw [hc, hd, digitsOf_ofNat hhigh hlow]) (ih htail)
  · intro h
    induction h with
    | nil => rfl
    | blank hc _ ih => rw [readPairs_blank hc, ih]
    | @byte b x c d cs hx _ ih =>
      obtain ⟨hc, hd⟩ : c.toLower = digit (x.toNat / 16) ∧ d.toLower = digit (x.toNat % 16) := by
        simpa [digitsOf] using hx
      have hbyte := x.toNat_lt
      have hhigh : x.toNat / 16 < 16 := by omega
      have hlow : x.toNat % 16 < 16 := by omega
      have hvalue : UInt8.ofNat (16 * (x.toNat / 16) + x.toNat % 16) = x := by
        rw [Nat.div_add_mod, UInt8.ofNat_toNat]
      rw [readPairs, if_neg (by simp [isBlank_of_toLower hhigh hc]),
        digitValue?_of_toLower hhigh hc, digitValue?_of_toLower hlow hd, ih]
      simp only [Option.bind_eq_bind, Option.bind_some, hvalue]
      rfl

/-- A text is read as some bytes just when it is a text of them. -/
theorem decode?_eq_some_iff {s : String} {b : Bytes} : decode? s = some b ↔ TextOf b s := by
  constructor
  · intro h
    have hread := readPairs_eq_some_iff.mp h
    rcases dropMarkerChars_cases s.toList with hsame | ⟨x, hx, hs⟩
    · rw [hsame] at hread
      exact .bare hread
    · exact .marked hx hs hread
  · rintro (h | ⟨hx, hs, h⟩)
    · rcases dropMarkerChars_cases s.toList with hsame | ⟨x, hx, hs⟩
      · rw [decode?, hsame, readPairs_eq_some_iff.mpr h]
      · -- A marker is no pair of digits, so that the text would spell nothing.
        have hread := readPairs_eq_some_iff.mpr h
        rw [hs] at hread
        rcases hx with rfl | rfl
        · simp [readPairs, isBlank, digitValue?] at hread
        · simp [readPairs, isBlank, digitValue?] at hread
    · rw [decode?, hs]
      rcases hx with rfl | rfl
      · exact readPairs_eq_some_iff.mpr h
      · exact readPairs_eq_some_iff.mpr h

end Hex

namespace ByteArray

inductive Spells (b : Bytes) : Value → Prop
  | blob (form : BlobForm) : Spells b (.blob form b)
  | raw (form : BlobForm) : Spells b (.tagged rawTag (.blob form b))
  | text {v : Value} {s : String} (hv : v.text? = some (.whole s)) (h : Hex.TextOf b s) :
    Spells b v

def textOf (v : Value) : Except Failure Value := do
  let (tag, content) ← tag v
  hexText tag content

theorem textOf_of_text {v : Value} {t : Text} (hv : v.text? = some t) : textOf v = .ok v := by
  cases v <;> cases hv <;> rfl

/-- Every spelling becomes a text that is read as the bytes. -/
theorem Spells.exists_textOf {b : Bytes} {v : Value} (h : Spells b v) :
    ∃ w, textOf v = .ok w ∧ w.text?.isSome ∧ hexBytes w = .ok b := by
  have hencode : hexBytes (.text (Hex.encode b)) = .ok b :=
    Address.hexBytes_text_eq_ok_iff.mpr ⟨_, rfl, Hex.decode?_encode b⟩
  cases h with
  | blob form => exact ⟨_, rfl, rfl, hencode⟩
  | raw form => exact ⟨_, rfl, rfl, hencode⟩
  | @text v s hv h =>
    refine ⟨v, textOf_of_text hv, by rw [hv]; rfl, ?_⟩
    exact hexBytes_eq_ok_iff.mpr ⟨s, hv, Hex.decode?_eq_some_iff.mpr h⟩

end ByteArray

namespace Call

/-- Calls of one function of the same contract that differ in one argument and in the parameter that
it is for. -/
inductive Apart (p q : Abi.Parameter) (v w : Value) : Call → Call → Prop
  | mk {c d : Contract} {name : Text} {f g : Abi.Function} {before after : List Abi.Parameter}
      {xs ys : List Value} (hhash : c.codeHash = d.codeHash)
      (hf : c.abi.function? name = some f) (hg : d.abi.function? name = some g)
      (hp : f.parameters = before ++ p :: after) (hq : g.parameters = before ++ q :: after)
      (hplace : xs.length = before.length) :
      Apart p q v w ⟨c, name, xs ++ v :: ys⟩ ⟨d, name, xs ++ w :: ys⟩

/-- What is done with the arguments of a call once they are typed. -/
def finish (levels : ℕ) (contract : Contract) (function : Text) (o : Options) (nonce : Value)
    (arguments : List Argument) : Except Failure Transaction := do
  let price ← Options.gasText .price o.gasPrice
  let limit ← Options.gasText .limit o.gasLimit
  let payer ← o.payerAddress
  let address ← contract.address
  Transaction.invoke levels function arguments address (.text price) (.text limit) payer nonce

theorem transaction_eq_finish (levels : ℕ) (call : Call) (o : Options) (nonce : Value) :
    call.transaction levels o nonce = (do
      let f ← call.resolve
      let arguments ← call.arguments? f
      finish levels call.contract f.name o nonce arguments) := rfl

theorem argument_byteArray {p : Abi.Parameter} (hp : p.kind = .byteArray) {v w : Value}
    (hw : ByteArray.textOf v = .ok w) : argument p v = .ok ⟨p.name, .byteArray, w⟩ := by
  obtain ⟨⟨tag, content⟩, htag, hhex⟩ := bind_eq_ok.mp hw
  simp only [argument, hp, if_true, htag, ok_bind, hhex]
  rfl

theorem argument_other {p : Abi.Parameter} (hp : p.kind = .other) (v : Value) :
    argument p v = .ok ⟨p.name, .other, v⟩ := by
  simp only [argument, hp]
  rfl

theorem datum_byteArray {levels : ℕ} {name : Text} {w : Value} (hw : w.text?.isSome) :
    Argument.datum levels ⟨name, .byteArray, w⟩ = (hexBytes w).map .bytes := by
  obtain ⟨s, hs⟩ := Option.isSome_iff_exists.mp hw
  simp only [Argument.datum, hs]

section Apart

variable {levels : ℕ} {p q : Abi.Parameter} {v w : Value} {call other : Call}
  {given : GivenOptions} {o : Options} {nonce : Value} {a b : Argument}

/-- The two calls are checked alike up to the argument in which they differ. -/
theorem Apart.transaction (h : Apart p q v w call other) (ha : argument p v = .ok a)
    (hb : argument q w = .ok b) :
    (∃ e, call.transaction levels o nonce = .error e ∧
        other.transaction levels o nonce = .error e) ∨
      ∃ contract name before after,
        call.transaction levels o nonce =
            finish levels contract name o nonce (before ++ a :: after) ∧
          other.transaction levels o nonce =
            finish levels contract name o nonce (before ++ b :: after) := by
  cases h with
  | @mk c d name f g before after xs ys hhash hf hg hp hq hplace =>
    have hfname : f.name = name := by simpa using List.find?_some hf
    have hgname : g.name = name := by simpa using List.find?_some hg
    have hfinish : finish levels d = finish levels c := by
      have haddress : d.address = c.address := by rw [Contract.address, Contract.address, hhash]
      funext function o nonce arguments
      simp only [finish, haddress]
    simp only [transaction_eq_finish, resolve, hf, hg, ok_bind, hfname, hgname, hfinish]
    have hcount : f.parameters.length = g.parameters.length := by simp [hp, hq]
    simp only [arguments?, hfname, hgname, hcount, List.length_append, List.length_cons]
    by_cases hlength : xs.length + (ys.length + 1) = g.parameters.length
    · rw [if_pos hlength, if_pos hlength, hp, hq, List.zip_append hplace.symm,
        List.zip_append hplace.symm, List.zip_cons_cons, List.zip_cons_cons, mapM_append_cons,
        mapM_append_cons]
      simp only [ha, hb, ok_bind]
      cases (before.zip xs).mapM fun x => argument x.1 x.2 with
      | error e => exact .inl ⟨e, rfl, rfl⟩
      | ok checked =>
        cases (after.zip ys).mapM fun x => argument x.1 x.2 with
        | error e => exact .inl ⟨e, rfl, rfl⟩
        | ok more => exact .inr ⟨c, name, checked, more, rfl, rfl⟩
    · rw [if_neg hlength, if_neg hlength]
      exact .inl ⟨_, rfl, rfl⟩

/-- The payload of a call comes from the data of its arguments alone. -/
theorem payload_finish {contract : Contract} {name : Text} {xs ys : List Argument}
    (h : xs.mapM (Argument.datum levels) = ys.mapM (Argument.datum levels)) :
    (finish levels contract name o nonce xs).map (·.payload) =
      (finish levels contract name o nonce ys).map (·.payload) := by
  unfold finish
  refine map_bind_congr _ fun price => map_bind_congr _ fun limit => ?_
  refine map_bind_congr _ fun payer => map_bind_congr _ fun address => ?_
  unfold Transaction.invoke
  rw [h]
  refine map_bind_congr _ fun data => map_bind_congr _ fun n => map_bind_congr _ fun m => ?_
  cases Script.callable name data <;> rfl

/-- The first result is a failure to convert something, or the failure that the second one is. -/
def Refused (r r' : Except Failure Transaction) : Prop :=
  ∃ e, r = .error e ∧ (e.IsConversion ∨ r' = .error e)

theorem Refused.bind {α : Type} (x : Except Failure α) {f g : α → Except Failure Transaction}
    (h : ∀ a, Refused (f a) (g a)) : Refused (x >>= f) (x >>= g) := by
  cases x with
  | error e => exact ⟨e, rfl, .inr rfl⟩
  | ok a => exact h a

/-- With an argument that cannot be converted a call ends there, if it comes so far. -/
theorem refused_finish {contract : Contract} {name : Text} {before after : List Argument}
    {cause : ConversionError} (ha : a.datum levels = .error (.conversion cause)) (b : Argument) :
    Refused (finish levels contract name o nonce (before ++ a :: after))
      (finish levels contract name o nonce (before ++ b :: after)) := by
  unfold finish
  refine .bind _ fun price => .bind _ fun limit => .bind _ fun payer => .bind _ fun address => ?_
  rw [Transaction.invoke, Transaction.invoke, mapM_append_cons, mapM_append_cons]
  cases before.mapM (Argument.datum levels) with
  | error e => exact ⟨e, rfl, .inr rfl⟩
  | ok data =>
    simp only [ok_bind, ha]
    exact ⟨.conversion cause, rfl, .inl ⟨cause, rfl⟩⟩

theorem Apart.payload_build (h : Apart p q v w call other) (ha : argument p v = .ok a)
    (hb : argument q w = .ok b) (hdatum : a.datum levels = b.datum levels) :
    (call.build levels given nonce).run.1.map (·.payload) =
      (other.build levels given nonce).run.1.map (·.payload) := by
  rw [(call.local_build levels given nonce).run, (other.local_build levels given nonce).run]
  refine map_bind_congr _ fun o => ?_
  rcases h.transaction ha hb with ⟨e, hcall, hother⟩ | ⟨_, _, before, after, hcall, hother⟩
  · rw [hcall, hother]
  · rw [hcall, hother]
    apply payload_finish
    rw [mapM_append_cons, mapM_append_cons, hdatum]

theorem Apart.refused_build (h : Apart p q v w call other) (ha : argument p v = .ok a)
    (hb : argument q w = .ok b) {cause : ConversionError}
    (hdatum : a.datum levels = .error (.conversion cause)) :
    Refused (call.build levels given nonce).run.1 (other.build levels given nonce).run.1 := by
  rw [(call.local_build levels given nonce).run, (other.local_build levels given nonce).run]
  refine .bind _ fun o => ?_
  rcases h.transaction ha hb with ⟨e, hcall, hother⟩ | ⟨_, _, before, after, hcall, hother⟩
  · exact ⟨e, hcall, .inr hother⟩
  · rw [hcall, hother]
    exact refused_finish hdatum _

end Apart

/-- However a byte array is spelled, the payload of its call is that of the call in which the bytes
are given for a parameter of no known kind, and the one is there when the other is. A text that
spells no bytes is refused. Bytes that are given as such become a text without a marker, which is
read as the same bytes. -/
theorem build_spelled {levels : ℕ} {p q : Abi.Parameter} {v : Value} {b : Bytes} {call other : Call}
    (hp : p.kind = .byteArray) (hq : q.kind = .other) (h : Apart p q v (.blob .fixed b) call other)
    (given : GivenOptions) (nonce : Value) :
    (ByteArray.Spells b v → (call.build levels given nonce).run.1.map (·.payload) =
        (other.build levels given nonce).run.1.map (·.payload)) ∧
      (∀ t, v.text? = some t → (∀ s d, t = .whole s → ¬ Hex.TextOf d s) →
        Refused (call.build levels given nonce).run.1 (other.build levels given nonce).run.1) ∧
      ∀ form, ∃ text : String, ByteArray.textOf (.blob form b) = .ok (.text text) ∧
        Hex.dropMarker text = text ∧ hexBytes (.text text) = .ok b := by
  have hother := argument_other hq (.blob .fixed b)
  refine ⟨fun hspells => ?_, fun t ht hnone => ?_, fun form => ⟨Hex.encode b, rfl, ?_, ?_⟩⟩
  · obtain ⟨w, hw, htext, hbytes⟩ := hspells.exists_textOf
    refine h.payload_build (argument_byteArray hp hw) hother ?_
    rw [datum_byteArray htext, hbytes]
    rfl
  · have hw := ByteArray.textOf_of_text ht
    obtain ⟨cause, hcause⟩ : ∃ cause, hexBytes v = .error (.conversion cause) := by
      cases hread : hexBytes v with
      | ok d =>
        obtain ⟨s, hs, hdecode⟩ := hexBytes_eq_ok_iff.mp hread
        cases ht.symm.trans hs
        exact absurd (Hex.decode?_eq_some_iff.mp hdecode) (hnone s d rfl)
      | error e =>
        obtain ⟨cause, rfl⟩ := converts_hexBytes ht e hread
        exact ⟨cause, rfl⟩
    have hdatum : Argument.datum levels ⟨p.name, .byteArray, v⟩ =
        .error (.conversion cause) := by
      rw [datum_byteArray (by rw [ht]; rfl), hcause]
      rfl
    exact h.refused_build (argument_byteArray hp hw) hother hdatum
  · rw [Hex.dropMarker, Hex.encode, String.toList_ofList, Hex.dropMarkerChars_flatMap]
  · exact Address.hexBytes_text_eq_ok_iff.mpr ⟨_, rfl, Hex.decode?_encode b⟩

def storing (type : String) (v : Value) : Call := ⟨
  ⟨⟨"f1d7b2a1c3d4e5f60718293a4b5c6d7e8f901234",
    [⟨"put", [⟨"key", "String", []⟩, ⟨"data", type, []⟩], []⟩], []⟩, none⟩, "put", [.text "k", v]⟩

theorem apart_storing (v w : Value) :
    Apart ⟨"data", "ByteArray", []⟩ ⟨"data", "Array", []⟩ v w (storing "ByteArray" v)
      (storing "Array" w) :=
  @Apart.mk _ _ v w _ _ "put" _ _ [⟨"key", "String", []⟩] [] [.text "k"] [] rfl rfl rfl rfl rfl rfl

/-- Blanks may stand behind the marker and between the bytes, but not before the marker. -/
theorem build_spelled_blanks :
    let given : GivenOptions := .checked ⟨none, .is (.ofNat 1), none, none⟩
    let b : Bytes := [0xab, 0x0c]
    ByteArray.Spells b (.text "0X aB\n0C ") ∧ (∀ d, ¬ Hex.TextOf d " 0xab0c") ∧
      ∃ tx, ((storing "Array" (.blob .fixed b)).build 960 given (.int 1)).run.1 = .ok tx ∧
        ((storing "ByteArray" (.text "0X aB\n0C ")).build 960 given (.int 1)).run.1.map
          (·.payload) = .ok tx.payload ∧
        ∃ cause, ((storing "ByteArray" (.text " 0xab0c")).build 960 given (.int 1)).run.1 =
          .error (.conversion cause) := by
  intro given b
  have hspells : ByteArray.Spells b (.text "0X aB\n0C ") :=
    .text rfl (Hex.decode?_eq_some_iff.mp (by decide +kernel))
  have hnone (d : Bytes) : ¬ Hex.TextOf d " 0xab0c" := by
    rw [← Hex.decode?_eq_some_iff]
    have hread : Hex.decode? " 0xab0c" = none := by decide +kernel
    rw [hread]
    exact nofun
  have hbuilt : ((storing "Array" (.blob .fixed b)).build 960 given (.int 1)).run.1.isOk := by
    decide +kernel
  obtain ⟨tx, htx⟩ := exists_eq_ok hbuilt
  refine ⟨hspells, hnone, tx, htx, ?_, ?_⟩
  · have hpayload := (@build_spelled 960 _ _ _ _ _ _ (by decide) (by decide)
      (apart_storing _ (.blob .fixed b)) given (.int 1)).1 hspells
    rw [hpayload, htx]
    rfl
  · have hrefused := (@build_spelled 960 _ _ _ _ _ _ (by decide) (by decide)
      (apart_storing (.text " 0xab0c") (.blob .fixed b)) given (.int 1)).2.1 _ rfl
      fun s d hs => Text.whole.inj hs ▸ hnone d
    obtain ⟨e, he, ⟨cause, rfl⟩ | hother⟩ := hrefused
    · exact ⟨cause, he⟩
    · rw [htx] at hother
      cases hother

end Call

end Bindery
