import Bindery.Proofs.HexText
import Bindery.Proofs.KeptDocument
import Bindery.Proofs.Submission
import Bindery.Proofs.Utf8

/-!
# Lookups in the storage of a contract

A lookup asks the client once, for the text of its key, and that text gives the key back; a key that
has no encoding has no such text, and nobody is asked. What the reply means depends on its code
alone: an object with the code zero holds the result, any other object a failure with its own code
and description. A reply that is no object has no members to look at, and a code too long to be
written gives no message.
-/

namespace Bindery

/-- A document that equals zero: the number in one of its spellings, or the falsehood. -/
inductive Json.EqualsZero : Json → Prop
  | int : EqualsZero (.int 0)
  | float {x : Binary64} {negative : Bool} {exponent : Int}
    (h : x.shape = .finite negative 0 exponent) : EqualsZero (.float x)
  | bool : EqualsZero (.bool false)

def Json.memberOrNull (name : String) (members : List (Text × Json)) : Json :=
  (Json.member? name members).getD .null

theorem Binary64.magnitude_eq_zero_iff (x : Binary64) :
    x.magnitude = 0 ↔ ∃ negative exponent, x.shape = .finite negative 0 exponent := by
  unfold shape
  dsimp only
  constructor
  · intro h
    exact ⟨x.isNegative, -1074, by simp [h]⟩
  · rintro ⟨negative, exponent, h⟩
    split at h
    · split at h <;> cases h
    · split at h
      · rename_i hfield
        obtain ⟨-, hfraction, -⟩ := Shape.finite.inj h
        rw [← Nat.div_add_mod x.magnitude hiddenBit, hfield, hfraction, Nat.mul_zero]
      · obtain ⟨-, hfraction, -⟩ := Shape.finite.inj h
        exact absurd hfraction (by simp [hiddenBit])

mutual

theorem Value.hasLongInteger_ofJson (j : Json) : (ofJson j).hasLongInteger = j.hasLongInteger := by
  cases j with
  | arr items => exact anyLongInteger_ofJsonItems items
  | obj members => exact anyLongMember_ofJsonMembers members
  | _ => rfl

theorem Value.anyLongInteger_ofJsonItems (items : List Json) :
    anyLongInteger (ofJsonItems items) = Json.anyLongInteger items := by
  cases items with
  | nil => rfl
  | cons x rest =>
    rw [ofJsonItems, anyLongInteger, Json.anyLongInteger, hasLongInteger_ofJson x,
      anyLongInteger_ofJsonItems rest]

theorem Value.anyLongMember_ofJsonMembers (members : List (Text × Json)) :
    anyLongMember (ofJsonMembers members) = Json.anyLongMember members := by
  cases members with
  | nil => rfl
  | cons m rest =>
    rw [ofJsonMembers, anyLongMember, Json.anyLongMember, hasLongInteger_ofJson m.2,
      anyLongMember_ofJsonMembers rest]

end

theorem Value.getD_member?_ofJsonMembers (name : String) (members : List (Text × Json)) :
    (Json.member? name (ofJsonMembers members)).getD .null =
      ofJson (Json.memberOrNull name members) := by
  rw [member?_ofJsonMembers, Json.memberOrNull]
  cases Json.member? name members <;> rfl

namespace Contract

/-- The text by which the storage of a contract knows a key: the lowercase digits of its bytes in
UTF-8, from which the key is read back. -/
structure IsKeyText (key h : String) : Prop where
  digits : ∀ c ∈ h.toList, c ∈ "0123456789abcdef".toList
  bytes : Hex.decode? h = some (Text.encodeUtf8 key)
  key : (Hex.decode? h).bind Text.decodeUtf8? = some key

theorem IsKeyText.unique {key other h : String} (hkey : IsKeyText key h)
    (hother : IsKeyText other h) : other = key :=
  Option.some.inj (hother.key.symm.trans hkey.key)

theorem isKeyText_encode (key : String) : IsKeyText key (Hex.encode (Text.encodeUtf8 key)) where
  digits := by
    intro c hc
    rw [Hex.encode, String.toList_ofList] at hc
    obtain ⟨b, -, hc⟩ := List.mem_flatMap.mp hc
    have hdigit : ∀ n < 16, Hex.digit n ∈ "0123456789abcdef".toList := by decide
    have hb := b.toNat_lt
    rcases List.mem_pair.mp hc with rfl | rfl
    · exact hdigit _ (by omega)
    · exact hdigit _ (by omega)
  bytes := Hex.decode?_encode _
  key := by rw [Hex.decode?_encode, Option.bind_some, Text.decodeUtf8?_encodeUtf8]

theorem isZero_ofJson (j : Json) : isZero (.ofJson j) ↔ j.EqualsZero := by
  constructor
  · intro h
    cases j with
    | int n =>
      obtain rfl : n = 0 := of_decide_eq_true h
      exact .int
    | float x =>
      obtain ⟨negative, exponent, hshape⟩ := x.magnitude_eq_zero_iff.mp (of_decide_eq_true h)
      exact .float hshape
    | bool b =>
      cases b with
      | false => exact .bool
      | true => cases h
    | _ => cases h
  · rintro (_ | hshape | _)
    · rfl
    · exact decide_eq_true ((Binary64.magnitude_eq_zero_iff _).mpr ⟨_, _, hshape⟩)
    · rfl

inductive LookedUp : Json → Except Failure Value → Prop
  | found {members : List (Text × Json)} (h : (Json.memberOrNull "Error" members).EqualsZero) :
    LookedUp (.obj members) (.ok (.ofJson (Json.memberOrNull "Result" members)))
  | refused {members : List (Text × Json)}
    (h : ¬ (Json.memberOrNull "Error" members).EqualsZero) :
    LookedUp (.obj members) (.error (.storage (.ofJson (Json.memberOrNull "Error" members))
      (.ofJson (Json.memberOrNull "Desc" members))))
  | noObject {reply : Json} {code description : Value} (h : ∀ members, reply ≠ .obj members) :
    LookedUp reply (.error (.storage code description))

/-- A reply that can be looked at, with a failure that can be put into words. -/
def Readable (reply : Json) : Prop :=
  ∃ members, reply = .obj members ∧ ((Json.memberOrNull "Error" members).EqualsZero ∨
    ¬ (Json.memberOrNull "Error" members).hasLongInteger ∧
      ¬ (Json.memberOrNull "Desc" members).hasLongInteger)

theorem storageResult_obj (members : List (Text × Json)) :
    storageResult (.ofJson (.obj members)) =
      if isZero (.ofJson (Json.memberOrNull "Error" members)) then
        .ok (.ofJson (Json.memberOrNull "Result" members))
      else if (Json.memberOrNull "Error" members).hasLongInteger ||
          (Json.memberOrNull "Desc" members).hasLongInteger then
        .error (.misuse .longInteger)
      else .error (.storage (.ofJson (Json.memberOrNull "Error" members))
        (.ofJson (Json.memberOrNull "Desc" members))) := by
  simp only [Value.ofJson, storageResult, Value.getD_member?_ofJsonMembers,
    Value.hasLongInteger_ofJson]

theorem storageResult_of_not_obj {reply : Json} (h : ∀ members, reply ≠ .obj members) :
    ∃ m, storageResult (.ofJson reply) = .error (.misuse m) := by
  cases reply with
  | obj members => exact absurd rfl (h members)
  | _ => exact ⟨_, rfl⟩

/-- A lookup ends in accord with its reply just when that can be looked at. -/
theorem lookedUp_iff_readable (reply : Json) :
    LookedUp reply (storageResult (.ofJson reply)) ↔ Readable reply := by
  by_cases hobj : ∃ members, reply = .obj members
  · obtain ⟨members, rfl⟩ := hobj
    rw [storageResult_obj]
    by_cases hzero : (Json.memberOrNull "Error" members).EqualsZero
    · rw [if_pos ((isZero_ofJson _).mpr hzero)]
      exact iff_of_true (.found hzero) ⟨members, rfl, .inl hzero⟩
    rw [if_neg fun h => hzero ((isZero_ofJson _).mp h)]
    by_cases hlong : (Json.memberOrNull "Error" members).hasLongInteger ||
        (Json.memberOrNull "Desc" members).hasLongInteger
    · rw [if_pos hlong]
      refine iff_of_false nofun ?_
      rintro ⟨_, ⟨⟩, h | ⟨hcode, hdescription⟩⟩
      · exact hzero h
      · exact (Bool.or_eq_true_iff.mp hlong).elim hcode hdescription
    · rw [if_neg hlong]
      rw [Bool.or_eq_true, not_or] at hlong
      exact iff_of_true (.refused hzero) ⟨members, rfl, .inr hlong⟩
  · have hnone (members : List (Text × Json)) : reply ≠ .obj members :=
      fun h => hobj ⟨members, h⟩
    obtain ⟨m, hm⟩ := storageResult_of_not_obj hnone
    rw [hm]
    exact iff_of_false nofun fun ⟨members, h, _⟩ => hnone members h

theorem getStorage_run {c : Contract} {client : Client} (h : c.client = some client)
    (key : String) :
    let request : Request := .storage c.codeHash (Hex.encode (Text.encodeUtf8 key))
    (c.getStorage (.text key)).run =
      (client.answer request >>= storageResult, ⟨[(client.name, request)], []⟩) := by
  intro request
  have hsteps : c.getStorage (.text key) =
      (Activity.ask (some client) request >>= fun reply =>
        Activity.ofExcept (storageResult reply)) := by
    unfold getStorage
    rw [h]
    rfl
  have hask : (Activity.ask (some client) request).exec ⟨[], []⟩ =
      (client.answer request, ⟨[(client.name, request)], []⟩) := rfl
  rw [hsteps, Activity.run_eq_exec, Activity.exec_bind, hask]
  cases client.answer request <;> rfl

theorem getStorage_run_broken {c : Contract} {client : Client} (h : c.client = some client)
    (b : Text.Broken) :
    (c.getStorage (.text (.broken b))).run = (.error (.misuse (.unencodable b)), ⟨[], []⟩) := by
  unfold getStorage
  rw [h]
  rfl

/-- A lookup asks once, for the text of its key, and no other key is asked for by that text. It
ends in accord with the reply just when the reply is an object whose failure, if it has one, can be
put into words. Only for a key without an encoding nothing is asked. -/
theorem getStorage_lookedUp_iff (abi : Abi) (name : String) (replies : Request → Json)
    (key : Text) :
    let c : Contract := ⟨abi, some ⟨name, fun r => .ok (.ofJson (replies r))⟩⟩
    let lookup (key : Text) := (c.getStorage (.text key)).run
    match key with
    | .whole s =>
      ∃ h, IsKeyText s h ∧ (lookup key).2.requests = [(name, .storage c.codeHash h)] ∧
        (∀ other, (lookup other).2.requests = (lookup key).2.requests → other = key) ∧
        (LookedUp (replies (.storage c.codeHash h)) (lookup key).1 ↔
          Readable (replies (.storage c.codeHash h)))
    | .broken b => lookup key = (.error (.misuse (.unencodable b)), ⟨[], []⟩) := by
  intro c lookup
  have hrun (s : String) := @getStorage_run c _ rfl s
  have hbroken (b : Text.Broken) := @getStorage_run_broken c _ rfl b
  cases key with
  | broken b => exact hbroken b
  | whole s =>
    refine ⟨_, isKeyText_encode s, congrArg (·.2.requests) (hrun s), fun other h => ?_, ?_⟩
    · cases other with
      | broken b =>
        simp only [lookup, hrun, hbroken] at h
        cases h
      | whole t =>
        simp only [lookup, hrun, List.cons.injEq, Prod.mk.injEq, Request.storage.injEq, true_and,
          and_true] at h
        exact congrArg Text.whole ((isKeyText_encode s).unique (h ▸ isKeyText_encode t))
    · simp only [lookup, hrun]
      exact lookedUp_iff_readable _

/-- A node that answers with an empty list. -/
theorem getStorage_not_lookedUp_list :
    let c : Contract := ⟨⟨"0102030405060708090a0b0c0d0e0f1011121314", [], []⟩,
      some ⟨"own", fun _ => .ok (.ofJson (.arr []))⟩⟩
    (c.getStorage (.text "k")).run =
        (.error (.misuse (.noMember "list" "get")),
          ⟨[("own", .storage c.codeHash "6b")], []⟩) ∧
      ¬ LookedUp (.arr []) (c.getStorage (.text "k")).run.1 := by
  intro c
  have hrun := @getStorage_run c _ rfl "k"
  have hkey : Hex.encode (Text.encodeUtf8 "k") = "6b" := by decide +kernel
  rw [hkey] at hrun
  rw [hrun]
  exact ⟨rfl, fun h => nomatch h⟩

end Contract

end Bindery
