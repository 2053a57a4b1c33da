import Bindery.Proofs.ArgumentKinds
import Bindery.Proofs.Building
import Bindery.Proofs.Machine
import Bindery.Proofs.Utf8

/-!
# What a packed call means

The payload of an invocation is a script and the address of the contract behind the instruction that
calls it. `invoke_payload_runs` says what the script does: it ends with the name of the function on
top of one array, whose items are, in order, what the caller gave as arguments.

`Item.StandsFor` says when an item is what a value means, with integers and truth values compared by
the integer that the machine reads; it does not speak of the way in which arguments are packed.
-/

namespace Bindery

mutual

def Item.StandsFor (x : Item) : Value → Prop
  | .text t => ∃ s, t = .whole s ∧ x = .bytes s.toUTF8.data.toList
  | .kind k => x = .bytes k.typeName.toUTF8.data.toList
  | .blob .fixed data | .blob .mutable data => x = .bytes data
  | .address a => x = .bytes a.bytes
  | .bool b => x.integer? = some (if b then 1 else 0)
  | .int n => x.integer? = some n
  | .list items | .tuple items => ∃ xs, x = .array xs ∧ Item.StandForAll xs items
  | _ => False

def Item.StandForAll (xs : List Item) : List Value → Prop
  | [] => xs = []
  | v :: rest => ∃ x more, xs = x :: more ∧ x.StandsFor v ∧ Item.StandForAll more rest

end

/-- Whether an item is what an argument means. A byte array is given by hexadecimal text, and every
other argument by its value. -/
def Argument.Means (a : Argument) (x : Item) : Prop :=
  match a.kind with
  | .byteArray =>
    ∃ s data, a.value.text? = some (.whole s) ∧ Hex.decode? s = some data ∧ x = .bytes data
  | _ => x.StandsFor a.value

open Machine

theorem standsFor_kind (k : Kind) : (Item.bytes (Text.encodeUtf8 k.typeName)).StandsFor (.kind k) :=
  congrArg Item.bytes (Text.encodeUtf8_eq _)

/-- Only a text that has an encoding can be pushed. -/
theorem standsFor_text {v : Value} {t : Text} (h : v.text? = some t)
    (hd : Script.pushable (.ofText t)) : (ofDatum (.ofText t)).StandsFor v := by
  cases t with
  | broken b => cases hd
  | whole s =>
    cases v with
    | text t =>
      cases h
      exact ⟨s, rfl, congrArg Item.bytes (Text.encodeUtf8_eq s)⟩
    | kind k =>
      cases h
      exact standsFor_kind k
    | _ => cases h

theorem standsFor_bool (b : Bool) : (ofDatum (.bool b)).StandsFor (.bool b) := by
  cases b <;> rfl

theorem standForAll_mapM {f : Value → Except Failure Datum} {items : List Value} {ds : List Datum}
    (hf : ∀ v d, f v = .ok d → Script.pushable d → (ofDatum d).StandsFor v)
    (h : items.mapM f = .ok ds) (hds : Script.pushableItems ds) :
    Item.StandForAll (ofData ds) items := by
  have hall := mapM_eq_ok.mp h
  clear h
  induction hall with
  | nil => rfl
  | cons hd _ ih =>
    obtain ⟨hfirst, hrest⟩ := Bool.and_eq_true_iff.mp hds
    exact ⟨_, _, rfl, hf _ _ hd hfirst, ih hrest⟩

theorem standsFor_untyped {name : Text} {levels : ℕ} {v : Value} {d : Datum}
    (h : Argument.untyped name levels v = .ok d) (hd : Script.pushable d) :
    (ofDatum d).StandsFor v := by
  induction levels using Nat.strongRecOn generalizing v d with
  | ind levels ih =>
    have hitems {items : List Value} (h : Argument.listed name levels items = .ok d) :
        ∃ ds, ofDatum d = .array (ofData ds) ∧ Item.StandForAll (ofData ds) items := by
      cases levels with
      | zero => cases h
      | succ levels =>
        obtain ⟨ds, hds, rfl⟩ := map_eq_ok.mp h
        have hpushable := (Bool.and_eq_true_iff.mp hd).1
        exact ⟨ds, rfl,
          standForAll_mapM (fun _ _ => ih levels (Nat.lt_succ_self levels)) hds hpushable⟩
    cases v with
    | text t => cases h; exact standsFor_text rfl hd
    | kind k => cases h; exact standsFor_kind k
    | blob form data => cases form <;> cases h <;> rfl
    | address a => cases h; rfl
    | bool b => cases h; exact standsFor_bool b
    | int n => cases h; exact integer?_ofInt n
    | list items =>
      rw [Argument.untyped_list] at h
      obtain ⟨ds, hd, hall⟩ := hitems h
      exact ⟨ofData ds, hd, hall⟩
    | tuple items =>
      rw [Argument.untyped_tuple] at h
      obtain ⟨ds, hd, hall⟩ := hitems h
      exact ⟨ofData ds, hd, hall⟩
    | _ => cases h

theorem standForAll_integers {items : List Value} {ds : List Datum}
    (h : items.mapM Argument.integer? = some ds) : Item.StandForAll (ofData ds) items := by
  have hall := mapM_eq_some.mp h
  clear h
  induction hall with
  | nil => rfl
  | cons hd _ ih =>
    rename_i v d _ _ _
    cases v
    all_goals cases hd
    exact ⟨_, _, rfl, integer?_ofInt _, ih⟩

theorem standsFor_integers {v : Value} {ds : List Datum}
    (h : ((Argument.items? v).bind fun vs => vs.mapM Argument.integer?) = some ds) :
    (ofDatum (.array ds)).StandsFor v := by
  obtain ⟨items, hitems, hds⟩ := Option.bind_eq_some_iff.mp h
  cases v <;> cases hitems <;> exact ⟨_, rfl, standForAll_integers hds⟩

/-- The datum that an argument of any kind is checked into becomes an item with its meaning. -/
theorem means_ofDatum {levels : ℕ} {a : Argument} {d : Datum} (h : a.datum levels = .ok d)
    (hd : Script.pushable d) : a.Means (ofDatum d) := by
  obtain ⟨name, kind, v⟩ := a
  cases kind with
  | string =>
    simp only [Argument.datum] at h
    split at h
    · rename_i t ht
      cases h
      exact standsFor_text ht hd
    · cases h
  | integer | int | long =>
    cases v
    all_goals cases h
    exact integer?_ofInt _
  | boolean =>
    cases v
    all_goals cases h
    exact standsFor_bool _
  | byteArray =>
    simp only [Argument.datum] at h
    split at h
    · obtain ⟨b, hb, rfl⟩ := map_eq_ok.mp h
      obtain ⟨text, htext, hdecode⟩ := hexBytes_eq_ok_iff.mp hb
      exact ⟨text, b, htext, hdecode, rfl⟩
    · cases h
  | intArray | longArray =>
    simp only [Argument.datum] at h
    split at h
    · rename_i ds hds
      cases h
      exact standsFor_integers hds
    · cases h
  | other => exact standsFor_untyped h hd

theorem means_ofData {levels : ℕ} {arguments : List Argument} {data : List Datum}
    (h : arguments.mapM (Argument.datum levels) = .ok data)
    (hpushable : Script.pushableItems data) :
    List.Forall₂ Argument.Means arguments (ofData data) := by
  have hall := mapM_eq_ok.mp h
  clear h
  induction hall with
  | nil => exact .nil
  | cons hd _ ih =>
    obtain ⟨hfirst, hrest⟩ := Bool.and_eq_true_iff.mp hpushable
    exact .cons (means_ofDatum hd hfirst) (ih hrest)

/-- The function of a call whose script can be written has an encoding. -/
theorem exists_name_of_callable {function : Text} {data : List Datum}
    (h : Script.callable function data) : ∃ name, function = .whole name := by
  cases function with
  | whole name => exact ⟨name, rfl⟩
  | broken b => cases (Bool.and_eq_true_iff.mp h).2

theorem run_call {name : String} {data : List Datum} (h : Script.callable name data) :
    run (Script.push (.array data) ++ Script.push (.ofText name)) [] =
      some [.bytes (Text.encodeUtf8 name), .array (ofData data)] := by
  obtain ⟨harray, hname⟩ := Bool.and_eq_true_iff.mp h
  have hfunction := run_pushBytes [] [ofDatum (.array data)] hname
  rw [List.append_nil] at hfunction
  rw [run_push _ _ harray, Datum.ofText, Script.push, hfunction, run_nil]
  rfl

namespace Transaction

/-- The payload of every invocation that can be built is a script behind which stand the instruction
of a call and the twenty bytes of the contract. The script runs to its end and leaves the name of
the function on top of the array of what the arguments mean. -/
theorem invoke_payload_runs {levels : ℕ} {function : Text} {arguments : List Argument}
    {contract : Address} {gasPrice gasLimit nonce : Value} {payer : Option Address}
    {tx : Transaction}
    (h : invoke levels function arguments contract gasPrice gasLimit payer nonce = .ok tx) :
    ∃ name script items, function = .whole name ∧
      tx.payload = .bytes (script ++ 0x67 :: contract.bytes) ∧
      Machine.run script [] = some [.bytes name.toUTF8.data.toList, .array items] ∧
      List.Forall₂ Argument.Means arguments items := by
  obtain ⟨data, _, _, hdata, -, -, hcall, rfl⟩ := invoke_eq_ok h
  obtain ⟨name, rfl⟩ := exists_name_of_callable hcall
  have hpushable := (Bool.and_eq_true_iff.mp (Bool.and_eq_true_iff.mp hcall).1).1
  refine ⟨name, _, _, rfl, rfl, ?_, means_ofData hdata hpushable⟩
  rw [← Text.encodeUtf8_eq]
  exact run_call hcall

def mixedArguments : List Argument :=
  [ ⟨"owner", .byteArray, .text "0xABcd"⟩, ⟨"amount", .integer, .int (-128)⟩,
    ⟨"ids", .intArray, .tuple (List.replicate 17 (.int 16))⟩,
    ⟨"any", .other, .list [.text "é", .bool false, .list [], .address Address.zero]⟩ ]

theorem invoke_payload_runs_mixed :
    ∃ tx, invoke 3 "Do" mixedArguments Address.zero (.int 500) (.int 20000) none (.int 1) =
        .ok tx ∧
      ∃ name script items, ("Do" : Text) = .whole name ∧
        tx.payload = .bytes (script ++ 0x67 :: Address.zero.bytes) ∧
        Machine.run script [] = some [.bytes name.toUTF8.data.toList, .array items] ∧
        List.Forall₂ Argument.Means mixedArguments items := by
  have hbuilt : (invoke 3 "Do" mixedArguments Address.zero (.int 500) (.int 20000) none
      (.int 1)).isOk := by decide +kernel
  obtain ⟨tx, htx⟩ := exists_eq_ok hbuilt
  exact ⟨tx, htx, invoke_payload_runs htx⟩

end Transaction

end Bindery
