import Bindery.Proofs.EmbeddedLiteral

/-!
# What is read can be written

An interface that comes from encoded text holds nothing that could not be written again: its values
are those of a document, and a document that is read has no integer that is too long. So there is a
binding for every such interface in which all names are whole and no kept value goes too deep.
-/

namespace Bindery

namespace Value

/-- The value has a document that can be put into text, however deep it goes. -/
def Writes (v : Value) : Prop := ∃ d j, v.toJson d = .ok j ∧ j.hasLongInteger = false

theorem writesItems_iff {items : List Value} :
    (∃ d js, toJsonItems d items = .ok js ∧ Json.anyLongInteger js = false) ↔
      ∀ v ∈ items, v.Writes := by
  induction items with
  | nil => exact iff_of_true ⟨0, [], rfl, rfl⟩ (List.forall_mem_nil _)
  | cons v rest ih =>
    rw [List.forall_mem_cons, ← ih]
    constructor
    · rintro ⟨d, js, hjs, hlong⟩
      obtain ⟨x, hx, hjs⟩ := bind_eq_ok.mp hjs
      obtain ⟨xs, hxs, hjs⟩ := bind_eq_ok.mp hjs
      cases hjs
      obtain ⟨hlongx, hlongxs⟩ := Bool.or_eq_false_iff.mp hlong
      exact ⟨⟨d, x, hx, hlongx⟩, d, xs, hxs, hlongxs⟩
    · rintro ⟨⟨d, x, hx, hlongx⟩, e, xs, hxs, hlongxs⟩
      have hx' := toJson_of_le hx (Nat.le_max_left d e)
      have hxs' := toJsonItems_of_le hxs (Nat.le_max_right d e)
      refine ⟨max d e, x :: xs, ?_, Bool.or_eq_false_iff.mpr ⟨hlongx, hlongxs⟩⟩
      exact bind_eq_ok.mpr ⟨x, hx', bind_eq_ok.mpr ⟨xs, hxs', rfl⟩⟩

theorem writesMembers_iff {members : List (Text × Value)} :
    (∃ d js, toJsonMembers d members = .ok js ∧ Json.anyLongMember js = false) ↔
      ∀ m ∈ members, m.1.isWhole ∧ m.2.Writes := by
  induction members with
  | nil => exact iff_of_true ⟨0, [], rfl, rfl⟩ (List.forall_mem_nil _)
  | cons m rest ih =>
    obtain ⟨name | b, v⟩ := m
    · have hname : (Text.whole name).isWhole := rfl
      rw [List.forall_mem_cons, ← ih]
      dsimp only
      rw [and_iff_right hname]
      constructor
      · rintro ⟨d, js, hjs, hlong⟩
        obtain ⟨x, hx, hjs⟩ := bind_eq_ok.mp hjs
        obtain ⟨xs, hxs, hjs⟩ := bind_eq_ok.mp hjs
        cases hjs
        obtain ⟨hlongx, hlongxs⟩ := Bool.or_eq_false_iff.mp hlong
        exact ⟨⟨d, x, hx, hlongx⟩, d, xs, hxs, hlongxs⟩
      · rintro ⟨⟨d, x, hx, hlongx⟩, e, xs, hxs, hlongxs⟩
        have hx' := toJson_of_le hx (Nat.le_max_left d e)
        have hxs' := toJsonMembers_of_le hxs (Nat.le_max_right d e)
        refine ⟨max d e, (.whole name, x) :: xs, ?_, Bool.or_eq_false_iff.mpr ⟨hlongx, hlongxs⟩⟩
        exact bind_eq_ok.mpr ⟨x, hx', bind_eq_ok.mpr ⟨xs, hxs', rfl⟩⟩
    · refine iff_of_false ?_ fun h => nomatch (h _ List.mem_cons_self).1
      rintro ⟨d, js, hjs, -⟩
      cases hjs

/-- A document is written with a budget of one at least. -/
theorem exists_eq_succ_of_toJson {v : Value} {d : ℕ} {j : Json} (h : v.toJson d = .ok j) :
    ∃ inner, d = inner + 1 :=
  Nat.exists_eq_add_of_le' (v.one_le_depth.trans (le_of_toJson v h).1)

theorem writes_list_iff {items : List Value} : (list items).Writes ↔ ∀ v ∈ items, v.Writes := by
  rw [← writesItems_iff]
  constructor
  · rintro ⟨d, j, hj, hlong⟩
    obtain ⟨d, rfl⟩ := exists_eq_succ_of_toJson hj
    obtain ⟨js, hjs, rfl⟩ := map_eq_ok.mp hj
    exact ⟨d, js, hjs, hlong⟩
  · rintro ⟨d, js, hjs, hlong⟩
    exact ⟨d + 1, .arr js, map_eq_ok.mpr ⟨js, hjs, rfl⟩, hlong⟩

theorem writes_dict_iff {members : List (Text × Value)} :
    (dict members).Writes ↔ ∀ m ∈ members, m.1.isWhole ∧ m.2.Writes := by
  rw [← writesMembers_iff]
  constructor
  · rintro ⟨d, j, hj, hlong⟩
    obtain ⟨d, rfl⟩ := exists_eq_succ_of_toJson hj
    obtain ⟨js, hjs, rfl⟩ := map_eq_ok.mp hj
    exact ⟨d, js, hjs, hlong⟩
  · rintro ⟨d, js, hjs, hlong⟩
    exact ⟨d + 1, .obj js, map_eq_ok.mpr ⟨js, hjs, rfl⟩, hlong⟩

theorem toJson_tuple (d : ℕ) (items : List Value) :
    (tuple items).toJson d = (list items).toJson d := by
  cases d <;> simp only [toJson]

theorem toJson_record (d : ℕ) (type : RecordType) (members : List (Text × Value)) :
    (record type members).toJson d = (dict members).toJson d := by
  cases d <;> simp only [toJson]

theorem writes_tuple_iff {items : List Value} :
    (tuple items).Writes ↔ ∀ v ∈ items, v.Writes := by
  rw [← writes_list_iff]
  simp only [Writes, toJson_tuple]

theorem writes_record_iff {type : RecordType} {members : List (Text × Value)} :
    (record type members).Writes ↔ ∀ m ∈ members, m.1.isWhole ∧ m.2.Writes := by
  rw [← writes_dict_iff]
  simp only [Writes, toJson_record]

mutual

def Named : Value → Prop
  | .list items | .tuple items => NamedItems items
  | .dict members | .record _ members => NamedMembers members
  | _ => True

def NamedItems : List Value → Prop
  | [] => True
  | v :: rest => v.Named ∧ NamedItems rest

def NamedMembers : List (Text × Value) → Prop
  | [] => True
  | (name, v) :: rest => (name.isWhole ∧ v.Named) ∧ NamedMembers rest

end

mutual

def Expressible : Value → Prop
  | .null | .bool _ | .float _ | .text _ | .kind _ => True
  | .int n => Json.isLong n = false
  | .list items | .tuple items => ExpressibleItems items
  | .dict members | .record _ members => ExpressibleMembers members
  | _ => False

def ExpressibleItems : List Value → Prop
  | [] => True
  | v :: rest => v.Expressible ∧ ExpressibleItems rest

def ExpressibleMembers : List (Text × Value) → Prop
  | [] => True
  | (_, v) :: rest => v.Expressible ∧ ExpressibleMembers rest

end

mutual

/-- Only a name keeps such a value from being written. -/
theorem writes_iff_named (v : Value) (h : v.Expressible) : v.Writes ↔ v.Named := by
  cases v with
  | null => exact iff_of_true ⟨1, .null, rfl, rfl⟩ trivial
  | bool b => exact iff_of_true ⟨1, .bool b, rfl, rfl⟩ trivial
  | int n => exact iff_of_true ⟨1, .int n, rfl, h⟩ trivial
  | float x =>
    refine iff_of_true ⟨1, _, rfl, ?_⟩ trivial
    split <;> rfl
  | text t => exact iff_of_true ⟨1, .str t, rfl, rfl⟩ trivial
  | kind k => exact iff_of_true ⟨1, .str k.typeName, rfl, rfl⟩ trivial
  | list items => exact writes_list_iff.trans (writes_iff_namedItems items h)
  | tuple items => exact writes_tuple_iff.trans (writes_iff_namedItems items h)
  | dict members => exact writes_dict_iff.trans (writes_iff_namedMembers members h)
  | record type members => exact writes_record_iff.trans (writes_iff_namedMembers members h)
  | blob _ _ | address _ | key _ | tagged _ _ | foreign _ => cases h

theorem writes_iff_namedItems (items : List Value) (h : ExpressibleItems items) :
    (∀ v ∈ items, v.Writes) ↔ NamedItems items := by
  cases items with
  | nil => exact iff_of_true (List.forall_mem_nil _) trivial
  | cons v rest =>
    rw [List.forall_mem_cons, writes_iff_named v h.1, writes_iff_namedItems rest h.2, NamedItems]

theorem writes_iff_namedMembers (members : List (Text × Value)) (h : ExpressibleMembers members) :
    (∀ m ∈ members, m.1.isWhole ∧ m.2.Writes) ↔ NamedMembers members := by
  cases members with
  | nil => exact iff_of_true (List.forall_mem_nil _) trivial
  | cons m rest =>
    rw [List.forall_mem_cons, writes_iff_named m.2 h.1, writes_iff_namedMembers rest h.2,
      NamedMembers]

end

section Failures

variable {p : Failure → Prop} (hp : ∀ m, p (.misuse m)) {d : ℕ}

theorem onlyFails_toJsonItems (h : ∀ v : Value, OnlyFails p (v.toJson d)) (items : List Value) :
    OnlyFails p (toJsonItems d items) := by
  induction items with
  | nil => exact onlyFails_ok _
  | cons v rest ih => exact (h v).bind fun _ _ => ih.bind fun _ _ => onlyFails_ok _

include hp

theorem onlyFails_toJsonMembers (h : ∀ v : Value, OnlyFails p (v.toJson d))
    (members : List (Text × Value)) : OnlyFails p (toJsonMembers d members) := by
  induction members with
  | nil => exact onlyFails_ok _
  | cons m rest ih =>
    obtain ⟨_ | b, v⟩ := m
    · exact (h v).bind fun _ _ => ih.bind fun _ _ => onlyFails_ok _
    · exact onlyFails_error (hp _)

theorem onlyFails_toJson (v : Value) : OnlyFails p (v.toJson d) := by
  induction d generalizing v with
  | zero =>
    rw [toJson]
    exact onlyFails_error (hp _)
  | succ d ih =>
    cases v with
    | null | bool b | int n | float x | text s | kind k => exact onlyFails_ok _
    | blob form data =>
      cases form with
      | view => exact onlyFails_error (hp _)
      | fixed | «mutable» =>
        unfold toJson
        split
        · exact onlyFails_ok _
        · exact onlyFails_error (hp _)
    | list items | tuple items => exact (onlyFails_toJsonItems ih items).map _
    | dict members | record type members => exact (onlyFails_toJsonMembers hp ih members).map _
    | tagged tag content => exact (ih content).bind fun _ _ => onlyFails_ok _
    | address a | key k | foreign type => exact onlyFails_error (hp _)

end Failures

end Value

section Failures

variable {p : Failure → Prop} (hp : ∀ m, p (.misuse m))

include hp

theorem Abi.onlyFails_extraJson (extra : List (Text × Value)) : OnlyFails p (extraJson extra) :=
  Value.onlyFails_toJsonMembers hp (Value.onlyFails_toJson hp) extra

theorem Abi.Parameter.onlyFails_toJson (q : Parameter) : OnlyFails p q.toJson :=
  (onlyFails_extraJson hp q.extra).bind fun _ _ => onlyFails_ok _

theorem Abi.Function.onlyFails_toJson (f : Function) : OnlyFails p f.toJson :=
  (onlyFails_mapM fun q _ => q.onlyFails_toJson hp).bind fun _ _ =>
    (onlyFails_extraJson hp f.extra).bind fun _ _ => onlyFails_ok _

theorem Abi.onlyFails_toJson (abi : Abi) : OnlyFails p abi.toJson :=
  (onlyFails_mapM fun f _ => f.onlyFails_toJson hp).bind fun _ _ =>
    (onlyFails_extraJson hp abi.extra).bind fun _ _ => onlyFails_ok _

/-- There is no binding only for what cannot be written. -/
theorem Binding.onlyFails_source (contract runtime : String) (abi : Abi) :
    OnlyFails p (source contract runtime abi) := by
  refine (abi.onlyFails_toJson hp).bind fun document _ => ?_
  split
  · exact onlyFails_error (hp _)
  · exact onlyFails_ok _

end Failures

namespace Binding

/-- There is a binding for an interface just when its value can be written and no kept value goes
too deep. -/
theorem exists_source_eq_ok_iff {contract runtime : String} {abi : Abi} :
    (∃ text, source contract runtime abi = .ok text) ↔
      abi.toValue.Writes ∧ abi.KeptWithin Abi.nestingLimit := by
  constructor
  · rintro ⟨text, h⟩
    obtain ⟨document, hdocument, h⟩ := bind_eq_ok.mp h
    have hkept := Abi.keptWithin_of_toJson hdocument
    rw [Abi.toJson_eq hkept le_rfl] at hdocument
    refine ⟨⟨_, document, hdocument, Bool.eq_false_of_not_eq_true fun hlong => ?_⟩, hkept⟩
    rw [hlong] at h
    cases h
  · rintro ⟨⟨d, document, hdocument, hlong⟩, hkept⟩
    have hwide := Value.toJson_of_le hdocument (Nat.le_add_right d (Abi.nestingLimit + 5))
    rw [← Nat.add_assoc, ← Abi.toJson_eq hkept (Nat.le_add_left _ d)] at hwide
    exact ⟨_, source_eq contract runtime hwide (Bool.not_eq_true _ ▸ hlong)⟩

end Binding

end Bindery
