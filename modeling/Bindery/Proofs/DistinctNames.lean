import Bindery.Proofs.CheckedValues
import Bindery.Proofs.ValueDepth

/-!
# Distinct names

No mapping repeats a name: neither a document that has been read, nor an interface made of such a
value, nor the document of that interface. The reader joins repeated names when it closes an object,
and an interface keeps no extra member under a declared name, so the property is shared by all
parts.
-/

namespace Bindery

mutual

def Value.Distinct : Value → Prop
  | .list items | .tuple items => Value.DistinctItems items
  | .dict members | .record _ members =>
    (members.map Prod.fst).Nodup ∧ Value.DistinctMembers members
  | .tagged _ content => content.Distinct
  | _ => True

def Value.DistinctItems : List Value → Prop
  | [] => True
  | v :: rest => v.Distinct ∧ Value.DistinctItems rest

def Value.DistinctMembers : List (Text × Value) → Prop
  | [] => True
  | (_, v) :: rest => v.Distinct ∧ Value.DistinctMembers rest

end

namespace Value

theorem distinctItems_iff {items : List Value} :
    DistinctItems items ↔ ∀ v ∈ items, v.Distinct := by
  induction items with
  | nil => simp [DistinctItems]
  | cons v rest ih => rw [DistinctItems, ih, List.forall_mem_cons]

theorem distinctMembers_iff {members : List (Text × Value)} :
    DistinctMembers members ↔ ∀ m ∈ members, m.2.Distinct := by
  induction members with
  | nil => simp [DistinctMembers]
  | cons m rest ih => rw [DistinctMembers, ih, List.forall_mem_cons]

theorem map_fst_toJsonMembers {d : ℕ} {members : List (Text × Value)} {js : List (Text × Json)}
    (h : toJsonMembers d members = .ok js) : js.map Prod.fst = members.map Prod.fst := by
  induction members generalizing js with
  | nil =>
    cases h
    rfl
  | cons m rest ih =>
    obtain ⟨_ | b, v⟩ := m
    · obtain ⟨x, -, h⟩ := bind_eq_ok.mp h
      obtain ⟨xs, hxs, h⟩ := bind_eq_ok.mp h
      cases h
      rw [List.map_cons, List.map_cons, ih hxs]
    · cases h

/-- Names that are written are whole. -/
theorem isWhole_of_toJsonMembers {d : ℕ} {members : List (Text × Value)}
    {js : List (Text × Json)} (h : toJsonMembers d members = .ok js) :
    ∀ m ∈ js, m.1.isWhole := by
  induction members generalizing js with
  | nil =>
    cases h
    exact List.forall_mem_nil _
  | cons m rest ih =>
    obtain ⟨_ | b, v⟩ := m
    · obtain ⟨x, -, h⟩ := bind_eq_ok.mp h
      obtain ⟨xs, hxs, h⟩ := bind_eq_ok.mp h
      cases h
      exact List.forall_mem_cons.mpr ⟨rfl, ih hxs⟩
    · cases h

mutual

/-- A value without repeated names is written as a plain document. -/
theorem plain_toJson (v : Value) {d : ℕ} {j : Json} (hv : v.Distinct) (h : v.toJson d = .ok j) :
    j.Plain := by
  obtain ⟨d, rfl⟩ := Nat.exists_eq_add_of_le' (v.one_le_depth.trans (le_of_toJson v h).1)
  cases v with
  | null | bool b | int n | text s | kind k =>
    cases h
    trivial
  | float x =>
    cases h
    split
    · assumption
    · trivial
  | blob form data =>
    cases form with
    | view => cases h
    | fixed | «mutable» =>
      unfold toJson at h
      split at h
      · cases h
        trivial
      · cases h
  | list items | tuple items =>
    obtain ⟨js, hjs, rfl⟩ := map_eq_ok.mp h
    exact plain_toJsonItems items hv hjs
  | dict members | record type members =>
    obtain ⟨js, hjs, rfl⟩ := map_eq_ok.mp h
    exact ⟨map_fst_toJsonMembers hjs ▸ hv.1, isWhole_of_toJsonMembers hjs,
      plain_toJsonMembers members hv.2 hjs⟩
  | address a | key k | foreign type => cases h
  | tagged tag content =>
    obtain ⟨x, hx, h⟩ := bind_eq_ok.mp h
    cases h
    exact ⟨by simp, by simp [Text.isWhole, Text.whole?], trivial, plain_toJson content hv hx,
      trivial⟩

theorem plain_toJsonItems (items : List Value) {d : ℕ} {js : List Json} (hv : DistinctItems items)
    (h : toJsonItems d items = .ok js) : Json.PlainItems js := by
  cases items with
  | nil => cases h; trivial
  | cons v rest =>
    obtain ⟨x, hx, h⟩ := bind_eq_ok.mp h
    obtain ⟨xs, hxs, h⟩ := bind_eq_ok.mp h
    cases h
    exact ⟨plain_toJson v hv.1 hx, plain_toJsonItems rest hv.2 hxs⟩

theorem plain_toJsonMembers (members : List (Text × Value)) {d : ℕ} {js : List (Text × Json)}
    (hv : DistinctMembers members) (h : toJsonMembers d members = .ok js) :
    Json.PlainMembers js := by
  cases members with
  | nil => cases h; trivial
  | cons m rest =>
    obtain ⟨_ | b, v⟩ := m
    · obtain ⟨x, hx, h⟩ := bind_eq_ok.mp h
      obtain ⟨xs, hxs, h⟩ := bind_eq_ok.mp h
      cases h
      exact ⟨plain_toJson v hv.1 hx, plain_toJsonMembers rest hv.2 hxs⟩
    · cases h

end

mutual

/-- A plain document is written as itself, if the budget is large enough. -/
theorem toJson_ofJson (j : Json) (h : j.Plain) {d : ℕ} (hd : (ofJson j).depth ≤ d) :
    (ofJson j).toJson d = .ok j := by
  obtain ⟨d, rfl⟩ := Nat.exists_eq_add_of_le' ((ofJson j).one_le_depth.trans hd)
  cases j with
  | null | bool b | int n | str s => rfl
  | float x =>
    have hfinite : x.isFinite = true := h
    rw [ofJson, toJson, if_pos hfinite]
  | arr items =>
    rw [ofJson, toJson, toJsonItems_ofJsonItems items h (Nat.le_of_succ_le_succ hd)]
    rfl
  | obj members =>
    rw [ofJson, toJson, toJsonMembers_ofJsonMembers members h.2.1 h.2.2
      (Nat.le_of_succ_le_succ hd)]
    rfl

theorem toJsonItems_ofJsonItems (items : List Json) (h : Json.PlainItems items) {d : ℕ}
    (hd : depthItems (ofJsonItems items) ≤ d) : toJsonItems d (ofJsonItems items) = .ok items := by
  cases items with
  | nil => rfl
  | cons x rest =>
    obtain ⟨hx, hrest⟩ := max_le_iff.mp hd
    rw [ofJsonItems, toJsonItems, toJson_ofJson x h.1 hx, ok_bind,
      toJsonItems_ofJsonItems rest h.2 hrest, ok_bind]
    rfl

theorem toJsonMembers_ofJsonMembers (members : List (Text × Json))
    (hnames : ∀ m ∈ members, m.1.isWhole) (h : Json.PlainMembers members) {d : ℕ}
    (hd : depthMembers (ofJsonMembers members) ≤ d) :
    toJsonMembers d (ofJsonMembers members) = .ok members := by
  cases members with
  | nil => rfl
  | cons m rest =>
    obtain ⟨_ | b, x⟩ := m
    · obtain ⟨hm, hrest⟩ := max_le_iff.mp hd
      obtain ⟨-, hnames⟩ := List.forall_mem_cons.mp hnames
      rw [ofJsonMembers, toJsonMembers, toJson_ofJson x h.1 hm, ok_bind,
        toJsonMembers_ofJsonMembers rest hnames h.2 hrest, ok_bind]
      rfl
    · cases hnames _ List.mem_cons_self

end

end Value

namespace Json

def Distinct (j : Json) : Prop := (Value.ofJson j).Distinct

theorem distinct_arr {items : List Json} (h : ∀ x ∈ items, x.Distinct) :
    (arr items).Distinct := by
  have hitems : Value.DistinctItems (Value.ofJsonItems items) := by
    induction items with
    | nil => trivial
    | cons x rest ih =>
      obtain ⟨hx, hrest⟩ := List.forall_mem_cons.mp h
      exact ⟨hx, ih hrest⟩
  exact hitems

theorem map_fst_ofJsonMembers (members : List (Text × Json)) :
    (Value.ofJsonMembers members).map Prod.fst = members.map Prod.fst := by
  induction members with
  | nil => rfl
  | cons m rest ih => rw [Value.ofJsonMembers, List.map_cons, ih, List.map_cons]

theorem distinct_obj {members : List (Text × Json)} (hnames : (members.map Prod.fst).Nodup)
    (h : ∀ m ∈ members, m.2.Distinct) : (obj members).Distinct := by
  have hmembers : Value.DistinctMembers (Value.ofJsonMembers members) := by
    clear hnames
    induction members with
    | nil => trivial
    | cons m rest ih =>
      obtain ⟨hm, hrest⟩ := List.forall_mem_cons.mp h
      exact ⟨hm, ih hrest⟩
  exact ⟨(map_fst_ofJsonMembers members).symm ▸ hnames, hmembers⟩

theorem distinct_of_isWord {v : Json} (h : v.IsWord) : v.Distinct := by
  cases v with
  | null | bool _ | float _ => trivial
  | int _ | str _ | arr _ | obj _ => cases h

theorem composed_distinct : Composed Distinct where
  word _ := distinct_of_isWord
  int _ _ := trivial
  str _ := trivial
  arr _ := distinct_arr
  obj _ := distinct_obj

end Json

theorem Value.shared_distinct : Shared Distinct where
  text _ := trivial
  byte _ := trivial
  list _ := distinctItems_iff
  tuple _ := distinctItems_iff
  dict _ := and_congr_right fun _ => distinctMembers_iff
  record _ _ := and_congr_right fun _ => distinctMembers_iff

/-- No mapping in an interface repeats a name, wherever it has come from. -/
theorem Abi.distinct_parse {levels : ℕ} {v : Value} {abi : Abi} (hv : v.Distinct)
    (h : parse levels v = .ok abi) : abi.toValue.Distinct :=
  shared_parse Value.shared_distinct Json.composed_distinct.documentOfPoints hv h

end Bindery
