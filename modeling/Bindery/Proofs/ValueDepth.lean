import Bindery.Abi.Document
import Bindery.Proofs.Documents
import Bindery.Proofs.Results

/-!
# How deep a value goes

A kept value is written with a budget of values that may lie in one another, and every value takes
one of it. The budget decides whether the value is written and makes no difference otherwise, so a
value has a document just if it has one for some budget and goes no deeper than the budget at hand.
-/

namespace Bindery

mutual

def Value.depth : Value → ℕ
  | .list items | .tuple items => Value.depthItems items + 1
  | .dict members | .record _ members => Value.depthMembers members + 1
  | .tagged _ content => content.depth + 1
  | _ => 1

def Value.depthItems : List Value → ℕ
  | [] => 0
  | v :: rest => max v.depth (Value.depthItems rest)

def Value.depthMembers : List (Text × Value) → ℕ
  | [] => 0
  | (_, v) :: rest => max v.depth (Value.depthMembers rest)

end

namespace Value

variable {d e : ℕ}

theorem depthMembers_le {members : List (Text × Value)} :
    depthMembers members ≤ d ↔ ∀ m ∈ members, m.2.depth ≤ d := by
  induction members with
  | nil => simp [depthMembers]
  | cons m rest ih => rw [depthMembers, max_le_iff, ih, List.forall_mem_cons]

theorem one_le_depth (v : Value) : 1 ≤ v.depth := by
  cases v <;> simp [depth]

mutual

theorem nesting_le_depth (j : Json) : j.nesting ≤ (ofJson j).depth := by
  cases j with
  | arr items => exact Nat.succ_le_succ (nestingItems_le_depthItems items)
  | obj members => exact Nat.succ_le_succ (nestingMembers_le_depthMembers members)
  | _ => exact Nat.zero_le _

theorem nestingItems_le_depthItems (items : List Json) :
    Json.nestingItems items ≤ depthItems (ofJsonItems items) := by
  cases items with
  | nil => exact Nat.zero_le _
  | cons x rest => exact max_le_max (nesting_le_depth x) (nestingItems_le_depthItems rest)

theorem nestingMembers_le_depthMembers (members : List (Text × Json)) :
    Json.nestingMembers members ≤ depthMembers (ofJsonMembers members) := by
  cases members with
  | nil => exact Nat.zero_le _
  | cons m rest => exact max_le_max (nesting_le_depth m.2) (nestingMembers_le_depthMembers rest)

end

mutual

/-- A value that is written goes no deeper than its budget, and neither does its document. -/
theorem le_of_toJson (v : Value) {d : ℕ} {j : Json} (h : v.toJson d = .ok j) :
    v.depth ≤ d ∧ (ofJson j).depth ≤ d := by
  cases d with
  | zero =>
    rw [toJson] at h
    cases h
  | succ d =>
    have hleaf : 1 ≤ d + 1 := Nat.le_add_left 1 d
    cases v with
    | null | bool b | int n | text s | kind k =>
      cases h
      exact ⟨hleaf, hleaf⟩
    | float x =>
      cases h
      split <;> exact ⟨hleaf, hleaf⟩
    | blob form data =>
      cases form with
      | view => cases h
      | fixed | «mutable» =>
        unfold toJson at h
        split at h
        · cases h
          exact ⟨hleaf, hleaf⟩
        · cases h
    | list items | tuple items =>
      obtain ⟨js, hjs, rfl⟩ := map_eq_ok.mp h
      obtain ⟨hdepth, hwritten⟩ := le_of_toJsonItems items hjs
      exact ⟨Nat.succ_le_succ hdepth, Nat.succ_le_succ hwritten⟩
    | dict members | record type members =>
      obtain ⟨js, hjs, rfl⟩ := map_eq_ok.mp h
      obtain ⟨hdepth, hwritten⟩ := le_of_toJsonMembers members hjs
      exact ⟨Nat.succ_le_succ hdepth, Nat.succ_le_succ hwritten⟩
    | tagged tag content =>
      obtain ⟨x, hx, h⟩ := bind_eq_ok.mp h
      cases h
      obtain ⟨hdepth, hwritten⟩ := le_of_toJson content hx
      have htag : 1 ≤ d := content.one_le_depth.trans hdepth
      have hboth := max_le htag (max_le hwritten (Nat.zero_le d))
      exact ⟨Nat.succ_le_succ hdepth, Nat.succ_le_succ hboth⟩
    | address a | key k | foreign type => cases h

theorem le_of_toJsonItems (items : List Value) {d : ℕ} {js : List Json}
    (h : toJsonItems d items = .ok js) :
    depthItems items ≤ d ∧ depthItems (ofJsonItems js) ≤ d := by
  cases items with
  | nil =>
    cases h
    exact ⟨Nat.zero_le d, Nat.zero_le d⟩
  | cons v rest =>
    obtain ⟨x, hx, h⟩ := bind_eq_ok.mp h
    obtain ⟨xs, hxs, h⟩ := bind_eq_ok.mp h
    cases h
    obtain ⟨hdepth, hwritten⟩ := le_of_toJson v hx
    obtain ⟨hdepths, hwrittens⟩ := le_of_toJsonItems rest hxs
    exact ⟨max_le hdepth hdepths, max_le hwritten hwrittens⟩

theorem le_of_toJsonMembers (members : List (Text × Value)) {d : ℕ}
    {js : List (Text × Json)} (h : toJsonMembers d members = .ok js) :
    depthMembers members ≤ d ∧ depthMembers (ofJsonMembers js) ≤ d := by
  cases members with
  | nil =>
    cases h
    exact ⟨Nat.zero_le d, Nat.zero_le d⟩
  | cons m rest =>
    obtain ⟨_ | b, v⟩ := m
    · obtain ⟨x, hx, h⟩ := bind_eq_ok.mp h
      obtain ⟨xs, hxs, h⟩ := bind_eq_ok.mp h
      cases h
      obtain ⟨hdepth, hwritten⟩ := le_of_toJson v hx
      obtain ⟨hdepths, hwrittens⟩ := le_of_toJsonMembers rest hxs
      exact ⟨max_le hdepth hdepths, max_le hwritten hwrittens⟩
    · cases h

end

mutual

/-- Where the budget is large enough, its size makes no difference. -/
theorem toJson_congr (v : Value) {d e : ℕ} (hd : v.depth ≤ d) (he : v.depth ≤ e) :
    v.toJson d = v.toJson e := by
  obtain ⟨d, rfl⟩ := Nat.exists_eq_add_of_le' (v.one_le_depth.trans hd)
  obtain ⟨e, rfl⟩ := Nat.exists_eq_add_of_le' (v.one_le_depth.trans he)
  cases v with
  | list items | tuple items =>
    rw [toJson, toJson, toJsonItems_congr items (Nat.le_of_succ_le_succ hd)
      (Nat.le_of_succ_le_succ he)]
  | dict members | record type members =>
    rw [toJson, toJson, toJsonMembers_congr members (Nat.le_of_succ_le_succ hd)
      (Nat.le_of_succ_le_succ he)]
  | tagged tag content =>
    rw [toJson, toJson, toJson_congr content (Nat.le_of_succ_le_succ hd)
      (Nat.le_of_succ_le_succ he)]
  | blob form data => cases form <;> rfl
  | _ => rfl

theorem toJsonItems_congr (items : List Value) {d e : ℕ} (hd : depthItems items ≤ d)
    (he : depthItems items ≤ e) : toJsonItems d items = toJsonItems e items := by
  cases items with
  | nil => rfl
  | cons v rest =>
    obtain ⟨hdv, hdrest⟩ := max_le_iff.mp hd
    obtain ⟨hev, herest⟩ := max_le_iff.mp he
    rw [toJsonItems, toJsonItems, toJson_congr v hdv hev, toJsonItems_congr rest hdrest herest]

theorem toJsonMembers_congr (members : List (Text × Value)) {d e : ℕ}
    (hd : depthMembers members ≤ d) (he : depthMembers members ≤ e) :
    toJsonMembers d members = toJsonMembers e members := by
  cases members with
  | nil => rfl
  | cons m rest =>
    obtain ⟨_ | b, v⟩ := m
    · obtain ⟨hdv, hdrest⟩ := max_le_iff.mp hd
      obtain ⟨hev, herest⟩ := max_le_iff.mp he
      rw [toJsonMembers, toJsonMembers, toJson_congr v hdv hev,
        toJsonMembers_congr rest hdrest herest]
    · rfl

end

/-- What is written with a budget is written alike with a larger one. -/
theorem toJson_of_le {v : Value} {j : Json} (h : v.toJson d = .ok j) (hle : d ≤ e) :
    v.toJson e = .ok j := by
  have hdepth := (le_of_toJson v h).1
  rw [← toJson_congr v hdepth (hdepth.trans hle), h]

theorem toJsonItems_of_le {items : List Value} {js : List Json} (h : toJsonItems d items = .ok js)
    (hle : d ≤ e) : toJsonItems e items = .ok js := by
  have hdepth := (le_of_toJsonItems items h).1
  rw [← toJsonItems_congr items hdepth (hdepth.trans hle), h]

theorem toJsonMembers_of_le {members : List (Text × Value)} {js : List (Text × Json)}
    (h : toJsonMembers d members = .ok js) (hle : d ≤ e) : toJsonMembers e members = .ok js := by
  have hdepth := (le_of_toJsonMembers members h).1
  rw [← toJsonMembers_congr members hdepth (hdepth.trans hle), h]

end Value

namespace Abi

def Parameter.KeptWithin (d : ℕ) (p : Parameter) : Prop := ∀ m ∈ p.extra, m.2.depth ≤ d

structure Function.KeptWithin (d : ℕ) (f : Function) : Prop where
  extra : ∀ m ∈ f.extra, m.2.depth ≤ d
  parameters : ∀ p ∈ f.parameters, p.KeptWithin d

structure KeptWithin (d : ℕ) (abi : Abi) : Prop where
  extra : ∀ m ∈ abi.extra, m.2.depth ≤ d
  functions : ∀ f ∈ abi.functions, f.KeptWithin d

theorem Parameter.keptWithin_of_toJson {p : Parameter} {j : Json} (h : p.toJson = .ok j) :
    p.KeptWithin nestingLimit := by
  obtain ⟨js, hjs, -⟩ := bind_eq_ok.mp h
  exact Value.depthMembers_le.mp (Value.le_of_toJsonMembers _ hjs).1

theorem Function.keptWithin_of_toJson {f : Function} {j : Json} (h : f.toJson = .ok j) :
    f.KeptWithin nestingLimit := by
  obtain ⟨parameters, hparameters, h⟩ := bind_eq_ok.mp h
  obtain ⟨js, hjs, -⟩ := bind_eq_ok.mp h
  refine ⟨Value.depthMembers_le.mp (Value.le_of_toJsonMembers _ hjs).1, fun p hp => ?_⟩
  obtain ⟨x, -, hx⟩ := exists_of_forall₂ (mapM_eq_ok.mp hparameters) hp
  exact p.keptWithin_of_toJson hx

/-- An interface that has a document keeps no value that goes too deep. -/
theorem keptWithin_of_toJson {abi : Abi} {j : Json} (h : abi.toJson = .ok j) :
    abi.KeptWithin nestingLimit := by
  obtain ⟨functions, hfunctions, h⟩ := bind_eq_ok.mp h
  obtain ⟨js, hjs, -⟩ := bind_eq_ok.mp h
  refine ⟨Value.depthMembers_le.mp (Value.le_of_toJsonMembers _ hjs).1, fun f hf => ?_⟩
  obtain ⟨x, -, hx⟩ := exists_of_forall₂ (mapM_eq_ok.mp hfunctions) hf
  exact f.keptWithin_of_toJson hx

end Abi

end Bindery
