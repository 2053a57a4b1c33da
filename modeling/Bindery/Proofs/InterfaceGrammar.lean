import Bindery.Proofs.KeptDocument

/-!
# The grammar of interface documents

A document is an interface when it has a text as its hash and an array of functions, each an object
with a text as its name and, if it lists parameters, an array of objects with the texts of a name
and a type, and when the members of all these objects have whole names. The check takes just these
documents, and what it makes of one has the names, types and
kinds of the document in its order. Of any other document it names every place at which the document
leaves the grammar, each once, in the order in which members are declared and items stand.

A check that is made at some place is judged by its `Verdict`, which does not depend on the place.
There is one lemma for each way to put checks together.
-/

namespace Bindery

/-- The order in which a check goes into the parts of a document. -/
inductive Step.Before : Step → Step → Prop
  | functions : Before (.name "hash") (.name "functions")
  | parameters : Before (.name "name") (.name "parameters")
  | type : Before (.name "name") (.name "type")
  | index {i j : ℕ} (h : i < j) : Before (.index i) (.index j)

/-- The order of places in a document, by the first step in which they differ. -/
abbrev Place.Before : List Step → List Step → Prop := List.Lex Step.Before

theorem Step.Before.ne {s t : Step} (h : s.Before t) : s ≠ t := by
  cases h with
  | functions => decide
  | parameters => decide
  | type => decide
  | index h => simpa using Nat.ne_of_lt h

theorem Place.Before.ne {a b : List Step} (h : Place.Before a b) : a ≠ b := by
  induction h with
  | nil => exact (List.cons_ne_nil _ _).symm
  | cons _ ih => simpa using ih
  | rel h => exact fun heq => h.ne (List.head_eq_of_cons_eq heq)

def Violation.within (place : List Step) (v : Violation) : Violation := ⟨place ++ v.place, v.rule⟩

theorem Violation.within_within (a b : List Step) (v : Violation) :
    (v.within b).within a = v.within (a ++ b) := by
  rw [within, within, within, List.append_assoc]

namespace Json

def IsText (j : Json) : Prop := ∃ t, j = .str t

def IsArrayOf (P : Json → Prop) (j : Json) : Prop := ∃ items, j = .arr items ∧ ∀ x ∈ items, P x

def WholeNames (members : List (Text × Json)) : Prop := ∀ m ∈ members, m.1.isWhole

def IsObjectWith (P : List (Text × Json) → Prop) (j : Json) : Prop :=
  ∃ members, j = .obj members ∧ WholeNames members ∧ P members

def HasMember (name : String) (P : Json → Prop) (members : List (Text × Json)) : Prop :=
  ∃ j, member? name members = some j ∧ P j

def MayHaveMember (name : String) (P : Json → Prop) (members : List (Text × Json)) : Prop :=
  ∀ j, member? name members = some j → P j

end Json

namespace Checked

open Json (IsText IsArrayOf WholeNames IsObjectWith HasMember MayHaveMember)

/-- What a check says, at any place: either it accepts something in the grammar and gives what that
describes, or it names all faults in their order. -/
inductive Verdict {α : Type} (grammar : Prop) (describes : α → Prop) (fault : Violation → Prop)
    (check : List Step → Checked α) : Prop
  | accepted (x : α) (hgrammar : grammar) (hcheck : ∀ place, check place = .ok x)
      (hdescribes : describes x) (hfault : ∀ v, ¬ fault v)
  | refused (vs : List Violation) (hgrammar : ¬ grammar)
      (hcheck : ∀ place, check place = .error (vs.map (·.within place)))
      (hordered : vs.Pairwise fun v w => Place.Before v.place w.place)
      (hfault : ∀ v, v ∈ vs ↔ fault v)

variable {α β : Type} {G G₁ G₂ : Prop} {B B₁ B₂ : Violation → Prop} {D : α → Prop}
  {check : List Step → Checked α}

/-- A check that breaks one rule itself. -/
theorem Verdict.broken (rule : Rule) (hgrammar : ¬ G)
    (hcheck : ∀ place, check place = violation place rule) (hfault : ∀ v, B v ↔ v = ⟨[], rule⟩) :
    Verdict G D B check := by
  refine .refused [⟨[], rule⟩] hgrammar (fun place => ?_) (List.pairwise_singleton _ _) fun v => ?_
  · rw [hcheck, violation, List.map_singleton, Violation.within, List.append_nil]
  · rw [hfault, List.mem_singleton]

theorem Verdict.congr {D' : α → Prop} (h : Verdict G₁ D B₁ check) (hgrammar : G₁ ↔ G₂)
    (hdescribes : ∀ x, D x → D' x) (hfault : ∀ v, B₁ v ↔ B₂ v) : Verdict G₂ D' B₂ check := by
  cases h with
  | accepted x hg hcheck hx hnone =>
    exact .accepted x (hgrammar.mp hg) hcheck (hdescribes x hx) fun v =>
      mt (hfault v).mpr (hnone v)
  | refused vs hg hcheck hordered hmem =>
    exact .refused vs (mt hgrammar.mpr hg) hcheck hordered fun v => (hmem v).trans (hfault v)

theorem Verdict.map {D' : β → Prop} (h : Verdict G D B check) (f : α → β)
    (hf : ∀ x, D x → D' (f x)) : Verdict G D' B fun place => (check place).map f := by
  cases h with
  | accepted x hg hcheck hx hnone =>
    exact .accepted (f x) hg (fun place => by rw [hcheck]; rfl) (hf x hx) hnone
  | refused vs hg hcheck hordered hmem =>
    exact .refused vs hg (fun place => by rw [hcheck]; rfl) hordered hmem

/-- A check one step further down. -/
theorem Verdict.under (h : Verdict G D B check) (s : Step) :
    Verdict G D (fun v => ∃ w, B w ∧ v = w.within [s]) fun place => check (place ++ [s]) := by
  cases h with
  | accepted x hg hcheck hx hnone =>
    refine .accepted x hg (fun place => hcheck _) hx ?_
    rintro v ⟨w, hw, -⟩
    exact hnone w hw
  | refused vs hg hcheck hordered hmem =>
    refine .refused (vs.map (·.within [s])) hg (fun place => ?_) ?_ fun v => ?_
    · rw [hcheck, List.map_map]
      refine congrArg Except.error (List.map_congr_left fun v _ => ?_)
      exact (Violation.within_within place [s] v).symm
    · exact List.pairwise_map.mpr (hordered.imp .cons)
    · rw [List.mem_map]
      exact exists_congr fun w => and_congr (hmem w) eq_comm

/-- Two checks in a row, where all faults of the first stand before those of the second. -/
theorem Verdict.both {D₁ : α → Prop} {D₂ : β → Prop} {check₁ : List Step → Checked α}
    {check₂ : List Step → Checked β} (h₁ : Verdict G₁ D₁ B₁ check₁) (h₂ : Verdict G₂ D₂ B₂ check₂)
    (hbefore : ∀ v w, B₁ v → B₂ w → Place.Before v.place w.place) :
    Verdict (G₁ ∧ G₂) (fun p : α × β => D₁ p.1 ∧ D₂ p.2) (fun v => B₁ v ∨ B₂ v)
      fun place => Checked.both (check₁ place) (check₂ place) := by
  cases h₁ with
  | accepted x hg₁ hcheck₁ hx hnone₁ =>
    cases h₂ with
    | accepted y hg₂ hcheck₂ hy hnone₂ =>
      refine .accepted (x, y) ⟨hg₁, hg₂⟩ (fun place => ?_) ⟨hx, hy⟩ fun v => ?_
      · rw [hcheck₁, hcheck₂, Checked.both]
      · exact not_or.mpr ⟨hnone₁ v, hnone₂ v⟩
    | refused ws hg₂ hcheck₂ hordered₂ hmem₂ =>
      refine .refused ws (fun h => hg₂ h.2) (fun place => ?_) hordered₂ fun v => ?_
      · rw [hcheck₁, hcheck₂, Checked.both]
      · rw [hmem₂, or_iff_right (hnone₁ v)]
  | refused vs hg₁ hcheck₁ hordered₁ hmem₁ =>
    cases h₂ with
    | accepted y hg₂ hcheck₂ hy hnone₂ =>
      refine .refused vs (fun h => hg₁ h.1) (fun place => ?_) hordered₁ fun v => ?_
      · rw [hcheck₁, hcheck₂, Checked.both]
      · rw [hmem₁, or_iff_left (hnone₂ v)]
    | refused ws hg₂ hcheck₂ hordered₂ hmem₂ =>
      refine .refused (vs ++ ws) (fun h => hg₁ h.1) (fun place => ?_) ?_ fun v => ?_
      · rw [hcheck₁, hcheck₂, Checked.both, List.map_append]
      · refine List.pairwise_append.mpr ⟨hordered₁, hordered₂, fun v hv w hw => ?_⟩
        exact hbefore v w ((hmem₁ v).mp hv) ((hmem₂ w).mp hw)
      · rw [List.mem_append, hmem₁, hmem₂]

def TextFault (j : Json) (v : Violation) : Prop := ¬ IsText j ∧ v = ⟨[], .text⟩

inductive ArrayFault (fault : Json → Violation → Prop) : Json → Violation → Prop
  | array {j : Json} (h : ∀ items, j ≠ .arr items) : ArrayFault fault j ⟨[], .list⟩
  | item {items : List Json} {i : ℕ} {x : Json} {v : Violation} (hx : items[i]? = some x)
      (hv : fault x v) : ArrayFault fault (.arr items) (v.within [.index i])

/-- A broken name is the one fault of its object. -/
def MembersFault (fault : List (Text × Json) → Violation → Prop) (members : List (Text × Json))
    (v : Violation) : Prop :=
  ¬ WholeNames members ∧ v = ⟨[], .unicodeText⟩ ∨ WholeNames members ∧ fault members v

inductive ObjectFault (model : String) (fault : List (Text × Json) → Violation → Prop) :
    Json → Violation → Prop
  | object {j : Json} (h : ∀ members, j ≠ .obj members) :
      ObjectFault model fault j ⟨[], .object model⟩
  | members {members : List (Text × Json)} {v : Violation} (hv : MembersFault fault members v) :
      ObjectFault model fault (.obj members) v

def ValueFault (name : String) (fault : Json → Violation → Prop) (members : List (Text × Json))
    (v : Violation) : Prop :=
  ∃ j w, Json.member? name members = some j ∧ fault j w ∧ v = w.within [.name name]

/-- A fault in the value of a member that has to be there, or that it is not. -/
def MemberFault (name : String) (fault : Json → Violation → Prop) (members : List (Text × Json))
    (v : Violation) : Prop :=
  Json.member? name members = none ∧ v = ⟨[.name name], .present⟩ ∨ ValueFault name fault members v

theorem verdict_text (j : Json) :
    Verdict (IsText j) (fun s => j = .str s) (TextFault j) (Checked.text · (.ofJson j)) := by
  by_cases h : IsText j
  · obtain ⟨s, rfl⟩ := h
    exact .accepted s ⟨s, rfl⟩ (fun _ => rfl) rfl fun v hv => hv.1 ⟨s, rfl⟩
  · refine .broken .text h (fun place => ?_) fun v => and_iff_right h
    cases j with
    | str s => exact absurd ⟨s, rfl⟩ h
    | null | bool _ | int _ | float _ | arr _ | obj _ => rfl

variable {P : Json → Prop} {R : Json → α → Prop} {F : Json → Violation → Prop}
  {step : List Step → Value → Checked α}

def Judges (step : List Step → Value → Checked α) (P : Json → Prop) (R : Json → α → Prop)
    (F : Json → Violation → Prop) : Prop :=
  ∀ j, Verdict (P j) (R j) (F j) (step · (.ofJson j))

theorem Judges.value (h : Judges step P R F) {name : String} {members : List (Text × Json)}
    {j : Json} (hj : Json.member? name members = some j) :
    Verdict (P j) (R j) (ValueFault name F members)
      fun place => step (place ++ [.name name]) (.ofJson j) := by
  refine ((h j).under (.name name)).congr Iff.rfl (fun _ => id) fun v => ?_
  constructor
  · rintro ⟨w, hw, hv⟩
    exact ⟨j, w, hj, hw, hv⟩
  · rintro ⟨j', w, hj', hw, hv⟩
    obtain rfl := Option.some.inj (hj.symm.trans hj')
    exact ⟨w, hw, hv⟩

theorem Judges.member (h : Judges step P R F) (name : String) (members : List (Text × Json)) :
    Verdict (HasMember name P members) (fun x => ∃ j, Json.member? name members = some j ∧ R j x)
      (MemberFault name F members)
      (Checked.member · name step (Value.ofJsonMembers members)) := by
  have hlookup := Value.member?_ofJsonMembers name members
  cases hj : Json.member? name members with
  | none =>
    have hcheck : (Checked.member · name step (Value.ofJsonMembers members)) =
        fun place => violation (place ++ [.name name]) .present := by
      funext place
      rw [Checked.member, hlookup, hj]
      rfl
    have hnot : ¬ HasMember name P members := by
      rintro ⟨j, hj', -⟩
      exact absurd (hj.symm.trans hj') (by simp)
    have hbroken : Verdict (HasMember name P members)
        (fun x => ∃ j, Json.member? name members = some j ∧ R j x) (· = ⟨[], .present⟩)
        (violation · .present : List Step → Checked α) :=
      .broken .present hnot (fun _ => rfl) fun _ => Iff.rfl
    rw [hcheck, ← hj]
    refine (hbroken.under (.name name)).congr Iff.rfl (fun _ => id) fun v => ?_
    simp [MemberFault, ValueFault, hj, Violation.within]
  | some j =>
    have hcheck : (Checked.member · name step (Value.ofJsonMembers members)) =
        fun place => step (place ++ [.name name]) (.ofJson j) := by
      funext place
      rw [Checked.member, hlookup, hj]
      rfl
    rw [hcheck]
    refine (h.value hj).congr ?_ (fun x hx => ⟨j, rfl, hx⟩) fun v => ?_
    · simp [HasMember, hj]
    · simp [MemberFault, hj]

theorem Judges.memberD (h : Judges step P R F) (name : String) (default : α)
    (members : List (Text × Json)) :
    Verdict (MayHaveMember name P members)
      (fun x => Json.member? name members = none ∧ x = default ∨
        ∃ j, Json.member? name members = some j ∧ R j x)
      (ValueFault name F members)
      (Checked.memberD · name step default (Value.ofJsonMembers members)) := by
  have hlookup := Value.member?_ofJsonMembers name members
  cases hj : Json.member? name members with
  | none =>
    refine .accepted default ?_ (fun place => ?_) (.inl ⟨rfl, rfl⟩) ?_
    · intro j hj'
      exact absurd (hj.symm.trans hj') (by simp)
    · rw [Checked.memberD, hlookup, hj]
      rfl
    · rintro v ⟨j, w, hj', -⟩
      exact absurd (hj.symm.trans hj') (by simp)
  | some j =>
    have hcheck : (Checked.memberD · name step default (Value.ofJsonMembers members)) =
        fun place => step (place ++ [.name name]) (.ofJson j) := by
      funext place
      rw [Checked.memberD, hlookup, hj]
      rfl
    rw [hcheck]
    refine (h.value hj).congr ?_ (fun x hx => .inr ⟨j, rfl, hx⟩) fun v => Iff.rfl
    simp [MayHaveMember, hj]

/-- A fault in an item, where the first item has the index `start`. -/
def ItemFault (fault : Json → Violation → Prop) (start : ℕ) (items : List Json) (v : Violation) :
    Prop :=
  ∃ i x w, items[i]? = some x ∧ fault x w ∧ v = w.within [.index (start + i)]

theorem itemFault_cons {start : ℕ} {x : Json} {rest : List Json} {v : Violation} :
    ItemFault F start (x :: rest) v ↔
      (∃ w, F x w ∧ v = w.within [.index start]) ∨ ItemFault F (start + 1) rest v := by
  constructor
  · rintro ⟨i, y, w, hy, hw, hv⟩
    cases i with
    | zero =>
      obtain rfl : x = y := by simpa using hy
      exact .inl ⟨w, hw, hv⟩
    | succ i =>
      have hindex : start + (i + 1) = start + 1 + i := by omega
      exact .inr ⟨i, y, w, by simpa using hy, hw, hindex ▸ hv⟩
  · rintro (⟨w, hw, hv⟩ | ⟨i, y, w, hy, hw, hv⟩)
    · exact ⟨0, x, w, rfl, hw, hv⟩
    · have hindex : start + (i + 1) = start + 1 + i := by omega
      exact ⟨i + 1, y, w, by simpa using hy, hw, hindex ▸ hv⟩

theorem Judges.all (h : Judges step P R F) (start : ℕ) (items : List Json) :
    Verdict (∀ x ∈ items, P x) (List.Forall₂ R items) (ItemFault F start items) fun place =>
      Checked.all (fun i => step (place ++ [.index i])) start (Value.ofJsonItems items) := by
  induction items generalizing start with
  | nil =>
    refine .accepted [] (List.forall_mem_nil _) (fun _ => rfl) .nil ?_
    rintro v ⟨i, x, w, hx, -⟩
    simp at hx
  | cons x rest ih =>
    have hboth := ((h x).under (.index start)).both (ih (start + 1)) ?_
    · refine (hboth.map (fun p : α × List α => p.1 :: p.2) fun p hp => .cons hp.1 hp.2).congr
        List.forall_mem_cons.symm (fun _ => id) fun v => itemFault_cons.symm
    · rintro v w ⟨v', -, rfl⟩ ⟨i, y, w', -, -, rfl⟩
      exact .rel (.index (by omega))

theorem Judges.items (h : Judges step P R F) :
    Judges (Checked.items · step) (IsArrayOf P)
      (fun j xs => ∃ items, j = .arr items ∧ List.Forall₂ R items xs) (ArrayFault F) := by
  intro j
  by_cases harray : ∃ items, j = .arr items
  · obtain ⟨items, rfl⟩ := harray
    refine (h.all 0 items).congr ?_ (fun xs hxs => ⟨items, rfl, hxs⟩) fun v => ?_
    · simp [IsArrayOf]
    · constructor
      · rintro ⟨i, x, w, hx, hw, rfl⟩
        rw [Nat.zero_add]
        exact .item hx hw
      · intro hv
        cases hv with
        | array h => exact absurd rfl (h items)
        | item hx hw => exact ⟨_, _, _, hx, hw, by rw [Nat.zero_add]⟩
  · have hnot : ∀ items, j ≠ .arr items := not_exists.mp harray
    refine .broken .list (fun ⟨items, hj, _⟩ => hnot items hj) (fun place => ?_) fun v => ?_
    · cases j with
      | arr items => exact absurd rfl (hnot items)
      | null | bool _ | int _ | float _ | str _ | obj _ => rfl
    · constructor
      · intro hv
        cases hv with
        | array _ => rfl
        | item _ _ => exact absurd rfl (hnot _)
      · rintro rfl
        exact .array hnot

theorem verdict_named {G : Prop} {D : α → Prop} {fault : List (Text × Json) → Violation → Prop}
    {members : List (Text × Json)} {inside : List Step → List (Text × Value) → Checked α}
    (h : Verdict G D (fault members) (inside · (Value.ofJsonMembers members))) :
    Verdict (WholeNames members ∧ G) D (MembersFault fault members)
      fun place => Checked.named place (inside place) (Value.ofJsonMembers members) := by
  by_cases hwhole : WholeNames members
  · have hcheck : (fun place => Checked.named place (inside place) (Value.ofJsonMembers members)) =
        (inside · (Value.ofJsonMembers members)) :=
      funext fun place => Abi.named_ofJsonMembers hwhole
    rw [hcheck]
    refine h.congr (and_iff_right hwhole).symm (fun _ => id) fun v => ?_
    simp [MembersFault, hwhole]
  · refine .broken .unicodeText (fun h => hwhole h.1) (fun place => ?_) fun v => ?_
    · rw [Checked.named, if_neg]
      intro hall
      refine hwhole fun m hm => ?_
      have hname := (Json.map_fst_ofJsonMembers members).symm ▸ List.mem_map_of_mem hm
      obtain ⟨m', hm', heq⟩ := List.mem_map.mp hname
      exact heq ▸ List.all_eq_true.mp hall m' hm'
    · simp [MembersFault, hwhole]

theorem judges_object {Q : List (Text × Json) → Prop} {S : List (Text × Json) → α → Prop}
    {F : List (Text × Json) → Violation → Prop}
    {inside : List Step → List (Text × Value) → Checked α}
    (h : ∀ members, Verdict (Q members) (S members) (F members)
      (inside · (Value.ofJsonMembers members))) (model : String) :
    Judges (fun place v => Checked.object place model v (.named place (inside place)))
      (IsObjectWith Q)
      (fun j x => ∃ members, j = .obj members ∧ S members x) (ObjectFault model F) := by
  intro j
  by_cases hobject : ∃ members, j = .obj members
  · obtain ⟨members, rfl⟩ := hobject
    refine (verdict_named (h members)).congr ?_ (fun x hx => ⟨members, rfl, hx⟩) fun v => ?_
    · simp [IsObjectWith]
    · refine ⟨.members, fun hv => ?_⟩
      cases hv with
      | object h => exact absurd rfl (h members)
      | members hv => exact hv
  · have hnot : ∀ members, j ≠ .obj members := not_exists.mp hobject
    refine .broken (.object model) (fun ⟨members, hj, _⟩ => hnot members hj) (fun place => ?_)
      fun v => ?_
    · cases j with
      | obj members => exact absurd rfl (hnot members)
      | null | bool _ | int _ | float _ | str _ | arr _ => rfl
    · constructor
      · intro hv
        cases hv with
        | object _ => rfl
        | members _ => exact absurd rfl (hnot _)
      · rintro rfl
        exact .object hnot

/-- All faults in a value stand below the name of the member. -/
theorem exists_place_of_valueFault {name : String} {members : List (Text × Json)} {v : Violation}
    (h : ValueFault name F members v) : ∃ rest, v.place = .name name :: rest := by
  obtain ⟨j, w, -, -, rfl⟩ := h
  exact ⟨w.place, rfl⟩

theorem exists_place_of_memberFault {name : String} {members : List (Text × Json)}
    {v : Violation} (h : MemberFault name F members v) : ∃ rest, v.place = .name name :: rest := by
  rcases h with ⟨-, rfl⟩ | h
  · exact ⟨[], rfl⟩
  · exact exists_place_of_valueFault h

theorem before_of_step {s t : Step} (hst : s.Before t) {a b : List Step}
    (ha : ∃ rest, a = s :: rest) (hb : ∃ rest, b = t :: rest) : Place.Before a b := by
  obtain ⟨_, rfl⟩ := ha
  obtain ⟨_, rfl⟩ := hb
  exact .rel hst

end Checked

namespace Abi

open Checked
open Json (IsText IsArrayOf WholeNames IsObjectWith HasMember MayHaveMember)

/-- The kind of a type name: the one of that name, and `other` for a name that no kind has. -/
def KindOf (type : Text) (k : Kind) : Prop :=
  k ≠ .other ∧ k.typeName = type ∨ k = .other ∧ ∀ l : Kind, l ≠ .other → l.typeName ≠ type

theorem kindOf_ofTypeName (type : Text) : KindOf type (.ofTypeName type.shown) := by
  by_cases h : ∃ k : Kind, k ≠ .other ∧ k.typeName = type
  · obtain ⟨k, hk, rfl⟩ := h
    have hkind : Kind.ofTypeName (Text.whole k.typeName).shown = k := Kind.ofTypeName_typeName k
    rw [hkind]
    exact .inl ⟨hk, rfl⟩
  · refine .inr ⟨?_, fun l hl heq => h ⟨l, hl, heq⟩⟩
    rw [Kind.ofTypeName, List.find?_eq_none.mpr, Option.getD_none]
    intro k hk heq
    have hknown : ∀ k ∈ Kind.known, k ≠ .other ∧ '\ufffd' ∉ k.typeName.toList := by decide +kernel
    obtain ⟨hother, hplain⟩ := hknown k hk
    have hname : k.typeName = type.shown := of_decide_eq_true heq
    cases type with
    | whole s => exact h ⟨k, hother, congrArg Text.whole hname⟩
    | broken b => exact hplain (hname ▸ Text.replacement_mem_shown b)

/-- The documents of parameters, of functions and of interfaces. -/
def ParameterGrammar : Json → Prop :=
  IsObjectWith fun members => HasMember "name" IsText members ∧ HasMember "type" IsText members

def FunctionGrammar : Json → Prop :=
  IsObjectWith fun members =>
    HasMember "name" IsText members ∧
      MayHaveMember "parameters" (IsArrayOf ParameterGrammar) members

def Grammar (members : List (Text × Json)) : Prop :=
  WholeNames members ∧ HasMember "hash" IsText members ∧
    HasMember "functions" (IsArrayOf FunctionGrammar) members

structure DescribesParameter (members : List (Text × Json)) (p : Parameter) : Prop where
  name : Json.member? "name" members = some (.str p.name)
  type : Json.member? "type" members = some (.str p.type)
  kind : KindOf p.type p.kind

/-- The function that a document describes; without a list of parameters it has none. -/
structure DescribesFunction (members : List (Text × Json)) (f : Function) : Prop where
  name : Json.member? "name" members = some (.str f.name)
  parameters : ∃ items, (Json.member? "parameters" members).getD (.arr []) = .arr items ∧
    List.Forall₂ (fun j p => ∃ inner, j = .obj inner ∧ DescribesParameter inner p) items
      f.parameters

structure Describes (members : List (Text × Json)) (abi : Abi) : Prop where
  hash : Json.member? "hash" members = some (.str abi.hash)
  functions : ∃ items, Json.member? "functions" members = some (.arr items) ∧
    List.Forall₂ (fun j f => ∃ inner, j = .obj inner ∧ DescribesFunction inner f) items
      abi.functions

/-- Where a document of a parameter, a function or an interface leaves the grammar, and by which
rule. -/
def ParameterFault : Json → Violation → Prop :=
  ObjectFault "AbiParameter" fun members v =>
    MemberFault "name" TextFault members v ∨ MemberFault "type" TextFault members v

def FunctionFault : Json → Violation → Prop :=
  ObjectFault "AbiFunction" fun members v =>
    MemberFault "name" TextFault members v ∨
      ValueFault "parameters" (ArrayFault ParameterFault) members v

def Fault : List (Text × Json) → Violation → Prop :=
  MembersFault fun members v =>
    MemberFault "hash" TextFault members v ∨
      MemberFault "functions" (ArrayFault FunctionFault) members v

theorem judges_text : Judges Checked.text IsText (fun j s => j = .str s) TextFault := verdict_text

theorem Parameter.judged : Judges Parameter.check ParameterGrammar
    (fun j p => ∃ members, j = .obj members ∧ DescribesParameter members p) ParameterFault := by
  refine judges_object (fun members => ?_) "AbiParameter"
  have hboth := (judges_text.member "name" members).both (judges_text.member "type" members)
    fun v w hv hw => before_of_step .type (exists_place_of_memberFault hv)
      (exists_place_of_memberFault hw)
  refine hboth.map _ fun ⟨name, type⟩ ⟨⟨_, hname, heq⟩, _, htype, heq'⟩ => ?_
  subst heq heq'
  exact ⟨hname, htype, kindOf_ofTypeName type⟩

theorem Function.judged : Judges Function.check FunctionGrammar
    (fun j f => ∃ members, j = .obj members ∧ DescribesFunction members f) FunctionFault := by
  refine judges_object (fun members => ?_) "AbiFunction"
  have hboth := (judges_text.member "name" members).both
    (Parameter.judged.items.memberD "parameters" [] members)
    fun v w hv hw => before_of_step .parameters (exists_place_of_memberFault hv)
      (exists_place_of_valueFault hw)
  refine hboth.map _ fun ⟨name, parameters⟩ ⟨⟨_, hname, heq⟩, hparameters⟩ => ?_
  subst heq
  refine ⟨hname, ?_⟩
  rcases hparameters with ⟨hnone, heq⟩ | ⟨j, hj, items, heq, hall⟩
  · subst heq
    exact ⟨[], by rw [hnone]; rfl, .nil⟩
  · subst heq
    exact ⟨items, by rw [hj]; rfl, hall⟩

theorem verdict_check (members : List (Text × Json)) :
    Verdict (Grammar members) (Describes members) (Fault members)
      fun place => Checked.named place (fun members =>
        (Checked.both (.member place "hash" .text members)
          (.member place "functions" (.items · Function.check) members)).map
          fun (hash, functions) => ⟨hash, functions, extraOf ["hash", "functions"] members⟩)
        (Value.ofJsonMembers members) := by
  have hboth := (judges_text.member "hash" members).both
    (Function.judged.items.member "functions" members)
    fun v w hv hw => before_of_step .functions (exists_place_of_memberFault hv)
      (exists_place_of_memberFault hw)
  refine verdict_named (hboth.map _ ?_)
  rintro ⟨hash, functions⟩ ⟨⟨_, hhash, heq⟩, _, hfunctions, items, heq', hall⟩
  subst heq heq'
  exact ⟨hhash, items, hfunctions, hall⟩

/-- A document is read as an interface just when it is in the grammar, and then as the interface
that it describes. Else all its faults are named, at distinct places in their order. -/
theorem ofValue_reads_or_names_faults (members : List (Text × Json)) :
    (Grammar members ∧ ∃ abi, ofValue (.ofJson (.obj members)) = .ok abi ∧ Describes members abi) ∨
    (¬ Grammar members ∧ ∃ vs, ofValue (.ofJson (.obj members)) = .error (.abi (.invalid vs)) ∧
      (∀ v, v ∈ vs ↔ Fault members v) ∧ (vs.map (·.place)).Nodup ∧
      (vs.map (·.place)).Pairwise Place.Before) := by
  cases verdict_check members with
  | accepted abi hgrammar hcheck hdescribes _ =>
    exact .inl ⟨hgrammar, abi, mapError_eq_ok.mpr (hcheck []), hdescribes⟩
  | refused vs hgrammar hcheck hordered hfault =>
    have hplaces : (vs.map (·.place)).Pairwise Place.Before := List.pairwise_map.mpr hordered
    refine .inr ⟨hgrammar, vs, ?_, hfault, hplaces.imp Place.Before.ne, hplaces⟩
    have hwithin : vs.map (·.within []) = vs := List.map_id _
    have herror := hcheck []
    rw [hwithin] at herror
    exact congrArg (Except.mapError fun vs => Failure.abi (.invalid vs)) herror

/-- The missing hash comes first, then the functions by index, and in each its name first. -/
example :
    let functions : Json := .arr
      [.null, .obj [("parameters", .arr [.obj [("type", .int 1)]]), ("name", .arr [])]]
    (match ofValue (.ofJson (.obj [("functions", functions)])) with
      | .ok _ => none
      | .error e => e.violations?.map (·.map (·.place))) =
    some
      [ [.name "hash"], [.name "functions", .index 0], [.name "functions", .index 1, .name "name"],
        [.name "functions", .index 1, .name "parameters", .index 0, .name "name"],
        [.name "functions", .index 1, .name "parameters", .index 0, .name "type"] ] := rfl

end Abi

end Bindery
