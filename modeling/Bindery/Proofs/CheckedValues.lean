import Bindery.Proofs.ReadDocuments
import Bindery.Abi.Check

/-!
# Interfaces share the properties of what they are made of

The check of an interface takes a value apart and puts some of the parts together again, the
declared members in front. A property that a value shares with its parts is therefore one of the
interface if it is one of the value, or of all documents that are read.
-/

namespace Bindery

/-- A property that values have just when their parts do, in mappings that repeat no name. -/
structure Value.Shared (P : Value → Prop) : Prop where
  text : ∀ s, P (.text s)
  byte : ∀ b : UInt8, P (.int b.toNat)
  list : ∀ items, P (.list items) ↔ ∀ v ∈ items, P v
  tuple : ∀ items, P (.tuple items) ↔ ∀ v ∈ items, P v
  dict : ∀ members, P (.dict members) ↔ (members.map Prod.fst).Nodup ∧ ∀ m ∈ members, P m.2
  record : ∀ type members,
    P (.record type members) ↔ (members.map Prod.fst).Nodup ∧ ∀ m ∈ members, P m.2

variable {P : Value → Prop}

theorem Value.Shared.of_sequence? (hP : Shared P) {v : Value} {vs : List Value} (hv : P v)
    (h : v.sequence? = some vs) : ∀ x ∈ vs, P x := by
  unfold sequence? at h
  split at h
  · cases h
    exact (hP.list _).mp hv
  · cases h
    exact (hP.tuple _).mp hv
  · cases h
    intro x hx
    obtain ⟨b, -, rfl⟩ := List.mem_map.mp hx
    exact hP.byte b
  · cases h
    intro x hx
    obtain ⟨m, hm, rfl⟩ := List.mem_map.mp hx
    refine (hP.tuple _).mpr (List.forall_mem_cons.mpr ⟨hP.text m.1, ?_⟩)
    exact List.forall_mem_singleton.mpr (((hP.record _ _).mp hv).2 m hm)
  · cases h

theorem Json.of_member? {name : Text} {members : List (Text × Value)} {v : Value}
    (hmembers : ∀ m ∈ members, P m.2) (h : Json.member? name members = some v) : P v := by
  obtain ⟨m, hm, rfl⟩ := Option.map_eq_some_iff.mp h
  exact hmembers m (List.mem_of_find?_eq_some hm)

namespace Checked

variable {α β : Type}

theorem both_eq_ok {a : Checked α} {b : Checked β} {x : α} {y : β} :
    both a b = .ok (x, y) ↔ a = .ok x ∧ b = .ok y := by
  cases a <;> cases b <;> simp [both]

/-- Where a value with the property passes the check, `good` holds of what it gives. -/
def Gives (P : Value → Prop) (check : List Step → Value → Checked α) (good : α → Prop) : Prop :=
  ∀ place v x, P v → check place v = .ok x → good x

variable {check : List Step → Value → Checked α} {good : α → Prop}

theorem Gives.all (h : Gives P check good) {place : List Step} {start : ℕ} {vs : List Value}
    {xs : List α} (hvs : ∀ v ∈ vs, P v)
    (hxs : all (fun i => check (place ++ [.index i])) start vs = .ok xs) : ∀ x ∈ xs, good x := by
  induction vs generalizing start xs with
  | nil =>
    cases hxs
    exact List.forall_mem_nil _
  | cons v vs ih =>
    obtain ⟨hv, hrest⟩ := List.forall_mem_cons.mp hvs
    obtain ⟨⟨y, ys⟩, hboth, rfl⟩ := map_eq_ok.mp hxs
    obtain ⟨hy, hys⟩ := both_eq_ok.mp hboth
    exact List.forall_mem_cons.mpr ⟨h _ v y hv hy, ih hrest hys⟩

theorem Gives.items (hP : Value.Shared P) (h : Gives P check good) :
    Gives P (items · check) fun xs => ∀ x ∈ xs, good x := by
  intro place v xs hv hxs
  change Checked.items place check v = .ok xs at hxs
  unfold Checked.items at hxs
  split at hxs
  · rename_i vs heq
    exact h.all (hP.of_sequence? hv heq) hxs
  · cases hxs

theorem Gives.member (h : Gives P check good) {place : List Step} {name : String}
    {members : List (Text × Value)} {x : α} (hmembers : ∀ m ∈ members, P m.2)
    (hx : Checked.member place name check members = .ok x) : good x := by
  unfold Checked.member at hx
  split at hx
  · rename_i v heq
    exact h _ v x (Json.of_member? hmembers heq) hx
  · cases hx

theorem Gives.memberD (h : Gives P check good) {place : List Step} {name : String} {default : α}
    (hdefault : good default) {members : List (Text × Value)} {x : α}
    (hmembers : ∀ m ∈ members, P m.2)
    (hx : Checked.memberD place name check default members = .ok x) : good x := by
  unfold Checked.memberD at hx
  split at hx
  · rename_i v heq
    exact h _ v x (Json.of_member? hmembers heq) hx
  · cases hx
    exact hdefault

theorem named_of_whole {place : List Step} {check : List (Text × Value) → Checked α}
    {members : List (Text × Value)} (h : ∀ m ∈ members, m.1.isWhole) :
    named place check members = check members :=
  if_pos (List.all_eq_true.mpr h)

theorem named_eq_ok {place : List Step} {check : List (Text × Value) → Checked α}
    {members : List (Text × Value)} {x : α} (h : named place check members = .ok x) :
    (∀ m ∈ members, m.1.isWhole) ∧ check members = .ok x := by
  unfold named at h
  split at h
  · rename_i hall
    exact ⟨List.all_eq_true.mp hall, h⟩
  · cases h

theorem object_eq_ok (hP : Value.Shared P) {place : List Step} {model : String} {v : Value}
    {check : List (Text × Value) → Checked α} {x : α} (hv : P v)
    (h : object place model v (.named place check) = .ok x) :
    ∃ members, (members.map Prod.fst).Nodup ∧ (∀ m ∈ members, P m.2) ∧ check members = .ok x := by
  unfold object at h
  split at h
  · obtain ⟨hnames, hmembers⟩ := (hP.dict _).mp hv
    exact ⟨_, hnames, hmembers, (named_eq_ok h).2⟩
  · split at h
    · obtain ⟨hnames, hmembers⟩ := (hP.record _ _).mp hv
      exact ⟨_, hnames, hmembers, (named_eq_ok h).2⟩
    · cases h
  · cases h

end Checked

namespace Abi

/-- Two declared members in front of those that are kept make a record with the property. -/
theorem shared_record (hP : Value.Shared P) {type : RecordType} {a b : Text} (hab : a ≠ b)
    {x y : Value} (hx : P x) (hy : P y) {members : List (Text × Value)}
    (hnames : (members.map Prod.fst).Nodup) (hmembers : ∀ m ∈ members, P m.2) :
    P (.record type ((a, x) :: (b, y) :: extraOf [a, b] members)) := by
  have hkept : ∀ name ∈ (extraOf [a, b] members).map Prod.fst, name ∉ [a, b] := by
    intro name hname
    obtain ⟨m, hm, rfl⟩ := List.mem_map.mp hname
    exact of_decide_eq_true (List.mem_filter.mp hm).2
  have hsub : ((extraOf [a, b] members).map Prod.fst).Nodup :=
    (List.filter_sublist.map Prod.fst).nodup hnames
  refine (hP.record _ _).mpr ⟨List.nodup_cons.mpr ⟨?_, List.nodup_cons.mpr ⟨?_, hsub⟩⟩, ?_⟩
  · rintro (_ | ⟨_, ha⟩)
    · exact hab rfl
    · exact hkept a ha (by simp)
  · exact fun hb => hkept b hb (by simp)
  · refine List.forall_mem_cons.mpr ⟨hx, List.forall_mem_cons.mpr ⟨hy, fun m hm => ?_⟩⟩
    exact hmembers m (List.mem_filter.mp hm).1

theorem shared_list {α : Type} (hP : Value.Shared P) {f : α → Value} {xs : List α}
    (h : ∀ x ∈ xs, P (f x)) : P (.list (xs.map f)) :=
  (hP.list _).mpr fun v hv => by
    obtain ⟨x, hx, rfl⟩ := List.mem_map.mp hv
    exact h x hx

theorem Parameter.gives (hP : Value.Shared P) :
    Checked.Gives P Parameter.check fun p => P p.toValue := by
  intro place v p hv hp
  obtain ⟨members, hnames, hmembers, hp⟩ := Checked.object_eq_ok hP hv hp
  obtain ⟨⟨name, type⟩, -, rfl⟩ := map_eq_ok.mp hp
  exact shared_record hP (by decide) (hP.text name) (hP.text type) hnames hmembers

theorem Function.gives (hP : Value.Shared P) :
    Checked.Gives P Function.check fun f => P f.toValue := by
  intro place v f hv hf
  obtain ⟨members, hnames, hmembers, hf⟩ := Checked.object_eq_ok hP hv hf
  obtain ⟨⟨name, parameters⟩, hboth, rfl⟩ := map_eq_ok.mp hf
  obtain ⟨-, hparameters⟩ := Checked.both_eq_ok.mp hboth
  have hall := ((Parameter.gives hP).items hP).memberD (List.forall_mem_nil _) hmembers hparameters
  exact shared_record hP (by decide) (hP.text name) (shared_list hP hall) hnames hmembers

theorem shared_ofMembers (hP : Value.Shared P) {members : List (Text × Value)} {abi : Abi}
    (hnames : (members.map Prod.fst).Nodup) (hmembers : ∀ m ∈ members, P m.2)
    (h : ofMembers members = .ok abi) : P abi.toValue := by
  obtain ⟨-, h⟩ := Checked.named_eq_ok (mapError_eq_ok.mp h)
  obtain ⟨⟨hash, functions⟩, hboth, rfl⟩ := map_eq_ok.mp h
  obtain ⟨-, hfunctions⟩ := Checked.both_eq_ok.mp hboth
  have hall := ((Function.gives hP).items hP).member hmembers hfunctions
  exact shared_record hP (by decide) (hP.text hash) (shared_list hP hall) hnames hmembers

theorem shared_ofValue (hP : Value.Shared P) {v : Value} {abi : Abi} (hv : P v)
    (h : ofValue v = .ok abi) : P abi.toValue := by
  unfold ofValue at h
  split at h
  · obtain ⟨hnames, hmembers⟩ := (hP.dict _).mp hv
    exact shared_ofMembers hP hnames hmembers h
  · cases h

section Documents

variable {levels : ℕ} (hP : Value.Shared P)
  (hread : ∀ {ps j}, Json.documentOfPoints levels ps = .ok j → P (.ofJson j))

include hP hread

theorem shared_ofText {t : Text} {abi : Abi} (h : ofText levels t = .ok abi) : P abi.toValue := by
  obtain ⟨j, hj, h⟩ := bind_eq_ok.mp h
  have hj := mapError_eq_ok.mp hj
  unfold Json.parse at hj
  split at hj
  · cases hj
  · exact shared_ofValue hP (hread hj) h

theorem shared_ofBytes {b : Bytes} {abi : Abi} (h : ofBytes levels b = .ok abi) :
    P abi.toValue := by
  obtain ⟨j, hj, h⟩ := bind_eq_ok.mp h
  have hj := mapError_eq_ok.mp hj
  unfold Json.parseBytes at hj
  split at hj
  · cases hj
  · exact shared_ofValue hP (hread hj) h

/-- Wherever an interface has come from, it shares the property. -/
theorem shared_parse {v : Value} {abi : Abi} (hv : P v) (h : parse levels v = .ok abi) :
    P abi.toValue := by
  unfold parse at h
  split at h
  · obtain ⟨hnames, hmembers⟩ := (hP.dict _).mp hv
    exact shared_ofMembers hP hnames hmembers h
  · unfold ofSource at h
    split at h
    · exact shared_ofText hP hread h
    · split at h
      · exact shared_ofBytes hP hread h
      · exact shared_ofBytes hP hread h
      · cases h

end Documents

end Abi

end Bindery
