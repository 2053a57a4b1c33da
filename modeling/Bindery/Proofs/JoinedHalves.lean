import Bindery.Proofs.ValueDepth

/-!
# Halves of characters

A written text spells a surrogate by its unit, as it spells the two halves of a character beyond the
sixteen-bit ones. A high surrogate with a low one behind it is therefore read as one character. A
document comes back with such pairs joined in its texts, and comes back as it was if it has none.
-/

namespace Bindery.Json

/-- The code points as they are read from escapes: a high surrogate and the low one behind it are
the character of which they are the halves. -/
def joinPairs : List CodePoint → List CodePoint
  | .surrogate a :: .surrogate b :: rest =>
    if a.val < 0x400 ∧ 0x400 ≤ b.val then
      .char (joinSurrogates (0xd800 + a) (0xd800 + b)) :: joinPairs rest
    else .surrogate a :: joinPairs (.surrogate b :: rest)
  | p :: rest => p :: joinPairs rest
  | [] => []

theorem joinPairs_map_char (cs : List Char) : joinPairs (cs.map .char) = cs.map .char := by
  induction cs with
  | nil => rfl
  | cons c cs ih => rw [List.map_cons, joinPairs, ih]; nofun

/-- Somewhere a low surrogate stands right behind a high one. -/
def Paired (ps : List CodePoint) : Prop :=
  ∃ before a b after, ps = before ++ .surrogate a :: .surrogate b :: after ∧
    a.val < 0x400 ∧ 0x400 ≤ b.val

theorem paired_cons {p : CodePoint} {ps : List CodePoint} :
    Paired (p :: ps) ↔
      (∃ a b after, p = .surrogate a ∧ ps = .surrogate b :: after ∧
        a.val < 0x400 ∧ 0x400 ≤ b.val) ∨ Paired ps := by
  constructor
  · rintro ⟨before, a, b, after, heq, h⟩
    cases before with
    | nil =>
      obtain ⟨rfl, rfl⟩ := List.cons_eq_cons.mp heq
      exact .inl ⟨a, b, after, rfl, rfl, h⟩
    | cons q before =>
      obtain ⟨rfl, rfl⟩ := List.cons_eq_cons.mp heq
      exact .inr ⟨before, a, b, after, rfl, h⟩
  · rintro (⟨a, b, after, rfl, rfl, h⟩ | ⟨before, a, b, after, rfl, h⟩)
    · exact ⟨[], a, b, after, rfl, h⟩
    · exact ⟨p :: before, a, b, after, rfl, h⟩

theorem joinPairs_eq_iff {ps : List CodePoint} : joinPairs ps = ps ↔ ¬ Paired ps := by
  induction ps using joinPairs.induct with
  | case1 a b rest h ih =>
    have hpaired : Paired (.surrogate a :: .surrogate b :: rest) := ⟨[], a, b, rest, rfl, h⟩
    rw [joinPairs, if_pos h]
    exact iff_of_false (fun heq => by cases heq) (not_not_intro hpaired)
  | case2 a b rest h ih =>
    rw [joinPairs, if_neg h, List.cons_eq_cons, and_iff_right rfl, ih,
      paired_cons (p := .surrogate a)]
    refine not_congr (or_iff_right ?_).symm
    rintro ⟨a', b', after, ha, hb, h'⟩
    cases ha
    cases hb
    exact h h'
  | case3 p rest hnot ih =>
    rw [joinPairs.eq_2 _ _ hnot, List.cons_eq_cons, and_iff_right rfl, ih, paired_cons]
    refine not_congr (or_iff_right ?_).symm
    rintro ⟨a, b, after, ha, hb, -⟩
    exact hnot a b after ha hb
  | case4 =>
    refine iff_of_true rfl ?_
    rintro ⟨before, a, b, after, heq, -⟩
    exact List.append_ne_nil_of_right_ne_nil before (List.cons_ne_nil _ _) heq.symm

def joinText (t : Text) : Text := .ofPoints (joinPairs t.points)

theorem joinText_of_isWhole {t : Text} (h : t.isWhole) : joinText t = t := by
  cases t with
  | whole s => rw [joinText, Text.points_whole, joinPairs_map_char, ← Text.points_whole,
      Text.ofPoints_points]
  | broken b => cases h

instance (ps : List CodePoint) : Decidable (Paired ps) :=
  decidable_of_iff (joinPairs ps ≠ ps) (by rw [ne_eq, joinPairs_eq_iff, not_not])

theorem joinText_eq_iff {t : Text} : joinText t = t ↔ ¬ Paired t.points := by
  rw [← joinPairs_eq_iff, ← Text.points_injective.eq_iff, joinText, Text.points_ofPoints]

mutual

def joined : Json → Json
  | .str t => .str (joinText t)
  | .arr items => .arr (joinedItems items)
  | .obj members => .obj (joinedMembers members)
  | v => v

def joinedItems : List Json → List Json
  | [] => []
  | x :: rest => joined x :: joinedItems rest

def joinedMembers : List (Text × Json) → List (Text × Json)
  | [] => []
  | (name, x) :: rest => (name, joined x) :: joinedMembers rest

end

theorem map_fst_joinedMembers (members : List (Text × Json)) :
    (joinedMembers members).map Prod.fst = members.map Prod.fst := by
  induction members with
  | nil => rfl
  | cons m rest ih => rw [joinedMembers, List.map_cons, ih, List.map_cons]

theorem isWhole_joinedMembers {members : List (Text × Json)} (h : ∀ m ∈ members, m.1.isWhole) :
    ∀ m ∈ joinedMembers members, m.1.isWhole := by
  intro m hm
  have hname := map_fst_joinedMembers members ▸ List.mem_map_of_mem hm
  obtain ⟨m', hm', heq⟩ := List.mem_map.mp hname
  exact heq ▸ h m' hm'

mutual

theorem plain_joined (j : Json) (h : j.Plain) : j.joined.Plain := by
  cases j with
  | arr items => exact plainItems_joinedItems items h
  | obj members =>
    obtain ⟨hnames, hwhole, hmembers⟩ := h
    have hfst := map_fst_joinedMembers members
    exact ⟨hfst ▸ hnames, isWhole_joinedMembers hwhole,
      plainMembers_joinedMembers members hmembers⟩
  | _ => exact h

theorem plainItems_joinedItems (items : List Json) (h : PlainItems items) :
    PlainItems (joinedItems items) := by
  cases items with
  | nil => trivial
  | cons x rest => exact ⟨plain_joined x h.1, plainItems_joinedItems rest h.2⟩

theorem plainMembers_joinedMembers (members : List (Text × Json)) (h : PlainMembers members) :
    PlainMembers (joinedMembers members) := by
  cases members with
  | nil => trivial
  | cons m rest => exact ⟨plain_joined m.2 h.1, plainMembers_joinedMembers rest h.2⟩

end

mutual

theorem hasLongInteger_joined (j : Json) : j.joined.hasLongInteger = j.hasLongInteger := by
  cases j with
  | arr items => exact anyLongInteger_joinedItems items
  | obj members => exact anyLongMember_joinedMembers members
  | _ => rfl

theorem anyLongInteger_joinedItems (items : List Json) :
    anyLongInteger (joinedItems items) = anyLongInteger items := by
  cases items with
  | nil => rfl
  | cons x rest =>
    rw [joinedItems, anyLongInteger, hasLongInteger_joined x, anyLongInteger_joinedItems rest,
      anyLongInteger]

theorem anyLongMember_joinedMembers (members : List (Text × Json)) :
    anyLongMember (joinedMembers members) = anyLongMember members := by
  cases members with
  | nil => rfl
  | cons m rest =>
    rw [joinedMembers, anyLongMember, hasLongInteger_joined m.2, anyLongMember_joinedMembers rest,
      anyLongMember]

end

mutual

theorem nesting_joined (j : Json) : j.joined.nesting = j.nesting := by
  cases j with
  | arr items => rw [joined, nesting, nestingItems_joinedItems items, nesting]
  | obj members => rw [joined, nesting, nestingMembers_joinedMembers members, nesting]
  | _ => rfl

theorem nestingItems_joinedItems (items : List Json) :
    nestingItems (joinedItems items) = nestingItems items := by
  cases items with
  | nil => rfl
  | cons x rest =>
    rw [joinedItems, nestingItems, nesting_joined x, nestingItems_joinedItems rest, nestingItems]

theorem nestingMembers_joinedMembers (members : List (Text × Json)) :
    nestingMembers (joinedMembers members) = nestingMembers members := by
  cases members with
  | nil => rfl
  | cons m rest =>
    rw [joinedMembers, nestingMembers, nesting_joined m.2, nestingMembers_joinedMembers rest,
      nestingMembers]

end

mutual

theorem depth_joined (j : Json) : (Value.ofJson j.joined).depth = (Value.ofJson j).depth := by
  cases j with
  | arr items => exact congrArg (· + 1) (depthItems_joinedItems items)
  | obj members => exact congrArg (· + 1) (depthMembers_joinedMembers members)
  | _ => rfl

theorem depthItems_joinedItems (items : List Json) :
    Value.depthItems (Value.ofJsonItems (joinedItems items)) =
      Value.depthItems (Value.ofJsonItems items) := by
  cases items with
  | nil => rfl
  | cons x rest => exact congrArg₂ max (depth_joined x) (depthItems_joinedItems rest)

theorem depthMembers_joinedMembers (members : List (Text × Json)) :
    Value.depthMembers (Value.ofJsonMembers (joinedMembers members)) =
      Value.depthMembers (Value.ofJsonMembers members) := by
  cases members with
  | nil => rfl
  | cons m rest => exact congrArg₂ max (depth_joined m.2) (depthMembers_joinedMembers rest)

end

mutual

/-- Some text in the document, as a value and not as a name, has a high surrogate with a low one
right behind it. -/
def HasPair : Json → Prop
  | .str t => Paired t.points
  | .arr items => AnyPair items
  | .obj members => AnyPairMember members
  | _ => False

def AnyPair : List Json → Prop
  | [] => False
  | x :: rest => HasPair x ∨ AnyPair rest

def AnyPairMember : List (Text × Json) → Prop
  | [] => False
  | (_, x) :: rest => HasPair x ∨ AnyPairMember rest

end

mutual

def decidableHasPair : (j : Json) → Decidable j.HasPair
  | .str t => inferInstanceAs (Decidable (Paired t.points))
  | .arr items => decidableAnyPair items
  | .obj members => decidableAnyPairMember members
  | .null | .bool _ | .int _ | .float _ => .isFalse id

def decidableAnyPair : (items : List Json) → Decidable (AnyPair items)
  | [] => .isFalse id
  | x :: rest =>
    have := decidableHasPair x
    have := decidableAnyPair rest
    inferInstanceAs (Decidable (_ ∨ _))

def decidableAnyPairMember : (members : List (Text × Json)) → Decidable (AnyPairMember members)
  | [] => .isFalse id
  | (_, x) :: rest =>
    have := decidableHasPair x
    have := decidableAnyPairMember rest
    inferInstanceAs (Decidable (_ ∨ _))

end

instance (j : Json) : Decidable j.HasPair := j.decidableHasPair

mutual

/-- A document is left as it is when joined just if there is nothing to join. -/
theorem joined_eq_iff (j : Json) : j.joined = j ↔ ¬ j.HasPair := by
  cases j with
  | str t =>
    rw [joined, str.injEq]
    exact joinText_eq_iff
  | arr items =>
    rw [joined, arr.injEq]
    exact joinedItems_eq_iff items
  | obj members =>
    rw [joined, obj.injEq]
    exact joinedMembers_eq_iff members
  | _ => exact iff_of_true rfl id

theorem joinedItems_eq_iff (items : List Json) : joinedItems items = items ↔ ¬ AnyPair items := by
  cases items with
  | nil => exact iff_of_true rfl id
  | cons x rest =>
    rw [joinedItems, List.cons_eq_cons, joined_eq_iff x, joinedItems_eq_iff rest, AnyPair, not_or]

theorem joinedMembers_eq_iff (members : List (Text × Json)) :
    joinedMembers members = members ↔ ¬ AnyPairMember members := by
  cases members with
  | nil => exact iff_of_true rfl id
  | cons m rest =>
    rw [joinedMembers, List.cons_eq_cons, Prod.mk.injEq, and_iff_right rfl, joined_eq_iff m.2,
      joinedMembers_eq_iff rest, AnyPairMember, not_or]

end

end Bindery.Json
