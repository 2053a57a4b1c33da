import Bindery.Proofs.Conversion

/-!
# Arguments that conform to their kinds

What it means that an argument conforms is said of the value alone, kind by kind; values of no known
kind conform by their shape, to any depth. The check of an argument accepts those that conform and
go no deeper than there are levels.

A value of no known kind is gone through from left to right, so what it fails with depends on what
is met first: something that cannot be pushed, or a list below the last level.
-/

namespace Bindery

variable {levels : ℕ}

/-- The values that can be pushed by their own shape. -/
inductive Value.Plain : Value → Prop
  | address (a : Address) : Plain (.address a)
  | fixed (data : Bytes) : Plain (.blob .fixed data)
  | mutable (data : Bytes) : Plain (.blob .mutable data)
  | text (t : Text) : Plain (.text t)
  | kind (k : Kind) : Plain (.kind k)
  | bool (b : Bool) : Plain (.bool b)
  | int (n : Int) : Plain (.int n)
  | list {items : List Value} (h : ∀ v ∈ items, Plain v) : Plain (.list items)
  | tuple {items : List Value} (h : ∀ v ∈ items, Plain v) : Plain (.tuple items)

mutual

def Value.nesting : Value → ℕ
  | .list items | .tuple items => Value.nestingItems items + 1
  | _ => 0

def Value.nestingItems : List Value → ℕ
  | [] => 0
  | v :: rest => max v.nesting (Value.nestingItems rest)

end

theorem Value.nestingItems_le {d : ℕ} {items : List Value} :
    nestingItems items ≤ d ↔ ∀ v ∈ items, v.nesting ≤ d := by
  induction items with
  | nil => simp [nestingItems]
  | cons v rest ih => rw [nestingItems, Nat.max_le, ih, List.forall_mem_cons]

mutual

/-- A list without a level is met in the value, and nothing before it is out of order. -/
inductive Value.Overruns : ℕ → Value → Prop
  | list {levels : ℕ} {items : List Value} (h : Value.ItemsOverrun levels items) :
      Overruns levels (.list items)
  | tuple {levels : ℕ} {items : List Value} (h : Value.ItemsOverrun levels items) :
      Overruns levels (.tuple items)

inductive Value.ItemsOverrun : ℕ → List Value → Prop
  | here (items : List Value) : ItemsOverrun 0 items
  | item {levels : ℕ} {before after : List Value} {v : Value}
      (hbefore : ∀ w ∈ before, w.Plain ∧ w.nesting ≤ levels) (h : v.Overruns levels) :
      ItemsOverrun (levels + 1) (before ++ v :: after)

end

namespace Value

theorem plain_list_iff {items : List Value} : (list items).Plain ↔ ∀ v ∈ items, v.Plain := by
  constructor
  · intro h
    cases h with
    | list hitems => exact hitems
  · exact .list

theorem plain_tuple_iff {items : List Value} : (tuple items).Plain ↔ ∀ v ∈ items, v.Plain := by
  constructor
  · intro h
    cases h with
    | tuple hitems => exact hitems
  · exact .tuple

theorem overruns_list_iff {items : List Value} :
    (list items).Overruns levels ↔ ItemsOverrun levels items := by
  constructor
  · intro h
    cases h with
    | list hitems => exact hitems
  · exact .list

theorem overruns_tuple_iff {items : List Value} :
    (tuple items).Overruns levels ↔ ItemsOverrun levels items := by
  constructor
  · intro h
    cases h with
    | tuple hitems => exact hitems
  · exact .tuple

theorem itemsOverrun_succ_iff {items : List Value} :
    ItemsOverrun (levels + 1) items ↔ ∃ before v after, items = before ++ v :: after ∧
      (∀ w ∈ before, w.Plain ∧ w.nesting ≤ levels) ∧ v.Overruns levels := by
  constructor
  · intro h
    cases h with
    | item hbefore h => exact ⟨_, _, _, rfl, hbefore, h⟩
  · rintro ⟨before, v, after, rfl, hbefore, h⟩
    exact .item hbefore h

end Value

/-- The first element without a property splits a list. -/
theorem exists_first {α : Type} {p : α → Prop} {xs : List α} (h : ¬ ∀ x ∈ xs, p x) :
    ∃ before x after, xs = before ++ x :: after ∧ (∀ y ∈ before, p y) ∧ ¬ p x := by
  induction xs with
  | nil => exact absurd (List.forall_mem_nil p) h
  | cons x xs ih =>
    by_cases hx : p x
    · have hxs : ¬ ∀ y ∈ xs, p y := fun hall => h (List.forall_mem_cons.mpr ⟨hx, hall⟩)
      obtain ⟨before, y, after, rfl, hbefore, hy⟩ := ih hxs
      exact ⟨x :: before, y, after, rfl, List.forall_mem_cons.mpr ⟨hx, hbefore⟩, hy⟩
    · exact ⟨[], x, xs, rfl, List.forall_mem_nil p, hx⟩

/-- Among values that can be pushed, those that go too deep overrun. -/
theorem Value.Plain.overruns_of_lt {v : Value} (h : v.Plain) (hdeep : levels < v.nesting) :
    v.Overruns levels := by
  induction levels generalizing v with
  | zero =>
    cases h with
    | list _ => exact .list (.here _)
    | tuple _ => exact .tuple (.here _)
    | _ => exact absurd hdeep (Nat.lt_irrefl 0)
  | succ levels ih =>
    have hitems {items : List Value} (hplain : ∀ v ∈ items, v.Plain)
        (hdeep : levels + 1 < Value.nestingItems items + 1) :
        Value.ItemsOverrun (levels + 1) items := by
      have hsome : ¬ ∀ v ∈ items, v.nesting ≤ levels := by
        rw [← Value.nestingItems_le]
        omega
      obtain ⟨before, v, after, rfl, hbefore, hv⟩ := exists_first hsome
      have hv' := hplain v (List.mem_append_right before List.mem_cons_self)
      refine .item (fun w hw => ⟨?_, hbefore w hw⟩) (ih hv' (Nat.not_le.mp hv))
      exact hplain w (List.mem_append_left _ hw)
    cases h with
    | list hplain => exact .list (hitems hplain hdeep)
    | tuple hplain => exact .tuple (hitems hplain hdeep)
    | _ => exact absurd hdeep (Nat.not_lt_zero _)

namespace Argument

theorem untypedItems_eq_mapM (name : Text) (levels : ℕ) (items : List Value) :
    untypedItems name levels items = items.mapM (untyped name levels) := by
  induction items with
  | nil => rfl
  | cons v rest ih =>
    rw [untypedItems, ih, List.mapM_cons]

def listed (name : Text) (levels : ℕ) (items : List Value) : Except Failure Datum :=
  match levels with
  | 0 => .error (.misuse .deepArgument)
  | levels + 1 => (items.mapM (untyped name levels)).map .array

theorem untyped_list (name : Text) (levels : ℕ) (items : List Value) :
    untyped name levels (.list items) = listed name levels items := by
  cases levels with
  | zero => rw [untyped, listed]
  | succ levels => rw [untyped, untypedItems_eq_mapM, listed]

theorem untyped_tuple (name : Text) (levels : ℕ) (items : List Value) :
    untyped name levels (.tuple items) = listed name levels items := by
  cases levels with
  | zero => rw [untyped, listed]
  | succ levels => rw [untyped, untypedItems_eq_mapM, listed]

/-- What is pushed by its shape is so just if it can be and goes no deeper than there are levels. -/
theorem exists_untyped_iff {name : Text} {v : Value} :
    (∃ d, untyped name levels v = .ok d) ↔ v.Plain ∧ v.nesting ≤ levels := by
  induction levels using Nat.strongRecOn generalizing v with
  | ind levels ih =>
    have hitems (items : List Value) : (∃ d, listed name levels items = .ok d) ↔
        (∀ v ∈ items, v.Plain) ∧ Value.nestingItems items + 1 ≤ levels := by
      cases levels with
      | zero => exact iff_of_false (by rintro ⟨d, ⟨⟩⟩) fun h => Nat.not_succ_le_zero _ h.2
      | succ levels =>
        rw [listed, exists_map_eq_ok]
        simp only [mapM_eq_ok, exists_forall₂_iff, ih levels (Nat.lt_succ_self levels)]
        rw [Nat.add_le_add_iff_right, Value.nestingItems_le, ← forall₂_and]
    have hleaf : 0 ≤ levels := Nat.zero_le levels
    cases v with
    | list items => rw [untyped_list, hitems, Value.plain_list_iff, Value.nesting]
    | tuple items => rw [untyped_tuple, hitems, Value.plain_tuple_iff, Value.nesting]
    | address a => exact iff_of_true ⟨_, rfl⟩ ⟨.address a, hleaf⟩
    | text t => exact iff_of_true ⟨_, rfl⟩ ⟨.text t, hleaf⟩
    | kind k => exact iff_of_true ⟨_, rfl⟩ ⟨.kind k, hleaf⟩
    | bool b => exact iff_of_true ⟨_, rfl⟩ ⟨.bool b, hleaf⟩
    | int n => exact iff_of_true ⟨_, rfl⟩ ⟨.int n, hleaf⟩
    | blob form data =>
      cases form with
      | fixed => exact iff_of_true ⟨_, rfl⟩ ⟨.fixed data, hleaf⟩
      | mutable => exact iff_of_true ⟨_, rfl⟩ ⟨.mutable data, hleaf⟩
      | view => exact iff_of_false (by rintro ⟨d, ⟨⟩⟩) nofun
    | _ => exact iff_of_false (by rintro ⟨d, ⟨⟩⟩) nofun

section Failures

variable {p : Failure → Prop}

/-- Apart from what cannot be converted, a value fails only for going too deep. -/
theorem failsWith_untyped_iff (hdeep : p (.misuse .deepArgument))
    (hconversion : ∀ cause, ¬ p (.conversion cause)) {name : Text} {v : Value} :
    FailsWith p (untyped name levels v) ↔ v.Overruns levels := by
  induction levels using Nat.strongRecOn generalizing v with
  | ind levels ih =>
    have hitems (items : List Value) :
        FailsWith p (listed name levels items) ↔ Value.ItemsOverrun levels items := by
      cases levels with
      | zero => exact iff_of_true ⟨_, rfl, hdeep⟩ (.here items)
      | succ levels =>
        rw [listed, failsWith_map, failsWith_mapM, Value.itemsOverrun_succ_iff]
        simp only [ih levels (Nat.lt_succ_self levels), exists_untyped_iff]
    cases v with
    | list items => rw [untyped_list, hitems, Value.overruns_list_iff]
    | tuple items => rw [untyped_tuple, hitems, Value.overruns_tuple_iff]
    | blob form data =>
      cases form with
      | view => exact iff_of_false (failsWith_error.not.mpr (hconversion _)) nofun
      | _ => exact iff_of_false (not_failsWith_ok _) nofun
    | address _ | text _ | kind _ | bool _ | int _ =>
      exact iff_of_false (not_failsWith_ok _) nofun
    | _ => exact iff_of_false (failsWith_error.not.mpr (hconversion _)) nofun

end Failures

def Conforms (a : Argument) : Prop :=
  match a.kind with
  | .string => ∃ t, a.value.text? = some t
  | .integer | .int | .long => ∃ n, a.value = .int n
  | .boolean => ∃ b, a.value = .bool b
  | .byteArray => ∃ s data, a.value.text? = some (.whole s) ∧ Hex.decode? s = some data
  | .intArray | .longArray =>
    ∃ items, (a.value = .list items ∨ a.value = .tuple items) ∧ ∀ v ∈ items, ∃ n, v = .int n
  | .other => a.value.Plain

/-- Only values of no known kind can go too deep. -/
def Within (levels : ℕ) (a : Argument) : Prop := a.kind = .other → a.value.nesting ≤ levels

def Overruns (levels : ℕ) (a : Argument) : Prop := a.kind = .other ∧ a.value.Overruns levels

/-- An argument overruns, and those before it are in order. -/
def Overrun (levels : ℕ) (arguments : List Argument) : Prop :=
  ∃ before a after, arguments = before ++ a :: after ∧
    (∀ b ∈ before, b.Conforms ∧ b.Within levels) ∧ a.Overruns levels

theorem exists_integers_iff {items : List Value} :
    (∃ ds, items.mapM integer? = some ds) ↔ ∀ v ∈ items, ∃ n, v = .int n := by
  have hinteger (v : Value) : (∃ d, integer? v = some d) ↔ ∃ n, v = .int n := by
    cases v <;> simp [integer?]
  simp only [mapM_eq_some, exists_forall₂_iff, hinteger]

/-- An argument is accepted just when it conforms and does not go too deep. -/
theorem exists_datum_iff {a : Argument} :
    (∃ d, a.datum levels = .ok d) ↔ a.Conforms ∧ a.Within levels := by
  obtain ⟨name, kind, v⟩ := a
  cases kind with
  | other =>
    have hwithin : Within levels ⟨name, .other, v⟩ ↔ v.nesting ≤ levels := forall_prop_of_true rfl
    rw [hwithin]
    exact exists_untyped_iff
  | string =>
    simp only [datum, Conforms, Within]
    cases v.text? <;> simp
  | integer | int | long =>
    simp only [datum, Conforms, Within]
    cases v <;> simp
  | boolean =>
    simp only [datum, Conforms, Within]
    cases v <;> simp
  | byteArray =>
    simp only [datum, Conforms, Within]
    cases htext : v.text? with
    | none => simp
    | some t =>
      simp only [exists_map_eq_ok, hexBytes, htext, Option.bind_some, Option.some.injEq]
      cases t with
      | broken b => simp [Text.whole?, withLiteral_of_text htext]
      | whole s =>
        simp only [Text.whole?, Option.bind_some, Text.whole.injEq, exists_and_left,
          exists_eq_left']
        cases Hex.decode? s <;> simp [withLiteral_of_text htext]
  | intArray | longArray =>
    simp only [datum, Conforms, Within]
    have hitems : (∃ items, (v = .list items ∨ v = .tuple items) ∧ ∀ w ∈ items, ∃ n, w = .int n) ↔
        ∃ ds, ((items? v).bind fun vs => vs.mapM integer?) = some ds := by
      cases v <;> simp [items?, exists_integers_iff]
    rw [hitems]
    cases (items? v).bind fun vs => vs.mapM integer? <;> simp

theorem exists_data_iff {arguments : List Argument} :
    (∃ data, arguments.mapM (datum levels) = .ok data) ↔
      ∀ a ∈ arguments, a.Conforms ∧ a.Within levels := by
  simp only [mapM_eq_ok, exists_forall₂_iff, exists_datum_iff]

/-- Arguments of a known kind conform or are refused as what cannot be converted. -/
theorem converts_datum_of_ne {a : Argument} (h : a.kind ≠ .other) : Converts (a.datum levels) := by
  obtain ⟨name, kind, v⟩ := a
  cases kind with
  | other => exact absurd rfl h
  | byteArray =>
    simp only [datum]
    split
    · rename_i s hs
      exact (converts_hexBytes hs).map Datum.bytes
    · exact converts_error _
  | _ =>
    simp only [datum]
    split
    · exact onlyFails_ok _
    · exact converts_error _

section Failures

variable {p : Failure → Prop}

theorem failsWith_datum_iff (hdeep : p (.misuse .deepArgument))
    (hconversion : ∀ cause, ¬ p (.conversion cause)) {a : Argument} :
    FailsWith p (a.datum levels) ↔ a.Overruns levels := by
  by_cases hkind : a.kind = .other
  · have hdatum : a.datum levels = untyped a.name levels a.value := by rw [datum, hkind]
    rw [hdatum, failsWith_untyped_iff hdeep hconversion]
    exact (and_iff_right hkind).symm
  · have hconverts : Converts (a.datum levels) := converts_datum_of_ne hkind
    exact iff_of_false (hconverts.not_failsWith hconversion) fun h => hkind h.1

/-- Besides what cannot be converted, the check of the arguments fails just where one overruns. -/
theorem failsWith_data_iff (hdeep : p (.misuse .deepArgument))
    (hconversion : ∀ cause, ¬ p (.conversion cause)) {arguments : List Argument} :
    FailsWith p (arguments.mapM (datum levels)) ↔ Overrun levels arguments := by
  rw [failsWith_mapM]
  simp only [Overrun, exists_datum_iff, failsWith_datum_iff hdeep hconversion]

end Failures

/-- Arguments are refused as what cannot be converted unless one overruns. -/
theorem converts_data_iff {arguments : List Argument} :
    Converts (arguments.mapM (datum levels)) ↔ ¬ Overrun levels arguments := by
  have hdeep : ¬ Failure.IsConversion (.misuse .deepArgument) := by rintro ⟨cause, ⟨⟩⟩
  have hconversion (cause : ConversionError) :
      ¬ ¬ Failure.IsConversion (.conversion cause) := not_not.mpr ⟨cause, rfl⟩
  rw [← failsWith_data_iff (p := fun e => ¬ e.IsConversion) hdeep hconversion]
  simp only [Converts, OnlyFails, FailsWith, not_exists, not_and, not_not]

/-- Arguments that conform can fail for nothing but going too deep. -/
theorem within_of_not_overrun {arguments : List Argument} (hall : ∀ a ∈ arguments, a.Conforms)
    (h : ¬ Overrun levels arguments) : ∀ a ∈ arguments, a.Within levels := by
  by_contra hdeep
  obtain ⟨before, a, after, rfl, hbefore, ha⟩ := exists_first hdeep
  obtain ⟨hkind, hlt⟩ := Classical.not_imp.mp ha
  have hplain : a.Conforms := hall a (List.mem_append_right before List.mem_cons_self)
  rw [Conforms, hkind] at hplain
  have hconforms (b : Argument) (hb : b ∈ before) : b.Conforms :=
    hall b (List.mem_append_left _ hb)
  exact h ⟨before, a, after, rfl, fun b hb => ⟨hconforms b hb, hbefore b hb⟩, hkind,
    hplain.overruns_of_lt (Nat.not_le.mp hlt)⟩

end Argument

end Bindery
