import Mathlib.Tactic.SplitIfs
import Bindery.Proofs.TwosComplement

/-!
# The contract machine

The part of the machine that a script of pushes reaches: instructions that push a byte string or a
small integer, and the one that packs an array. An instruction is fetched from the front of the
script with its operand; the run ends when nothing is left of the script.

`run_push` is the correctness of the script writer: what is written for a datum, followed by any
script, runs as that script does with the datum on the stack.
-/

namespace Bindery

inductive Item
  | bytes (b : Bytes)
  | int (n : Int)
  | array (items : List Item)
  deriving Inhabited

def Item.integer? : Item → Option Int
  | .bytes b => some b.signed
  | .int n => some n
  | .array _ => none

namespace Machine

inductive Instruction
  | push (x : Item)
  | pack

def fetchBytes (n : Nat) (script : Bytes) : Option (Instruction × Bytes) :=
  if n ≤ script.length then some (.push (.bytes (script.take n)), script.drop n) else none

/-- The push of as many bytes as the next `width` bytes say. -/
def fetchCounted (width : Nat) (script : Bytes) : Option (Instruction × Bytes) :=
  if width ≤ script.length then
    fetchBytes (Bytes.toNatLittle (script.take width)) (script.drop width)
  else none

def fetch : Bytes → Option (Instruction × Bytes)
  | [] => none
  | op :: rest =>
    if op.toNat ≤ 0x4b then fetchBytes op.toNat rest
    else if op = 0x4c then fetchCounted 1 rest
    else if op = 0x4d then fetchCounted 2 rest
    else if op = 0x4e then fetchCounted 4 rest
    else if op = 0x4f then some (.push (.int (-1)), rest)
    else if 0x51 ≤ op.toNat ∧ op.toNat ≤ 0x60 then some (.push (.int (op.toNat - 0x50)), rest)
    else if op = 0xc1 then some (.pack, rest)
    else none

/-- One instruction on a stack, which is given from the top. Packing pops a count and as many items,
of which the first popped becomes the first of the array. -/
def execute : Instruction → List Item → Option (List Item)
  | .push x, stack => some (x :: stack)
  | .pack, [] => none
  | .pack, count :: stack =>
    match count.integer? with
    | none => none
    | some n =>
      if 0 ≤ n ∧ n.toNat ≤ stack.length then
        some (.array (stack.take n.toNat) :: stack.drop n.toNat)
      else none

theorem fetchBytes_length {n : Nat} {script rest : Bytes} {i : Instruction}
    (h : fetchBytes n script = some (i, rest)) : rest.length ≤ script.length := by
  unfold fetchBytes at h
  split_ifs at h
  obtain ⟨-, rfl⟩ := Prod.mk.inj (Option.some.inj h)
  exact List.length_drop ▸ Nat.sub_le _ _

theorem fetchCounted_length {width : Nat} {script rest : Bytes} {i : Instruction}
    (h : fetchCounted width script = some (i, rest)) : rest.length ≤ script.length := by
  unfold fetchCounted at h
  split_ifs at h
  exact (fetchBytes_length h).trans (List.length_drop ▸ Nat.sub_le _ _)

theorem fetch_length {script rest : Bytes} {i : Instruction}
    (h : fetch script = some (i, rest)) : rest.length < script.length := by
  cases script with
  | nil => simp [fetch] at h
  | cons op tail =>
    apply Nat.lt_succ_of_le
    simp only [fetch] at h
    split_ifs at h
    · exact fetchBytes_length h
    · exact fetchCounted_length h
    · exact fetchCounted_length h
    · exact fetchCounted_length h
    all_goals
      obtain ⟨-, rfl⟩ := Prod.mk.inj (Option.some.inj h)
      exact le_rfl

def run : Bytes → List Item → Option (List Item)
  | [], stack => some stack
  | op :: tail, stack =>
    match _h : fetch (op :: tail) with
    | none => none
    | some (i, rest) =>
      match execute i stack with
      | none => none
      | some stack => run rest stack
termination_by script => script.length
decreasing_by exact fetch_length _h

@[simp] theorem run_nil (stack : List Item) : run [] stack = some stack := by rw [run]

theorem run_of_fetch {script rest : Bytes} {i : Instruction} {stack next : List Item}
    (hf : fetch script = some (i, rest)) (he : execute i stack = some next) :
    run script stack = run rest next := by
  cases script with
  | nil => cases hf
  | cons op tail =>
    rw [run]
    split
    · rename_i h
      rw [hf] at h
      cases h
    · rename_i h
      rw [hf] at h
      cases h
      rw [he]

theorem fetchBytes_append (b rest : Bytes) :
    fetchBytes b.length (b ++ rest) = some (.push (.bytes b), rest) := by
  simp [fetchBytes]

theorem fetchCounted_append {width : Nat} (b rest : Bytes) (h : b.length < 256 ^ width) :
    fetchCounted width (Bytes.littleEndian width b.length ++ (b ++ rest)) =
      some (.push (.bytes b), rest) := by
  have hwidth := Bytes.length_littleEndian width b.length
  have hcount : Bytes.toNatLittle (Bytes.littleEndian width b.length) = b.length :=
    (Bytes.toNatLittle_littleEndian width b.length).trans (Nat.mod_eq_of_lt h)
  unfold fetchCounted
  rw [if_pos (by simp), List.take_left' hwidth, List.drop_left' hwidth, hcount, fetchBytes_append]

theorem fetch_one (rest : Bytes) : fetch (0x4c :: rest) = fetchCounted 1 rest := rfl

theorem fetch_two (rest : Bytes) : fetch (0x4d :: rest) = fetchCounted 2 rest := rfl

theorem fetch_four (rest : Bytes) : fetch (0x4e :: rest) = fetchCounted 4 rest := rfl

open Script

/-- The prefix of a byte string selects the instruction that takes just that byte string. -/
theorem fetch_pushBytes {b : Bytes} (rest : Bytes) (h : fits b) :
    fetch (pushBytes b ++ rest) = some (.push (.bytes b), rest) := by
  have hlimit : b.length < 256 ^ 4 := of_decide_eq_true h
  rw [pushBytes, List.append_assoc]
  unfold pushPrefix
  split_ifs with hdirect hone htwo
  · have hop : (UInt8.ofNat b.length).toNat = b.length :=
      UInt8.toNat_ofNat_of_lt' (hdirect.trans (by decide))
    rw [List.singleton_append]
    simp only [fetch, hop]
    rw [if_pos (by omega), fetchBytes_append]
  · exact (fetch_one _).trans (fetchCounted_append b rest hone)
  · exact (fetch_two _).trans (fetchCounted_append b rest htwo)
  · exact (fetch_four _).trans (fetchCounted_append b rest hlimit)

theorem run_pushBytes {b : Bytes} (rest : Bytes) (stack : List Item) (h : fits b) :
    run (pushBytes b ++ rest) stack = run rest (.bytes b :: stack) :=
  run_of_fetch (fetch_pushBytes rest h) rfl

def ofInt (n : Int) : Item :=
  if n = 0 then .bytes []
  else if -1 ≤ n ∧ n < 16 then .int n
  else .bytes (integerBytes n)

theorem integer?_ofInt (n : Int) : (ofInt n).integer? = some n := by
  unfold ofInt
  split_ifs with hzero
  · exact hzero ▸ rfl
  · rfl
  · exact congrArg some (signed_integerBytes n)

theorem fetch_small {n : Int} (rest : Bytes) (h : 0 < n ∧ n < 16) :
    fetch (UInt8.ofNat (0x50 + n.toNat) :: rest) = some (.push (.int n), rest) := by
  have hsize : 0x50 + n.toNat < UInt8.size := by change 0x50 + n.toNat < 256; omega
  have hop : (UInt8.ofNat (0x50 + n.toNat)).toNat = 0x50 + n.toNat :=
    UInt8.toNat_ofNat_of_lt' hsize
  have hne (c : UInt8) (hc : c.toNat < 0x51) : UInt8.ofNat (0x50 + n.toNat) ≠ c := by
    intro he
    have := congrArg UInt8.toNat he
    omega
  simp only [fetch, hop]
  rw [if_neg (by omega), if_neg (hne _ (by decide)), if_neg (hne _ (by decide)),
    if_neg (hne _ (by decide)), if_neg (hne _ (by decide)), if_pos (by omega)]
  congr 4
  omega

theorem run_pushInt {n : Int} (rest : Bytes) (stack : List Item) (h : fits (integerBytes n)) :
    run (pushInt n ++ rest) stack = run rest (ofInt n :: stack) := by
  unfold pushInt ofInt
  by_cases hminus : n = -1
  · subst hminus
    exact run_of_fetch rfl rfl
  · by_cases hzero : n = 0
    · subst hzero
      exact run_of_fetch rfl rfl
    · rw [if_neg hminus, if_neg hzero, if_neg hzero]
      by_cases hsmall : 0 < n ∧ n < 16
      · rw [if_pos hsmall, if_pos (by omega)]
        exact run_of_fetch (fetch_small rest hsmall) rfl
      · rw [if_neg hsmall, if_neg (by omega)]
        exact run_pushBytes rest stack h

mutual

def ofDatum : Datum → Item
  | .bytes b => .bytes b
  | .broken _ => .bytes []
  | .bool b => if b then .int 1 else .bytes []
  | .int n => ofInt n
  | .array items => .array (ofData items)

def ofData : List Datum → List Item
  | [] => []
  | x :: rest => ofDatum x :: ofData rest

end

@[simp] theorem length_ofData (items : List Datum) : (ofData items).length = items.length := by
  induction items with
  | nil => rfl
  | cons x rest ih => simp [ofData, ih]

/-- A count packs exactly the items that have been pushed for an array. -/
theorem execute_pack (items : List Datum) (stack : List Item) :
    execute .pack (ofInt items.length :: (ofData items ++ stack)) =
      some (.array (ofData items) :: stack) := by
  have hlength := length_ofData items
  simp only [execute, integer?_ofInt, Int.toNat_natCast]
  rw [if_pos ⟨Int.natCast_nonneg _, by simp⟩, List.take_left' hlength, List.drop_left' hlength]

mutual

/-- What is written for a datum leaves its item on the stack and goes on with the rest. -/
theorem run_push {d : Datum} (rest : Bytes) (stack : List Item) (h : pushable d) :
    run (push d ++ rest) stack = run rest (ofDatum d :: stack) := by
  cases d with
  | bytes b => exact run_pushBytes rest stack h
  | broken b => cases h
  | bool b => cases b <;> exact run_of_fetch rfl rfl
  | int n => exact run_pushInt rest stack h
  | array items =>
    obtain ⟨hitems, hcount⟩ := Bool.and_eq_true_iff.mp h
    rw [push, List.append_assoc, List.append_assoc, run_pushItems _ stack hitems,
      run_pushInt _ _ hcount]
    exact run_of_fetch rfl (execute_pack items stack)

/-- The items are pushed from last to first, so that the first is on top. -/
theorem run_pushItems {items : List Datum} (rest : Bytes) (stack : List Item)
    (h : pushableItems items) :
    run (pushItems items ++ rest) stack = run rest (ofData items ++ stack) := by
  cases items with
  | nil => rfl
  | cons x tail =>
    obtain ⟨hx, htail⟩ := Bool.and_eq_true_iff.mp h
    rw [pushItems, List.append_assoc, run_pushItems _ stack htail, run_push _ _ hx]
    rfl

end

end Machine

end Bindery
