/-!
# Punycode

A text in ASCII: first its own ASCII characters, then, behind a hyphen, where the others go. They
are taken in the order of their code points; each is told by the count of steps since the one
before, where a step is a place in the text or, after the last place, the next code point. Counts
are written in base 36, with thresholds between digits that adapt to the counts so far.
-/

namespace Bindery.Text.Punycode

def digit (d : Nat) : Char := if d < 26 then Char.ofNat (97 + d) else Char.ofNat (22 + d)

/-- The threshold of the digit at position `k`, counted in steps of 36. -/
def threshold (bias k : Nat) : Nat :=
  if k ≤ bias then 1 else if bias + 26 ≤ k then 26 else k - bias

theorem threshold_pos (bias k : Nat) : 0 < threshold bias k := by
  unfold threshold
  split
  · omega
  · split <;> omega

def digits (bias k n : Nat) : List Char :=
  let t := threshold bias k
  if n < t then [digit n]
  else digit (t + (n - t) % (36 - t)) :: digits bias (k + 36) ((n - t) / (36 - t))
termination_by n
decreasing_by
  have ht := threshold_pos bias k
  have hle := Nat.div_le_self (n - threshold bias k) (36 - threshold bias k)
  omega

/-- Divides a count by 35 until it is small, with `k` raised by 36 for each division. -/
def shrink (n k : Nat) : Nat × Nat :=
  if h : 455 < n then shrink (n / 35) (k + 36) else (n, k)
termination_by n
decreasing_by exact Nat.div_lt_self (by omega) (by omega)

/-- The bias after the count `n`, when `placed` characters have their place. -/
def adapt (n placed : Nat) (isFirst : Bool) : Nat :=
  let n := if isFirst then n / 700 else n / 2
  let (n, k) := shrink (n + n / placed) 0
  k + 36 * n / (n + 38)

/-- What has been written, the count since then, and the characters that have their place. -/
structure State where
  written : List Char
  count : Nat
  bias : Nat
  placed : Nat

def State.pass (basic n : Nat) (s : State) (c : Char) : State :=
  if c.toNat < n then { s with count := s.count + 1 }
  else if c.toNat = n then
    { written := s.written ++ digits s.bias 36 s.count
      count := 0
      bias := adapt s.count (s.placed + 1) (s.placed = basic)
      placed := s.placed + 1 }
  else s

/-- Places the characters of the code points in rising order; the first could be `next`. -/
def State.place (basic : Nat) (cs : List Char) (next : Nat) (s : State) : List Nat → State
  | [] => s
  | n :: rest =>
    let s := { s with count := s.count + (n - next) * (s.placed + 1) }
    let s := cs.foldl (State.pass basic n) s
    State.place basic cs (n + 1) { s with count := s.count + 1 } rest

def isBasic (c : Char) : Bool := c.toNat < 0x80

def encode (cs : List Char) : List Char :=
  let basic := cs.filter isBasic
  let others := ((cs.filter (!isBasic ·)).map Char.toNat).mergeSort.eraseDups
  let s := State.place basic.length cs 0x80 ⟨[], 0, 72, basic.length⟩ others
  (if basic.isEmpty then [] else basic ++ ['-']) ++ s.written

end Bindery.Text.Punycode
