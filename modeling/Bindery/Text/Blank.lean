import Bindery.Text.CodePoint

/-!
# Blank characters

`isBlank` is the Unicode class of white space together with the four ASCII separators U+001C to
U+001F. `isAsciiBlank` holds the six ASCII characters that every number reader skips.
-/

namespace Bindery.Text

def isAsciiBlank (c : Char) : Bool :=
  c = ' ' || (0x9 ≤ c.toNat && c.toNat ≤ 0xd)

def isBlank (c : Char) : Bool :=
  let n := c.toNat
  (0x9 ≤ n && n ≤ 0xd) || (0x1c ≤ n && n ≤ 0x20) || n = 0x85 || n = 0xa0 || n = 0x1680
    || (0x2000 ≤ n && n ≤ 0x200a) || n = 0x2028 || n = 0x2029 || n = 0x202f || n = 0x205f
    || n = 0x3000

theorem isBlank_of_isAsciiBlank {c : Char} (h : isAsciiBlank c) : isBlank c := by
  simp only [isAsciiBlank, isBlank, Bool.or_eq_true, Bool.and_eq_true, decide_eq_true_eq] at h ⊢
  rcases h with rfl | h
  · decide
  · simp [h]

def trimEndChars (cs : List Char) : List Char := (cs.reverse.dropWhile isBlank).reverse

def trimEnd (s : String) : String := String.ofList (trimEndChars s.toList)

/-- The separators that end a line; a carriage return takes a line feed after it along. -/
def isLineEnd (c : Char) : Bool :=
  let n := c.toNat
  (0xa ≤ n && n ≤ 0xd) || (0x1c ≤ n && n ≤ 0x1e) || n = 0x85 || n = 0x2028 || n = 0x2029

/-- The lines of a text, each with the separator that ends it. -/
def lines : List CodePoint → List (List CodePoint)
  | [] => []
  | .char '\r' :: .char '\n' :: rest => [.char '\r', .char '\n'] :: lines rest
  | p :: rest =>
    if isLineEnd p.shown then [p] :: lines rest
    else
      match lines rest with
      | [] => [[p]]
      | line :: more => (p :: line) :: more

/-- Alternating runs: as many non-blanks as there are, then as many blanks, again and again. -/
def words : List CodePoint → List (List CodePoint)
  | [] => []
  | p :: rest =>
    match words rest with
    | [] => [[p]]
    | word :: more =>
      match word with
      | [] => [p] :: more
      | q :: _ =>
        if isBlank p.shown && !isBlank q.shown then [p] :: word :: more else (p :: word) :: more

end Bindery.Text
