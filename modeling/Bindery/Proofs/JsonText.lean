import Bindery.Proofs.Documents
import Bindery.Proofs.HexText
import Bindery.Proofs.JoinedHalves

/-!
# Written JSON read back

Each character of a string is written by itself, by a letter or by its UTF-16 units, and two units
are read as one character only where they were written for one. With the brackets and separators of
every style, what is written for a document is cut into its tokens again.
-/

namespace Bindery.Json

attribute [local simp] scanString write writeItems writeMembers

theorem hexUnit?_digits {n : ℕ} (h : n < 0x10000) :
    ∃ a b c d, Hex.digits 4 n = [a, b, c, d] ∧ hexUnit? a b c d = some n := by
  refine ⟨_, _, _, _, rfl, ?_⟩
  have hlt (m : ℕ) : m % 16 < 16 := Nat.mod_lt m (by decide)
  simp only [hexUnit?, Hex.digitValue?_digit (hlt _), Option.bind_eq_bind, Option.bind_some,
    Option.pure_def, Option.some.injEq]
  omega

def scan (c : Char) (rest : List Char) : Option (Token × ℕ) :=
  scanPoint (.char c) (rest.map .char)

theorem tokens_map_char (cs : List Char) : tokens (cs.map .char) = cut isBlank scan 0 0 cs :=
  cut_map CodePoint.char _ scanPoint 0 0 cs

section Escapes

variable {offset unit high low : ℕ} {a b c d a' b' c' d' : Char} {tail : List CodePoint}

theorem scanString_unit (hunit : hexUnit? a b c d = some unit)
    (hhigh : isHighSurrogate unit = false) (htail : tail ≠ []) :
    scanString offset (['\\', 'u', a, b, c, d].map .char ++ tail) =
      (scanString (offset + 6) tail).push (.ofNat unit) := by
  have hempty : tail.isEmpty = false := by simpa using htail
  simp only [List.map_cons, List.map_nil, List.cons_append, List.nil_append]
  rw [scanString]
  simp only [hempty, CodePoint.shown, hunit, hhigh, Bool.false_and, Bool.false_eq_true, if_false]
  split <;> rfl

theorem scanString_pair (hhigh : hexUnit? a b c d = some high)
    (hlow : hexUnit? a' b' c' d' = some low) (hhigh' : isHighSurrogate high = true)
    (hlow' : isLowSurrogate low = true) (htail : tail ≠ []) :
    scanString offset (['\\', 'u', a, b, c, d, '\\', 'u', a', b', c', d'].map .char ++ tail) =
      (scanString (offset + 12) tail).push (.char (joinSurrogates high low)) := by
  have hempty : tail.isEmpty = false := by simpa using htail
  simp [hempty, CodePoint.shown, hhigh, hlow, hhigh', hlow']

def NoLow (tail : List CodePoint) : Prop :=
  ∀ a b c d more, tail = .char '\\' :: .char 'u' :: a :: b :: c :: d :: more →
    ∃ unit, hexUnit? a.shown b.shown c.shown d.shown = some unit ∧ isLowSurrogate unit = false

theorem scanString_alone (hhigh : hexUnit? a b c d = some high) (hnext : NoLow tail)
    (htail : tail ≠ []) :
    scanString offset (['\\', 'u', a, b, c, d].map .char ++ tail) =
      (scanString (offset + 6) tail).push (.ofNat high) := by
  have hempty : tail.isEmpty = false := by simpa using htail
  simp only [List.map_cons, List.map_nil, List.cons_append, List.nil_append]
  rw [scanString]
  simp only [hempty, CodePoint.shown, hhigh, Bool.false_eq_true, if_false]
  split
  · rename_i a b c d more
    obtain ⟨unit, hunit, hlow⟩ := hnext a b c d more rfl
    simp only [CodePoint.shown] at hunit
    simp only [hunit, hlow, Bool.false_eq_true, if_false]
    split <;> rfl
  · rfl

theorem scanString_letter {e c : Char} (he : e ≠ 'u') (h : simpleEscape? e = some c)
    (tail : List CodePoint) :
    scanString offset (.char '\\' :: .char e :: tail) =
      (scanString (offset + 2) tail).push (.char c) := by
  rw [scanString, CodePoint.shown, h]
  · rintro _ _ _ _ _ hu -
    exact he (CodePoint.char.inj hu)
  · exact fun hu => he (CodePoint.char.inj hu)

theorem scanString_plain {c : Char} (hquote : c ≠ '"') (hslash : c ≠ '\\')
    (hcontrol : 0x20 ≤ c.toNat) (tail : List CodePoint) :
    scanString offset (.char c :: tail) = (scanString (offset + 1) tail).push (.char c) := by
  rw [scanString.eq_def]
  split
  · rename_i heq
    cases heq
  · rename_i heq
    exact absurd (CodePoint.char.inj (List.cons.inj heq).1) hquote
  · rename_i heq
    exact absurd (CodePoint.char.inj (List.cons.inj heq).1) hslash
  · rename_i heq
    obtain ⟨rfl, rfl⟩ := List.cons.inj heq
    rw [CodePoint.value, if_neg (by omega)]

/-- A unit that is no high surrogate is read by itself. -/
theorem scanString_escapeUnit (h : unit < 0x10000) (hhigh : isHighSurrogate unit = false)
    (htail : tail ≠ []) :
    scanString offset ((escapeUnit unit).map .char ++ tail) =
      (scanString (offset + 6) tail).push (.ofNat unit) := by
  obtain ⟨a, b, c, d, hdigits, hunit⟩ := hexUnit?_digits h
  rw [escapeUnit, hdigits]
  exact scanString_unit hunit hhigh htail

theorem scanString_escapeHigh (h : high < 0x10000) (hnext : NoLow tail) (htail : tail ≠ []) :
    scanString offset ((escapeUnit high).map .char ++ tail) =
      (scanString (offset + 6) tail).push (.ofNat high) := by
  obtain ⟨a, b, c, d, hdigits, hunit⟩ := hexUnit?_digits h
  rw [escapeUnit, hdigits]
  exact scanString_alone hunit hnext htail

theorem scanString_escapePair (hhigh : isHighSurrogate high = true)
    (hlow : isLowSurrogate low = true) (htail : tail ≠ []) :
    scanString offset ((escapeUnit high ++ escapeUnit low).map .char ++ tail) =
      (scanString (offset + 12) tail).push (.char (joinSurrogates high low)) := by
  simp only [isHighSurrogate, isLowSurrogate, Bool.and_eq_true, decide_eq_true_eq] at hhigh hlow
  obtain ⟨a, b, c, d, hdigits, hunit⟩ := @hexUnit?_digits high (by omega)
  obtain ⟨a', b', c', d', hdigits', hunit'⟩ := @hexUnit?_digits low (by omega)
  rw [escapeUnit, escapeUnit, hdigits, hdigits']
  refine scanString_pair hunit hunit' ?_ ?_ htail
  · simpa [isHighSurrogate] using hhigh
  · simpa [isLowSurrogate] using hlow

theorem toNat_valid (c : Char) :
    c.toNat < 0xd800 ∨ 0xdfff < c.toNat ∧ c.toNat < 0x110000 := c.valid

theorem not_isHighSurrogate_toNat (c : Char) : isHighSurrogate c.toNat = false := by
  have hvalid := toNat_valid c
  simp only [isHighSurrogate, Bool.and_eq_false_iff, decide_eq_false_iff_not]
  omega

/-- A character of two units is read back from the two. -/
theorem scanString_escapeWide {c : Char} (h : 0x10000 ≤ c.toNat) (htail : tail ≠ []) :
    scanString offset ((escapeUnit (0xd800 + (c.toNat - 0x10000) / 0x400) ++
        escapeUnit (0xdc00 + (c.toNat - 0x10000) % 0x400)).map .char ++ tail) =
      (scanString (offset + 12) tail).push (.char c) := by
  have hvalid := toNat_valid c
  have hjoin : joinSurrogates (0xd800 + (c.toNat - 0x10000) / 0x400)
      (0xdc00 + (c.toNat - 0x10000) % 0x400) = c := by
    have hsum : 0x10000 + (0xd800 + (c.toNat - 0x10000) / 0x400 - 0xd800) * 0x400 +
        (0xdc00 + (c.toNat - 0x10000) % 0x400 - 0xdc00) = c.toNat := by omega
    rw [joinSurrogates, hsum, Char.ofNat_toNat]
  rw [scanString_escapePair ?_ ?_ htail, hjoin]
  · simp only [isHighSurrogate, Bool.and_eq_true, decide_eq_true_eq]
    omega
  · simp only [isLowSurrogate, Bool.and_eq_true, decide_eq_true_eq]
    omega

/-- A character is read back from what is written for it, as long as the string goes on. -/
theorem scanString_escapeChar (offset : ℕ) (c : Char) (htail : tail ≠ []) :
    scanString offset ((escapeChar c).map .char ++ tail) =
      (scanString (offset + (escapeChar c).length) tail).push (.char c) := by
  unfold escapeChar
  split
  · exact scanString_letter (by decide) rfl tail
  · exact scanString_letter (by decide) rfl tail
  · exact scanString_letter (by decide) rfl tail
  · exact scanString_letter (by decide) rfl tail
  · exact scanString_letter (by decide) rfl tail
  · exact scanString_letter (by decide) rfl tail
  · exact scanString_letter (by decide) rfl tail
  · rename_i hquote hslash _ _ _ _ _
    dsimp only
    split_ifs with hplain hunit
    · simp only [Bool.and_eq_true, decide_eq_true_eq] at hplain
      exact scanString_plain hquote hslash hplain.1 tail
    · rw [scanString_escapeUnit hunit (not_isHighSurrogate_toNat c) htail, CodePoint.ofNat_toNat]
      simp [escapeUnit]
    · rw [scanString_escapeWide (not_lt.mp hunit) htail]
      simp [escapeUnit]

end Escapes

theorem length_escapeUnit (unit : ℕ) : (escapeUnit unit).length = 6 := rfl

/-- What is written for a code point other than a low surrogate starts with the escape of another
unit, if with an escape by units at all. -/
theorem escapePoint_cases {p : CodePoint} (hp : ∀ n, p = .surrogate n → n.val < 0x400) :
    (∃ unit more, unit < 0x10000 ∧ isLowSurrogate unit = false ∧
        escapePoint p = escapeUnit unit ++ more) ∨
      ∀ cs more, escapePoint p ++ cs ≠ '\\' :: 'u' :: more := by
  have hlow {unit : ℕ} (h : unit < 0xdc00 ∨ 0xe000 ≤ unit) : isLowSurrogate unit = false := by
    simp only [isLowSurrogate, Bool.and_eq_false_iff, decide_eq_false_iff_not]
    omega
  cases p with
  | surrogate n =>
    have hn := hp n rfl
    exact .inl ⟨0xd800 + n, [], by omega, hlow (by omega), (List.append_nil _).symm⟩
  | char c =>
    have hvalid := toNat_valid c
    rw [escapePoint]
    unfold escapeChar
    split
    iterate 7 exact .inr (by simp)
    rename_i hslash _ _ _ _ _
    dsimp only
    split_ifs with hplain hunit
    · refine .inr fun cs more heq => hslash (List.cons.inj heq).1
    · exact .inl ⟨c.toNat, [], hunit, hlow (by omega), (List.append_nil _).symm⟩
    · exact .inl ⟨_, _, by omega, hlow (by omega), rfl⟩

theorem noLow_of_escapePoint {p : CodePoint} (hp : ∀ n, p = .surrogate n → n.val < 0x400)
    (cs : List Char) (rest : List CodePoint) :
    NoLow ((escapePoint p ++ cs).map .char ++ .char '"' :: rest) := by
  intro a b c d more heq
  rcases escapePoint_cases hp with ⟨unit, behind, hunit, hlow, hescape⟩ | hescape
  · obtain ⟨w, x, y, z, hdigits, hhex⟩ := hexUnit?_digits hunit
    rw [hescape, escapeUnit, hdigits] at heq
    simp only [List.cons_append, List.map_cons] at heq
    cases heq
    exact ⟨unit, hhex, hlow⟩
  · exfalso
    obtain ⟨written, hwritten⟩ : ∃ written, escapePoint p ++ cs = written := ⟨_, rfl⟩
    rw [hwritten] at heq
    match written with
    | [] => cases heq
    | [_] => cases heq
    | y :: z :: behind =>
      obtain ⟨hy, heq⟩ := List.cons.inj heq
      obtain ⟨hz, -⟩ := List.cons.inj heq
      rw [CodePoint.char.inj hy, CodePoint.char.inj hz] at hwritten
      exact hescape cs behind hwritten

theorem noLow_of_flatMap {ps : List CodePoint}
    (hps : ∀ n qs, ps = .surrogate n :: qs → n.val < 0x400) (rest : List CodePoint) :
    NoLow ((ps.flatMap escapePoint).map .char ++ .char '"' :: rest) := by
  cases ps with
  | nil => exact nofun
  | cons p ps => exact noLow_of_escapePoint (fun n hp => hps n ps (hp ▸ rfl)) _ rest

/-- A surrogate is read back from its escape unless the two halves of a character meet. -/
theorem scanString_surrogate (offset : ℕ) (n : Fin 0x800) {tail : List CodePoint}
    (hnext : n.val < 0x400 → NoLow tail) (htail : tail ≠ []) :
    scanString offset ((escapePoint (.surrogate n)).map .char ++ tail) =
      (scanString (offset + 6) tail).push (.surrogate n) := by
  have hn := n.isLt
  rw [escapePoint, ← CodePoint.ofNat_surrogate n]
  by_cases hhigh : n.val < 0x400
  · exact scanString_escapeHigh (by omega) (hnext hhigh) htail
  · refine scanString_escapeUnit (by omega) ?_ htail
    simp only [isHighSurrogate, Bool.and_eq_false_iff, decide_eq_false_iff_not]
    omega

/-- What is written for code points is read back as they are when joined. -/
theorem scanString_flatMap (offset : ℕ) (ps rest : List CodePoint) :
    scanString offset ((ps.flatMap escapePoint).map .char ++ .char '"' :: rest) =
      .ok (joinPairs ps, offset + (ps.flatMap escapePoint).length + 1) := by
  have htail (qs : List CodePoint) :
      (qs.flatMap escapePoint).map .char ++ .char '"' :: rest ≠ [] := by simp
  induction ps using joinPairs.induct generalizing offset with
  | case1 a b ps h ih =>
    have hhigh : isHighSurrogate (0xd800 + a) = true := by
      simp only [isHighSurrogate, Bool.and_eq_true, decide_eq_true_eq]
      omega
    have hlow : isLowSurrogate (0xd800 + b) = true := by
      have hb := b.isLt
      simp only [isLowSurrogate, Bool.and_eq_true, decide_eq_true_eq]
      omega
    rw [joinPairs, if_pos h, List.flatMap_cons, List.flatMap_cons, ← List.append_assoc,
      List.map_append, List.append_assoc, escapePoint, escapePoint,
      scanString_escapePair hhigh hlow (htail ps), ih]
    simp [StringScan.push, Except.map, length_escapeUnit]
    omega
  | case2 a b ps h ih =>
    have hnext : a.val < 0x400 →
        NoLow (((.surrogate b :: ps).flatMap escapePoint).map .char ++ .char '"' :: rest) :=
      fun ha => noLow_of_flatMap (fun n qs heq => by cases heq; omega) rest
    rw [joinPairs, if_neg h, List.flatMap_cons, List.map_append, List.append_assoc,
      scanString_surrogate offset a hnext (htail _), ih]
    simp [StringScan.push, Except.map, escapePoint, length_escapeUnit]
    omega
  | case3 p ps hnot ih =>
    rw [joinPairs.eq_2 _ _ hnot, List.flatMap_cons, List.map_append, List.append_assoc]
    cases p with
    | char c =>
      rw [escapePoint, scanString_escapeChar offset c (htail ps), ih]
      simp [StringScan.push, Except.map, add_assoc]
    | surrogate n =>
      have hnext : n.val < 0x400 →
          NoLow ((ps.flatMap escapePoint).map .char ++ .char '"' :: rest) :=
        fun _ => noLow_of_flatMap (fun m qs hps => (hnot n m qs rfl hps).elim) rest
      rw [scanString_surrogate offset n hnext (htail ps), ih]
      simp [StringScan.push, Except.map, escapePoint, length_escapeUnit]
      omega
  | case4 => rw [List.flatMap_nil, List.map_nil, List.nil_append, scanString]; rfl

theorem scan_quote (cs : List Char) :
    scan '"' cs = match scanString 1 (cs.map .char) with
      | .ok (s, width) => some (.string s, width)
      | .error (problem, offset) => some (.damaged problem offset, 0) := rfl

theorem cuts_quote (t : Text) (rest : List Char) :
    Cuts isBlank scan rest (quote t) [.string (joinText t).points] := by
  have hscan : scan '"' (t.points.flatMap escapePoint ++ ['"'] ++ rest) =
      some (.string (joinPairs t.points), (t.points.flatMap escapePoint ++ ['"']).length + 1) := by
    rw [scan_quote, List.append_assoc, List.singleton_append, List.map_append, List.map_cons,
      scanString_flatMap, List.length_append]
    simp [add_comm]
  rw [joinText, Text.points_ofPoints]
  exact Cuts.token rfl hscan (by simp)

def Ends (rest : List Char) : Prop :=
  ∀ c ∈ rest.head?, c = ',' ∨ c = ']' ∨ c = '\x7d' ∨ c = '\n'

theorem Ends.stops {rest : List Char} (h : Ends rest) : Stops rest := by
  intro c hc
  rcases h c hc with rfl | rfl | rfl | rfl <;> decide

theorem scanWord_digit {c : Char} (hc : isDigit c = true) (cs : List Char) :
    scanWord (c :: cs) = none := by
  have hne (d : Char) (hd : isDigit d = false) : (d == c) = false :=
    beq_false_of_ne (ne_of_isDigit hc hd).symm
  simp [scanWord, words, List.isPrefixOf, hne 'n' rfl, hne 't' rfl, hne 'f' rfl, hne 'N' rfl,
    hne 'I' rfl, hne '-' rfl]

theorem scanWord_minus {c : Char} (hc : isDigit c = true) (cs : List Char) :
    scanWord ('-' :: c :: cs) = none := by
  have hne : ('I' == c) = false := beq_false_of_ne (ne_of_isDigit hc rfl).symm
  simp [scanWord, words, List.isPrefixOf, hne]

theorem scan_digit {c : Char} (hc : isDigit c = true) (cs : List Char) :
    scan c cs = scanNumber false (c :: cs) := by
  have hne (d : Char) (hd : isDigit d = false) : c ≠ d := ne_of_isDigit hc hd
  unfold scan scanPoint
  simp only [CodePoint.shown, CodePoint.map_shown_map_char]
  split
  · exact absurd rfl (hne '[' rfl)
  · exact absurd rfl (hne ']' rfl)
  · exact absurd rfl (hne '\x7b' rfl)
  · exact absurd rfl (hne '\x7d' rfl)
  · exact absurd rfl (hne ',' rfl)
  · exact absurd rfl (hne ':' rfl)
  · exact absurd rfl (hne '"' rfl)
  · rw [scanWord_digit hc, if_neg (hne '-' rfl)]
    rfl

theorem scan_minus {c : Char} (hc : isDigit c = true) (cs : List Char) :
    scan '-' (c :: cs) = (scanNumber true (c :: cs)).map fun (t, width) => (t, width + 1) := by
  have hscan : scan '-' (c :: cs) = (scanWord ('-' :: c :: cs)).orElse fun _ =>
      (scanNumber true (c :: cs)).map fun (t, width) => (t, width + 1) := by
    rw [scan, scanPoint]
    simp only [CodePoint.shown, CodePoint.map_shown_map_char]
    rfl
  rw [hscan, scanWord_minus hc]
  rfl

theorem isBlank_digit {c : Char} (hc : isDigit c = true) : isBlank c = false := by
  have hne (d : Char) (hd : isDigit d = false) : c ≠ d := ne_of_isDigit hc hd
  simp [isBlank, hne ' ' rfl, hne '\t' rfl, hne '\n' rfl, hne '\r' rfl]

theorem lexis : Lexis isBlank scan where
  space := rfl
  newline := rfl
  mark := by
    intro m hm
    simp only [punctuation, List.mem_cons, List.not_mem_nil, or_false] at hm
    rcases hm with rfl | rfl | rfl | rfl | rfl | rfl <;> exact ⟨rfl, fun _ => rfl⟩
  digit := fun _ hc => ⟨isBlank_digit hc, scan_digit hc⟩
  minus := ⟨rfl, fun _ hc => scan_minus hc⟩

theorem writeFloat_eq {x : Binary64} (h : x.isFinite) : writeFloat x = x.render.toList := by
  obtain ⟨negative, s, e, hshape⟩ := Binary64.exists_shape_eq_finite h
  rw [writeFloat, hshape]

theorem cuts_null (rest : List Char) :
    Cuts isBlank scan rest ['n', 'u', 'l', 'l'] [.scalar .null] :=
  .token rfl rfl (by simp)

theorem cuts_bool (b : Bool) (rest : List Char) :
    Cuts isBlank scan rest (if b then "true" else "false").toList [.scalar (.bool b)] := by
  cases b with
  | false =>
    have hword : Cuts isBlank scan rest ['f', 'a', 'l', 's', 'e'] [.scalar (.bool false)] :=
      .token rfl rfl (by simp)
    exact hword
  | true =>
    have hword : Cuts isBlank scan rest ['t', 'r', 'u', 'e'] [.scalar (.bool true)] :=
      .token rfl rfl (by simp)
    exact hword

theorem cuts_edge (style : Style) (level : ℕ) (rest : List Char) :
    Cuts isBlank scan rest (style.edge level) [] := by
  cases style with
  | line => exact .nil
  | compact => exact .nil
  | lines step => exact .blanks (lexis.isBlank_indent _)

theorem cuts_arrayStart (style : Style) (level : ℕ) (rest : List Char) :
    Cuts isBlank scan rest ('[' :: style.edge level) [.openArray] :=
  (lexis.cuts_mark (by simp [punctuation])).append (cuts_edge style level rest)

theorem cuts_arrayEnd (style : Style) (level : ℕ) (rest : List Char) :
    Cuts isBlank scan rest (style.edge level ++ [']']) [.closeArray] :=
  (cuts_edge style level _).append (lexis.cuts_mark (by simp [punctuation]))

theorem cuts_objectStart (style : Style) (level : ℕ) (rest : List Char) :
    Cuts isBlank scan rest ('\x7b' :: style.edge level) [.openObject] :=
  (lexis.cuts_mark (by simp [punctuation])).append (cuts_edge style level rest)

theorem cuts_objectEnd (style : Style) (level : ℕ) (rest : List Char) :
    Cuts isBlank scan rest (style.edge level ++ ['\x7d']) [.closeObject] :=
  (cuts_edge style level _).append (lexis.cuts_mark (by simp [punctuation]))

theorem cuts_separator (style : Style) (level : ℕ) (rest : List Char) :
    Cuts isBlank scan rest (style.separator level) [.comma] := by
  have hcomma (ds : List Char) : Cuts isBlank scan (ds ++ rest) [','] [.comma] :=
    lexis.cuts_mark (by simp [punctuation])
  cases style with
  | line => exact (hcomma [' ']).append lexis.cuts_space
  | compact => exact hcomma []
  | lines step => exact (hcomma _).append (cuts_edge (.lines step) level rest)

theorem cuts_colon (style : Style) (rest : List Char) :
    Cuts isBlank scan rest style.colon [.colon] := by
  have hcolon (ds : List Char) : Cuts isBlank scan (ds ++ rest) [':'] [.colon] :=
    lexis.cuts_mark (by simp [punctuation])
  cases style with
  | line => exact (hcolon [' ']).append lexis.cuts_space
  | compact => exact hcolon []
  | lines step => exact (hcolon [' ']).append lexis.cuts_space

theorem cuts_name (style : Style) {name : Text} (h : name.isWhole) (rest : List Char) :
    Cuts isBlank scan rest (quote name ++ style.colon) (nameTokens name) := by
  have hname := (cuts_quote name _).append (cuts_colon style rest)
  rwa [joinText_of_isWhole h] at hname

theorem ends_edge (style : Style) (level : ℕ) {c : Char} (hc : c = ']' ∨ c = '\x7d')
    (rest : List Char) : Ends (style.edge level ++ [c] ++ rest) := by
  cases style with
  | lines step => intro d hd; simp [Style.edge] at hd; simp [← hd]
  | _ =>
    intro d hd
    simp [Style.edge] at hd
    subst hd
    rcases hc with rfl | rfl <;> simp

theorem ends_separator (style : Style) (level : ℕ) (rest : List Char) :
    Ends (style.separator level ++ rest) := by
  cases style <;> intro c hc <;> simp [Style.separator] at hc <;> simp [← hc]

theorem ends_writeItems (style : Style) (level : ℕ) (xs : List Json) {rest : List Char}
    (h : Ends rest) : Ends (writeItems style level xs ++ rest) := by
  cases xs with
  | nil => exact h
  | cons x xs =>
    rw [writeItems, List.append_assoc, List.append_assoc]
    exact ends_separator style level _

theorem ends_writeMembers (style : Style) (level : ℕ) (ms : List (Text × Json))
    {rest : List Char} (h : Ends rest) : Ends (writeMembers style level ms ++ rest) := by
  cases ms with
  | nil => exact h
  | cons m ms =>
    simp only [writeMembers, List.append_assoc]
    exact ends_separator style level _

mutual

/-- What is written for a plain document is cut into its tokens when joined. -/
theorem cuts_write (style : Style) (level : ℕ) (j : Json) (hplain : j.Plain) {rest : List Char}
    (hrest : Ends rest) : Cuts isBlank scan rest (write style level j) (tokensOf j.joined) := by
  cases j with
  | null => exact cuts_null rest
  | bool b => exact cuts_bool b rest
  | int n => exact lexis.cuts_int n hrest.stops
  | float x =>
    rw [write, writeFloat_eq hplain]
    exact lexis.cuts_float hplain hrest.stops
  | str s => exact cuts_quote s rest
  | arr items =>
    cases items with
    | nil => exact lexis.cuts_emptyArray
    | cons x xs =>
      obtain ⟨hx, hxs⟩ := hplain
      have hend := ends_edge style level (.inl rfl) rest
      have hvalue := cuts_write style (level + 1) x hx (ends_writeItems style (level + 1) xs hend)
      have hitems := cuts_writeItems style (level + 1) xs hxs hend
      rw [write, List.append_assoc _ (style.edge level)]
      exact (((cuts_arrayStart style _ _).append hvalue).append hitems).append
        (cuts_arrayEnd style level rest)
  | obj members =>
    cases members with
    | nil => exact lexis.cuts_emptyObject
    | cons m ms =>
      obtain ⟨name, x⟩ := m
      obtain ⟨-, hwhole, hx, hms⟩ := hplain
      obtain ⟨hname, hnames⟩ := List.forall_mem_cons.mp hwhole
      have hend := ends_edge style level (.inr rfl) rest
      have hvalue := cuts_write style (level + 1) x hx (ends_writeMembers style (level + 1) ms hend)
      have hmembers := cuts_writeMembers style (level + 1) ms hnames hms hend
      rw [write, List.append_assoc _ (style.edge level), List.append_assoc _ (quote name)]
      exact ((((cuts_objectStart style _ _).append (cuts_name style hname _)).append hvalue).append
        hmembers).append (cuts_objectEnd style level rest)

theorem cuts_writeItems (style : Style) (level : ℕ) (xs : List Json) (hplain : PlainItems xs)
    {rest : List Char} (hrest : Ends rest) :
    Cuts isBlank scan rest (writeItems style level xs) (itemTokens (joinedItems xs)) := by
  cases xs with
  | nil => exact .nil
  | cons x xs =>
    obtain ⟨hx, hxs⟩ := hplain
    have hvalue := cuts_write style level x hx (ends_writeItems style level xs hrest)
    exact ((cuts_separator style level _).append hvalue).append
      (cuts_writeItems style level xs hxs hrest)

theorem cuts_writeMembers (style : Style) (level : ℕ) (ms : List (Text × Json))
    (hwhole : ∀ m ∈ ms, m.1.isWhole) (hplain : PlainMembers ms) {rest : List Char}
    (hrest : Ends rest) :
    Cuts isBlank scan rest (writeMembers style level ms) (memberTokens (joinedMembers ms)) := by
  cases ms with
  | nil => exact .nil
  | cons m ms =>
    obtain ⟨name, x⟩ := m
    obtain ⟨hx, hms⟩ := hplain
    obtain ⟨hname, hnames⟩ := List.forall_mem_cons.mp hwhole
    have hvalue := cuts_write style level x hx (ends_writeMembers style level ms hrest)
    rw [writeMembers, List.append_assoc _ (quote name)]
    exact (((cuts_separator style level _).append (cuts_name style hname _)).append hvalue).append
      (cuts_writeMembers style level ms hnames hms hrest)

end

theorem tokensOf_ne_stray (j : Json) : tokensOf j ≠ [.stray] := by
  cases j with
  | arr items => cases items <;> simp [tokensOf]
  | obj members =>
    cases members with
    | nil => simp [tokensOf]
    | cons m ms => simp [tokensOf]
  | _ => simp [tokensOf, integerToken]

/-- In front of nothing, what is written for a plain document is cut into its tokens. -/
theorem cuts_render (style : Style) {j : Json} (hplain : j.Plain) :
    Cuts isBlank scan [] (write style 0 j) (tokensOf j.joined) :=
  cuts_write style 0 j hplain (by simp [Ends])

/-- What is written for a document starts with no byte-order mark, which is no token. -/
theorem write_ne_byteOrderMark {style : Style} {j : Json} (hplain : j.Plain) (cs : List Char) :
    write style 0 j ≠ '\ufeff' :: cs := by
  intro heq
  have hcuts := cuts_render style hplain
  rw [heq] at hcuts
  obtain ⟨ls, hls, hcut⟩ := hcuts 0
  have hstray : cut isBlank scan 0 0 ('\ufeff' :: cs ++ []) = [⟨.stray, 0⟩] := rfl
  rw [hstray, cut, List.append_nil] at hcut
  rw [← hcut] at hls
  exact tokensOf_ne_stray j.joined hls.symm

/-- What is written for a plain document is read back as the document when joined, with a level for
each of its containers that lie in one another. -/
theorem parse_render {j : Json} (hplain : j.Plain) (hlong : j.hasLongInteger = false) {levels : ℕ}
    (hlevels : j.nesting ≤ levels) (style : Style) :
    parse levels (j.render style) = .ok j.joined := by
  have hcuts := cuts_render style hplain
  have hrun := run_of_cuts (plain_joined j hplain) ((hasLongInteger_joined j).trans hlong)
    ((nesting_joined j).trans_le hlevels) hcuts ((write style 0 j).map CodePoint.char).length
  have hpoints : documentOfPoints levels ((write style 0 j).map .char) = .ok j.joined := by
    rw [documentOfPoints, parsePoints, tokens_map_char, hrun]
    rfl
  rw [parse, render, Text.points_whole, String.toList_ofList]
  split
  · rename_i heq
    obtain ⟨c, cs, hwrite, hc, -⟩ := List.map_eq_cons_iff.mp heq
    rw [CodePoint.char.inj hc] at hwrite
    exact absurd hwrite (write_ne_byteOrderMark hplain cs)
  · exact hpoints

end Bindery.Json
