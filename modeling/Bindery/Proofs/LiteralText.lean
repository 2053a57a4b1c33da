import Bindery.Binding.Literal
import Bindery.Proofs.Documents
import Bindery.Proofs.HexText

/-!
# Literals read back

A reader for the literals of a source text: displays of lists and of mappings with texts as names,
numbers, the three words for constants, and texts. A text stands between two marks of one kind, with
escapes; texts with nothing but blanks between them are one text. Three marks in a row would open
another kind of text, which is not read here. Line ends are blanks within brackets only, so that
only a display is read from the start of a text to its end.

Cutting a text into lines, words and pieces loses no character of it, whatever the width, and each
piece reads back as what it was made of.
-/

namespace Bindery.Literal

open Json (Token Cuts Lexis Stops isDigit)

def isBlank (c : Char) : Bool := c = ' ' || c = '\t' || c = '\x0c' || c = '\n'

def isMark (c : Char) : Bool := c = '\'' || c = '"'

def escapeOf? : Char → Option Char
  | '\\' => some '\\'
  | '\'' => some '\''
  | '"' => some '"'
  | 'a' => some '\x07'
  | 'b' => some '\x08'
  | 'f' => some '\x0c'
  | 'n' => some '\n'
  | 'r' => some '\r'
  | 't' => some '\t'
  | 'v' => some '\x0b'
  | _ => none

/-- How many digits the code of a character has behind the letter that announces it. -/
def codeWidth? : Char → Option Nat
  | 'x' => some 2
  | 'u' => some 4
  | 'U' => some 8
  | _ => none

def escape? : List Char → Option (CodePoint × Nat)
  | [] => none
  | c :: rest =>
    match codeWidth? c with
    | none => (escapeOf? c).map fun d => (.char d, 1)
    | some width =>
      if rest.length < width then none
      else
        match Hex.numberOf? (rest.take width) with
        | none => none
        | some n => if n < 0x110000 then some (.ofNat n, width + 1) else none

/-- Where a reader of texts stands: outside them, or in one with some characters left to pass. -/
inductive Place
  | outside
  | inside (mark : Char) (skip : Nat)

/-- What is read behind the code points `ps`, which take `n` places. -/
def advance (ps : List CodePoint) (n : Nat) (r : Option (List CodePoint × Nat)) :
    Option (List CodePoint × Nat) :=
  r.map fun (qs, width) => (ps ++ qs, n + width)

def readTexts : Place → List Char → Option (List CodePoint × Nat)
  | .outside, [] => some ([], 0)
  | .inside .., [] => none
  | .outside, c :: rest =>
    if isMark c then
      if rest.take 2 = [c, c] then none else advance [] 1 (readTexts (.inside c 0) rest)
    else if isBlank c then
      (readTexts .outside rest).map fun (ps, width) => (ps, if width = 0 then 0 else 1 + width)
    else some ([], 0)
  | .inside mark (skip + 1), _ :: rest => advance [] 1 (readTexts (.inside mark skip) rest)
  | .inside mark 0, c :: rest =>
    if c = mark then advance [] 1 (readTexts .outside rest)
    else if c = '\\' then
      match escape? rest with
      | none => none
      | some (p, width) => advance [p] 1 (readTexts (.inside mark width) rest)
    else if c = '\n' || c = '\r' || c = '\x00' then none
    else advance [.char c] 1 (readTexts (.inside mark 0) rest)

def words : List (List Char × Json) :=
  [("None".toList, .null), ("True".toList, .bool true), ("False".toList, .bool false)]

def scanWord (cs : List Char) : Option (Token × Nat) :=
  (words.find? fun w => w.1.isPrefixOf cs).map fun w => (.scalar w.2, w.1.length)

def scan (c : Char) (rest : List Char) : Option (Token × Nat) :=
  match c with
  | '[' => some (.openArray, 1)
  | ']' => some (.closeArray, 1)
  | '{' => some (.openObject, 1)
  | '}' => some (.closeObject, 1)
  | ',' => some (.comma, 1)
  | ':' => some (.colon, 1)
  | c =>
    if isMark c then (readTexts .outside (c :: rest)).map fun (ps, width) => (.string ps, width)
    else
      (scanWord (c :: rest)).orElse fun _ =>
        if c = '-' then (Json.scanNumber true rest).map fun (t, width) => (t, width + 1)
        else Json.scanNumber false (c :: rest)

/-- The document that a text denotes, if the whole of it is a display of a mapping. -/
def read (text : String) : Option Json :=
  match text.toList with
  | '{' :: _ =>
    (Json.runFreely text.toList.length ([], .value)
      (Json.cut isBlank scan 0 0 text.toList)).toOption
  | _ => none

theorem advance_nil (r : Option (List CodePoint × ℕ)) : advance [] 0 r = r := by
  cases r with
  | none => rfl
  | some p => simp [advance]

theorem advance_advance (ps qs : List CodePoint) (m n : ℕ) (r : Option (List CodePoint × ℕ)) :
    advance ps m (advance qs n r) = advance (ps ++ qs) (m + n) r := by
  cases r with
  | none => rfl
  | some p => simp [advance, add_assoc]

variable {mark : Char}

theorem readTexts_skip (cs rest : List Char) :
    readTexts (.inside mark cs.length) (cs ++ rest) =
      advance [] cs.length (readTexts (.inside mark 0) rest) := by
  induction cs with
  | nil => rw [List.nil_append, List.length_nil, advance_nil]
  | cons c cs ih =>
    rw [List.length_cons, List.cons_append, readTexts, ih, advance_advance, List.nil_append,
      add_comm 1]

theorem ne_of_isMark (hmark : isMark mark) {c : Char} (hc : isMark c = false) : c ≠ mark := by
  rintro rfl
  exact absurd hmark (by simp [hc])

/-- An escape is read as the code point that it stands for. -/
theorem readTexts_escape (hmark : isMark mark) {es : List Char} {p : CodePoint} {rest : List Char}
    (h : escape? (es ++ rest) = some (p, es.length)) :
    readTexts (.inside mark 0) ('\\' :: es ++ rest) =
      advance [p] ('\\' :: es).length (readTexts (.inside mark 0) rest) := by
  have hne : '\\' ≠ mark := ne_of_isMark hmark rfl
  rw [List.cons_append, readTexts, if_neg hne, if_pos rfl, h]
  simp only [readTexts_skip, advance_advance, List.append_nil, List.length_cons, add_comm 1]

theorem escape?_letter {e c : Char} (hcode : codeWidth? e = none) (h : escapeOf? e = some c)
    (rest : List Char) : escape? (e :: rest) = some (.char c, 1) := by
  simp only [escape?, hcode, h, Option.map_some]

theorem escape?_code {e : Char} {width : ℕ} (hcode : codeWidth? e = some width) (p : CodePoint)
    (hp : p.value < 16 ^ width) (rest : List Char) :
    escape? (e :: Hex.digits width p.value ++ rest) = some (p, width + 1) := by
  have htake : (Hex.digits width p.value ++ rest).take width = Hex.digits width p.value :=
    List.take_left' (Hex.length_digits width p.value)
  have hlength : ¬ (Hex.digits width p.value ++ rest).length < width := by simp
  simp only [List.cons_append, escape?, hcode, if_neg hlength, htake, Hex.numberOf?_digits,
    Nat.mod_eq_of_lt hp, if_pos p.value_lt, CodePoint.ofNat_value]

theorem readTexts_letter (hmark : isMark mark) {e c : Char} (hcode : codeWidth? e = none)
    (h : escapeOf? e = some c) (rest : List Char) :
    readTexts (.inside mark 0) (['\\', e] ++ rest) =
      advance [.char c] 2 (readTexts (.inside mark 0) rest) := by
  have hescape : escape? ([e] ++ rest) = some (.char c, [e].length) := escape?_letter hcode h rest
  exact readTexts_escape hmark hescape

theorem readTexts_code (hmark : isMark mark) {e : Char} {width : ℕ}
    (hcode : codeWidth? e = some width) (p : CodePoint) (hp : p.value < 16 ^ width)
    (rest : List Char) :
    readTexts (.inside mark 0) ('\\' :: e :: Hex.digits width p.value ++ rest) =
      advance [p] ('\\' :: e :: Hex.digits width p.value).length
        (readTexts (.inside mark 0) rest) := by
  have hescape : escape? (e :: Hex.digits width p.value ++ rest) =
      some (p, (e :: Hex.digits width p.value).length) := by
    rw [escape?_code hcode p hp, List.length_cons, Hex.length_digits]
  exact readTexts_escape hmark hescape

theorem readTexts_plain {c : Char} (hmark : c ≠ mark) (hslash : c ≠ '\\') (hfeed : c ≠ '\n')
    (hreturn : c ≠ '\r') (hnull : c ≠ '\x00') (rest : List Char) :
    readTexts (.inside mark 0) (c :: rest) =
      advance [.char c] 1 (readTexts (.inside mark 0) rest) := by
  have hplain : (c = '\n' || c = '\r' || c = '\x00') = false := by
    simp [hfeed, hreturn, hnull]
  rw [readTexts, if_neg hmark, if_neg hslash, hplain, if_neg Bool.false_ne_true]

/-- A character is read back from what is written for it. -/
theorem readTexts_escapeChar (hmark : isMark mark) (c : Char) (rest : List Char) :
    readTexts (.inside mark 0) (Text.escapeChar mark c ++ rest) =
      advance [.char c] (Text.escapeChar mark c).length (readTexts (.inside mark 0) rest) := by
  have hlt : c.toNat < 16 ^ 8 := (CodePoint.char c).value_lt.trans (by decide)
  unfold Text.escapeChar
  split_ifs with hself hfeed hreturn htab hprint hbyte hunit
  · have hc : c = '\'' ∨ c = '"' ∨ c = '\\' := by
      simp only [isMark, Bool.or_eq_true, decide_eq_true_eq] at hmark hself
      rcases hself with rfl | rfl
      · rcases hmark with rfl | rfl <;> simp
      · simp
    rcases hc with rfl | rfl | rfl <;> exact readTexts_letter hmark rfl rfl rest
  · exact readTexts_letter hmark rfl (hfeed ▸ rfl) rest
  · exact readTexts_letter hmark rfl (hreturn ▸ rfl) rest
  · exact readTexts_letter hmark rfl (htab ▸ rfl) rest
  · simp only [Bool.or_eq_true, decide_eq_true_eq, not_or] at hself
    refine readTexts_plain hself.1 hself.2 hfeed hreturn ?_ rest
    rintro rfl
    exact absurd hprint (by decide)
  · exact readTexts_code hmark rfl (.char c) hbyte rest
  · exact readTexts_code hmark rfl (.char c) hunit rest
  · exact readTexts_code hmark rfl (.char c) hlt rest

theorem readTexts_escapePoint (hmark : isMark mark) (p : CodePoint) (rest : List Char) :
    readTexts (.inside mark 0) (Text.escapePoint mark p ++ rest) =
      advance [p] (Text.escapePoint mark p).length (readTexts (.inside mark 0) rest) := by
  cases p with
  | char c => exact readTexts_escapeChar hmark c rest
  | surrogate n =>
    have hlt : (CodePoint.surrogate n).value < 16 ^ 4 := by
      have hn := n.isLt
      simp only [CodePoint.value]
      omega
    exact readTexts_code hmark rfl (.surrogate n) hlt rest

theorem readTexts_flatMap (hmark : isMark mark) (ps : List CodePoint) (rest : List Char) :
    readTexts (.inside mark 0) (ps.flatMap (Text.escapePoint mark) ++ rest) =
      advance ps (ps.flatMap (Text.escapePoint mark)).length
        (readTexts (.inside mark 0) rest) := by
  induction ps with
  | nil => rw [List.flatMap_nil, List.nil_append, List.length_nil, advance_nil]
  | cons p ps ih =>
    rw [List.flatMap_cons, List.append_assoc, readTexts_escapePoint hmark, ih, advance_advance,
      List.singleton_append, List.length_append]

theorem isMark_quotationMark (cs : List Char) : isMark (Text.quotationMark cs) := by
  unfold Text.quotationMark
  split <;> rfl

theorem exists_escapeChar_eq_cons (hmark : isMark mark) (c : Char) :
    ∃ d ds, Text.escapeChar mark c = d :: ds ∧ d ≠ mark := by
  have hslash : '\\' ≠ mark := ne_of_isMark hmark rfl
  unfold Text.escapeChar
  split_ifs with hself
  · exact ⟨_, _, rfl, hslash⟩
  · exact ⟨_, _, rfl, hslash⟩
  · exact ⟨_, _, rfl, hslash⟩
  · exact ⟨_, _, rfl, hslash⟩
  · simp only [Bool.or_eq_true, decide_eq_true_eq, not_or] at hself
    exact ⟨_, _, rfl, hself.1⟩
  · exact ⟨_, _, rfl, hslash⟩
  · exact ⟨_, _, rfl, hslash⟩
  · exact ⟨_, _, rfl, hslash⟩

theorem exists_escapePoint_eq_cons (hmark : isMark mark) (p : CodePoint) :
    ∃ d ds, Text.escapePoint mark p = d :: ds ∧ d ≠ mark := by
  cases p with
  | char c => exact exists_escapeChar_eq_cons hmark c
  | surrogate n => exact ⟨_, _, rfl, ne_of_isMark hmark rfl⟩

/-- A quoted text does not start with three marks, if no mark follows it. -/
theorem take_flatMap_ne (hmark : isMark mark) (ps : List CodePoint) {rest : List Char}
    (hrest : ∀ c ∈ rest.head?, isMark c = false) :
    (ps.flatMap (Text.escapePoint mark) ++ mark :: rest).take 2 ≠ [mark, mark] := by
  cases ps with
  | nil =>
    cases rest with
    | nil => simp
    | cons c rest =>
      have hc : c ≠ mark := ne_of_isMark hmark (hrest c rfl)
      simp [hc]
  | cons p ps =>
    obtain ⟨d, ds, heq, hd⟩ := exists_escapePoint_eq_cons hmark p
    rw [List.flatMap_cons, heq]
    simp [hd]

/-- A quoted text is read back, if no mark follows it. -/
theorem readTexts_quotePoints (ps : List CodePoint) {rest : List Char}
    (hrest : ∀ c ∈ rest.head?, isMark c = false) :
    readTexts .outside (Text.quotePoints ps ++ rest) =
      advance ps (Text.quotePoints ps).length (readTexts .outside rest) := by
  have hmark := isMark_quotationMark (ps.map CodePoint.shown)
  have hquoted : Text.quotePoints ps = Text.quotationMark (ps.map CodePoint.shown) ::
      ps.flatMap (Text.escapePoint (Text.quotationMark (ps.map CodePoint.shown))) ++
        [Text.quotationMark (ps.map CodePoint.shown)] := rfl
  rw [hquoted]
  generalize Text.quotationMark (ps.map CodePoint.shown) = mark at hmark
  have hclose : readTexts (.inside mark 0) (mark :: rest) =
      advance [] 1 (readTexts .outside rest) := by
    rw [readTexts, if_pos rfl]
  rw [List.append_assoc, List.cons_append, List.singleton_append, readTexts, if_pos hmark,
    if_neg (take_flatMap_ne hmark ps hrest), readTexts_flatMap hmark, hclose, advance_advance,
    advance_advance, List.nil_append, List.append_nil]
  refine congrArg (advance ps · _) ?_
  simp only [List.length_cons, List.length_append, List.length_nil]
  omega

theorem flatten_lines (ps : List CodePoint) : (Text.lines ps).flatten = ps := by
  fun_induction Text.lines ps with
  | case1 => rfl
  | case2 rest ih => rw [List.flatten_cons, ih]; rfl
  | case3 c rest _ _ ih => rw [List.flatten_cons, ih]; rfl
  | case4 c rest _ _ hlines ih => rw [← ih, hlines]; rfl
  | case5 c rest _ _ line more hlines ih => rw [← ih, hlines]; rfl

theorem flatten_words (ps : List CodePoint) : (Text.words ps).flatten = ps := by
  fun_induction Text.words ps with
  | case1 => rfl
  | case2 c rest hwords ih => rw [← ih, hwords]; rfl
  | case3 c rest more hwords ih => rw [← ih, hwords]; rfl
  | case4 c rest more d ds _ hwords ih => rw [← ih, hwords]; rfl
  | case5 c rest more d ds _ hwords ih => rw [← ih, hwords]; rfl

theorem flatten_pack (column reserve : ℕ) (piece : List CodePoint)
    (words : List (List CodePoint)) :
    (pack column reserve piece words).flatten = piece ++ words.flatten := by
  induction words generalizing piece with
  | nil => cases piece <;> simp [pack]
  | cons word rest ih =>
    rw [pack, List.flatten_cons]
    generalize (if rest.isEmpty then reserve else 0) = free
    split
    · rw [ih, List.append_assoc]
    · split
      · rename_i hempty
        rw [ih, List.isEmpty_iff.mp hempty, List.nil_append]
      · rw [List.flatten_cons, ih]

/-- No piece loses or changes a code point, whatever fits. -/
theorem flatten_pieces (column reserve : ℕ) (lines : List (List CodePoint)) :
    (pieces column reserve lines).flatten = lines.flatten := by
  induction lines with
  | nil => rfl
  | cons line rest ih =>
    rw [pieces, List.flatten_cons, List.flatten_append, ih]
    generalize (if rest.isEmpty then reserve else 0) = free
    split
    · rw [List.flatten_singleton]
    · rw [flatten_pack, flatten_words, List.nil_append]

theorem isBlank_digit {c : Char} (hc : isDigit c = true) : isBlank c = false := by
  have hne (d : Char) (hd : isDigit d = false) : c ≠ d := Json.ne_of_isDigit hc hd
  simp [isBlank, hne ' ' rfl, hne '\t' rfl, hne '\x0c' rfl, hne '\n' rfl]

theorem scanWord_digit {c : Char} (hc : isDigit c = true) (cs : List Char) :
    scanWord (c :: cs) = none := by
  have hne (d : Char) (hd : isDigit d = false) : (d == c) = false :=
    beq_false_of_ne (Json.ne_of_isDigit hc hd).symm
  simp [scanWord, words, List.isPrefixOf, hne 'N' rfl, hne 'T' rfl, hne 'F' rfl]

theorem scan_digit {c : Char} (hc : isDigit c = true) (cs : List Char) :
    scan c cs = Json.scanNumber false (c :: cs) := by
  have hne (d : Char) (hd : isDigit d = false) : c ≠ d := Json.ne_of_isDigit hc hd
  have hmark : isMark c = false := by simp [isMark, hne '\'' rfl, hne '"' rfl]
  unfold scan
  split
  · exact absurd rfl (hne '[' rfl)
  · exact absurd rfl (hne ']' rfl)
  · exact absurd rfl (hne '\x7b' rfl)
  · exact absurd rfl (hne '\x7d' rfl)
  · exact absurd rfl (hne ',' rfl)
  · exact absurd rfl (hne ':' rfl)
  · rw [hmark, scanWord_digit hc, if_neg (hne '-' rfl)]
    rfl

theorem lexis : Lexis isBlank scan where
  space := rfl
  newline := rfl
  mark := by
    intro m hm
    simp only [Json.punctuation, List.mem_cons, List.not_mem_nil, or_false] at hm
    rcases hm with rfl | rfl | rfl | rfl | rfl | rfl <;> exact ⟨rfl, fun _ => rfl⟩
  digit := fun _ hc => ⟨isBlank_digit hc, scan_digit hc⟩
  minus := ⟨rfl, fun _ _ _ => rfl⟩

theorem isBlank_newline (column : ℕ) : ∀ c ∈ newline column, isBlank c = true :=
  lexis.isBlank_indent column

/-- What can stand behind a value: neither a number nor a text goes on with it. -/
def Ends (rest : List Char) : Prop := Stops rest ∧ readTexts .outside rest = some ([], 0)

theorem Ends.not_isMark {rest : List Char} (h : Ends rest) :
    ∀ c ∈ rest.head?, isMark c = false := by
  intro c hc
  obtain ⟨rest, rfl⟩ := List.head?_eq_some_iff.mp hc
  by_contra hmark
  have hnone := h.2
  rw [readTexts, if_pos (Bool.eq_true_of_not_eq_false hmark)] at hnone
  split at hnone
  · cases hnone
  · obtain ⟨p, -, hp⟩ := Option.map_eq_some_iff.mp hnone
    have hwidth := congrArg Prod.snd hp
    simp only at hwidth
    omega

theorem isMark_of_isBlank {c : Char} (h : isBlank c) : isMark c = false := by
  simp only [isBlank, Bool.or_eq_true, decide_eq_true_eq] at h
  rcases h with ((rfl | rfl) | rfl) | rfl <;> rfl

/-- Blanks in front of a text belong to it. -/
theorem readTexts_blanks {blanks rest : List Char} {ps : List CodePoint} {width : ℕ}
    (h : ∀ c ∈ blanks, isBlank c) (hread : readTexts .outside rest = some (ps, width))
    (hwidth : width ≠ 0) :
    readTexts .outside (blanks ++ rest) = some (ps, blanks.length + width) := by
  induction blanks with
  | nil => rw [List.nil_append, hread, List.length_nil, zero_add]
  | cons c blanks ih =>
    obtain ⟨hc, hblanks⟩ := List.forall_mem_cons.mp h
    have hne : blanks.length + width ≠ 0 := by omega
    rw [List.cons_append, readTexts, if_neg (by simp [isMark_of_isBlank hc]), if_pos hc,
      ih hblanks, Option.map_some, List.length_cons]
    simp only [if_neg hne, Option.some.injEq, Prod.mk.injEq, true_and]
    omega

theorem exists_joinPieces_eq_cons (column : ℕ) {ps : List (List CodePoint)} (h : ps ≠ []) :
    ∃ mark cs, joinPieces column ps = mark :: cs ∧ isMark mark := by
  fun_cases joinPieces column ps with
  | case1 => exact absurd rfl h
  | case2 piece => exact ⟨_, _, rfl, isMark_quotationMark _⟩
  | case3 piece ps hps => exact ⟨_, _, rfl, isMark_quotationMark _⟩

/-- The pieces are read as the one text that they make up. -/
theorem readTexts_joinPieces (column : ℕ) (ps : List (List CodePoint)) {rest : List Char}
    (hrest : Ends rest) :
    readTexts .outside (joinPieces column ps ++ rest) =
      some (ps.flatten, (joinPieces column ps).length) := by
  fun_induction joinPieces column ps with
  | case1 => exact hrest.2
  | case2 piece =>
    rw [readTexts_quotePoints piece hrest.not_isMark, hrest.2]
    simp [advance]
  | case3 piece ps hps ih =>
    -- The line end and its indentation only belong to the text because another piece follows.
    have hne : (joinPieces column ps).length ≠ 0 := by
      obtain ⟨mark, cs, heq, -⟩ := exists_joinPieces_eq_cons column hps
      rw [heq]
      exact Nat.succ_ne_zero _
    have hblanks : readTexts .outside (newline column ++ (joinPieces column ps ++ rest)) =
        some (ps.flatten, (newline column).length + (joinPieces column ps).length) :=
      readTexts_blanks (isBlank_newline column) ih hne
    rw [List.append_assoc, List.append_assoc,
      readTexts_quotePoints piece (by simp [newline, isMark]), hblanks]
    simp [advance]

theorem isBlank_of_isMark (hmark : isMark mark) : isBlank mark = false := by
  simp only [isMark, Bool.or_eq_true, decide_eq_true_eq] at hmark
  rcases hmark with rfl | rfl <;> rfl

theorem scan_mark (hmark : isMark mark) (cs : List Char) :
    scan mark cs =
      (readTexts .outside (mark :: cs)).map fun (ps, width) => (.string ps, width) := by
  simp only [isMark, Bool.or_eq_true, decide_eq_true_eq] at hmark
  rcases hmark with rfl | rfl <;> rfl

theorem cuts_texts (hmark : isMark mark) {cs rest : List Char} {ps : List CodePoint}
    (h : readTexts .outside (mark :: cs ++ rest) = some (ps, (mark :: cs).length)) :
    Cuts isBlank scan rest (mark :: cs) [.string ps] := by
  refine Cuts.token (isBlank_of_isMark hmark) ?_ (by simp)
  rw [scan_mark hmark, ← List.cons_append, h]
  rfl

theorem cuts_quotePoints (ps : List CodePoint) {rest : List Char} (hrest : Ends rest) :
    Cuts isBlank scan rest (Text.quotePoints ps) [.string ps] := by
  refine cuts_texts (isMark_quotationMark _)
    ((readTexts_quotePoints ps hrest.not_isMark).trans ?_)
  rw [hrest.2]
  simp [advance, Text.quotePoints]

/-- A text is cut as one token, whatever pieces it is set out in. -/
theorem cuts_wrapText (column reserve : ℕ) (t : Text) {rest : List Char} (hrest : Ends rest) :
    Cuts isBlank scan rest (wrapText column reserve t) [.string t.points] := by
  unfold wrapText
  split
  · rename_i hempty
    rw [Text.isEmpty_iff.mp hempty]
    exact cuts_quotePoints [] hrest
  · rename_i hempty
    have hflatten : (pieces column reserve (Text.lines t.points)).flatten = t.points := by
      rw [flatten_pieces, flatten_lines]
    have hne : pieces column reserve (Text.lines t.points) ≠ [] := by
      intro hnil
      rw [hnil] at hflatten
      exact hempty (Text.isEmpty_iff.mpr hflatten.symm)
    have hread := readTexts_joinPieces column (pieces column reserve (Text.lines t.points)) hrest
    obtain ⟨mark, cs, heq, hmark⟩ := exists_joinPieces_eq_cons column hne
    rw [hflatten, heq] at hread
    rw [heq]
    exact cuts_texts hmark hread

end Bindery.Literal
