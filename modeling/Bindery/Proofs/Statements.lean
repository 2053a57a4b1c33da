import Bindery.Proofs.LiteralText
import Bindery.Proofs.SourceText

/-!
# Lines that hold code

Of the lines of a source text only those count that hold code: comments go, and then the lines with
nothing but blanks. A line with a character that is neither blank nor a number sign before the first
number sign counts wherever it stands, within a literal too. A quoted text is passed from code to
code, and a line without code leaves a reader where it was.
-/

namespace Bindery.SourceText

def isEmptyLine (line : List Char) : Bool := line.all Literal.isBlank

def withCode (lines : List (List Char)) : List (List Char) := lines.filter fun l => !isEmptyLine l

def statements (s : String) : List (List Char) := withCode (codeOf s)

theorem withCode_append (a b : List (List Char)) : withCode (a ++ b) = withCode a ++ withCode b :=
  List.filter_append a b

theorem withCode_eq_nil_iff {lines : List (List Char)} :
    withCode lines = [] ↔ ∀ l ∈ lines, isEmptyLine l := by
  simp [withCode, List.filter_eq_nil_iff]

theorem withCode_eq_self {lines : List (List Char)} (h : ∀ l ∈ lines, isEmptyLine l = false) :
    withCode lines = lines :=
  List.filter_eq_self.mpr fun l hl => by simp [h l hl]

/-- From the mode `m` a reader keeps all of `cs` as code and is then in the mode `m'`. -/
def Passes (m : Mode) (cs : List Char) (m' : Mode) : Prop :=
  ∀ rest, scanLine m (cs ++ rest) = (cs ++ (scanLine m' rest).1, (scanLine m' rest).2)

variable {m m' m'' : Mode} {mark : Char}

theorem Passes.nil : Passes m [] m := fun _ => rfl

theorem Passes.append {as bs : List Char} (ha : Passes m as m') (hb : Passes m' bs m'') :
    Passes m (as ++ bs) m'' := by
  intro rest
  rw [List.append_assoc, ha, hb, List.append_assoc]

theorem Passes.single {c : Char} (h : m.next c = some m') : Passes m [c] m' := by
  intro rest
  rw [List.singleton_append, scanLine, h]
  rfl

theorem Passes.cons {c : Char} {cs : List Char} (h : m.next c = some m') (hcs : Passes m' cs m'') :
    Passes m (c :: cs) m'' := (Passes.single h).append hcs

theorem Passes.scanLine_eq {cs : List Char} (h : Passes m cs m') :
    scanLine m cs = (cs, m'.endLine) := by
  have hall := h []
  rwa [List.append_nil, scanLine, List.append_nil] at hall

theorem passes_inert {cs : List Char} (h : Inert cs) : Passes .code cs .code := by
  induction cs with
  | nil => exact .nil
  | cons c cs ih =>
    obtain ⟨hnext, hcs⟩ := inert_cons h
    exact .cons hnext (ih hcs)

theorem Mode.exists_next {c : Char} (h : c ≠ '#') (m : Mode) : ∃ m', m.next c = some m' := by
  have hcode : ∃ m', inCode c = some m' := by
    rw [inCode, if_neg h]
    split
    · exact ⟨_, rfl⟩
    · exact ⟨_, rfl⟩
  cases m with
  | code => exact hcode
  | opened mark =>
    rw [next]
    split
    · exact ⟨_, rfl⟩
    · exact ⟨_, rfl⟩
  | emptied mark =>
    rw [next]
    split
    · exact ⟨_, rfl⟩
    · exact hcode
  | short mark => exact ⟨_, rfl⟩
  | shortEscape mark => exact ⟨_, rfl⟩
  | long mark run => exact ⟨_, rfl⟩
  | longEscape mark => exact ⟨_, rfl⟩

/-- Without a number sign all of a text is kept, whatever stands before it. -/
theorem exists_passes {cs : List Char} (h : '#' ∉ cs) (m : Mode) : ∃ m', Passes m cs m' := by
  induction cs generalizing m with
  | nil => exact ⟨m, .nil⟩
  | cons c cs ih =>
    obtain ⟨hc, hcs⟩ := not_or.mp (mt List.mem_cons.mpr h)
    obtain ⟨m', hnext⟩ := m.exists_next (Ne.symm hc)
    obtain ⟨m'', hpasses⟩ := ih hcs m'
    exact ⟨m'', .cons hnext hpasses⟩

section Quoted

open Literal (isMark)

theorem next_short {c : Char} (hmark : c ≠ mark) (hslash : c ≠ '\\') :
    Mode.next (.short mark) c = some (.short mark) := by
  simp [Mode.next, Mode.inShort, hmark, hslash]

theorem digit_ne_slash_ne_mark {n : ℕ} (h : n < 16) :
    Hex.digit n ≠ '\\' ∧ isMark (Hex.digit n) = false := by
  decide +revert

theorem passes_digits (hmark : isMark mark) (width n : ℕ) :
    Passes (.short mark) (Hex.digits width n) (.short mark) := by
  induction width generalizing n with
  | zero => exact .nil
  | succ width ih =>
    obtain ⟨hslash, hdigit⟩ := digit_ne_slash_ne_mark (Nat.mod_lt n (by decide : 0 < 16))
    exact (ih _).append (.single (next_short (Literal.ne_of_isMark hmark hdigit) hslash))

/-- What is written for a character in a quoted text stays in the text. -/
theorem passes_escapeChar (hmark : isMark mark) (c : Char) :
    Passes (.short mark) (Text.escapeChar mark c) (.short mark) := by
  have hslash : Mode.next (.short mark) '\\' = some (.shortEscape mark) := by
    have hne : '\\' ≠ mark := Literal.ne_of_isMark hmark rfl
    simp [Mode.next, Mode.inShort, hne]
  have hescaped (d : Char) : Passes (.short mark) ['\\', d] (.short mark) :=
    .cons hslash (.single rfl)
  have hcode (d : Char) (width : ℕ) :
      Passes (.short mark) ('\\' :: d :: Hex.digits width c.toNat) (.short mark) :=
    (hescaped d).append (passes_digits hmark width c.toNat)
  unfold Text.escapeChar
  split_ifs with hself
  · exact hescaped c
  · exact hescaped 'n'
  · exact hescaped 'r'
  · exact hescaped 't'
  · simp only [Bool.or_eq_true, decide_eq_true_eq, not_or] at hself
    exact .single (next_short hself.1 hself.2)
  · exact hcode 'x' 2
  · exact hcode 'u' 4
  · exact hcode 'U' 8

theorem passes_escapePoint (hmark : isMark mark) (p : CodePoint) :
    Passes (.short mark) (Text.escapePoint mark p) (.short mark) := by
  cases p with
  | char c => exact passes_escapeChar hmark c
  | surrogate n =>
    have hne : '\\' ≠ mark := Literal.ne_of_isMark hmark rfl
    have hslash : Mode.next (.short mark) '\\' = some (.shortEscape mark) := by
      simp [Mode.next, Mode.inShort, hne]
    have hescaped : Passes (.short mark) ['\\', 'u'] (.short mark) := .cons hslash (.single rfl)
    exact hescaped.append (passes_digits hmark 4 _)

theorem passes_flatMap (hmark : isMark mark) (ps : List CodePoint) :
    Passes (.short mark) (ps.flatMap (Text.escapePoint mark)) (.short mark) := by
  induction ps with
  | nil => exact .nil
  | cons p ps ih => exact (passes_escapePoint hmark p).append ih

/-- A quoted text is left again with the character of code behind it. -/
theorem passes_quotePoints (ps : List CodePoint) {c : Char} (hc : Inert [c]) :
    Passes .code (Text.quotePoints ps ++ [c]) .code := by
  obtain ⟨hsign, hsingle, hdouble, -, -⟩ := hc c List.mem_cons_self
  have hmark := Literal.isMark_quotationMark (ps.map CodePoint.shown)
  have hopen : Mode.next .code (Text.quotationMark (ps.map CodePoint.shown)) =
      some (.opened (Text.quotationMark (ps.map CodePoint.shown))) := by
    unfold Text.quotationMark
    split <;> rfl
  have hcode : Mode.next .code c = some .code := (inert_cons hc).1
  cases ps with
  | nil =>
    -- Two marks in a row may open a long text; the character behind them shows that they do not.
    have hend : Mode.next (.emptied '\'') c = some .code := by
      rw [Mode.next, if_neg hsingle]
      exact hcode
    exact .cons hopen (.cons rfl (.single hend))
  | cons p ps =>
    generalize hquoted : Text.quotationMark ((p :: ps).map CodePoint.shown) = mark at hmark hopen
    obtain ⟨e, es, heq, he⟩ := Literal.exists_escapePoint_eq_cons hmark p
    have hinside := passes_flatMap hmark (p :: ps)
    have hclose : Passes (.short mark) [mark] .code := .single (by simp [Mode.next, Mode.inShort])
    have hfirst :
        Passes (.opened mark) ((p :: ps).flatMap (Text.escapePoint mark)) (.short mark) := by
      intro rest
      have hnext : Mode.next (.opened mark) e = Mode.next (.short mark) e := by
        simp [Mode.next, he]
      have hscan := hinside rest
      rw [List.flatMap_cons, heq, List.cons_append, List.cons_append] at hscan ⊢
      rw [scanLine, hnext]
      exact hscan
    have hall := (((Passes.single hopen).append hfirst).append hclose).append (.single hcode)
    rw [Text.quotePoints, hquoted]
    simpa using hall

end Quoted

/-- Where reading goes on with a second part of the lines. -/
theorem exists_codeLines_append (m : Mode) (a b : List (List Char)) :
    ∃ m', codeLines m (a ++ b) = codeLines m a ++ codeLines m' b := by
  induction a generalizing m with
  | nil => exact ⟨m, rfl⟩
  | cons line a ih =>
    obtain ⟨m', h⟩ := ih (scanLine m (content line)).2
    refine ⟨m', ?_⟩
    rw [List.cons_append, codeLines, codeLines, h, List.cons_append]

/-- A line without code leaves a reader in code. -/
theorem scanLine_of_isEmptyLine {cs : List Char} (h : isEmptyLine (scanLine .code cs).1) :
    (scanLine .code cs).2 = .code := by
  induction cs with
  | nil => rfl
  | cons c cs ih =>
    by_cases hsign : c = '#'
    · simp [scanLine, Mode.next, Mode.inCode, hsign]
    by_cases hmark : Literal.isMark c
    · have hopen : Mode.next .code c = some (.opened c) := by
        have hor := hmark
        simp only [Literal.isMark] at hor
        rw [Mode.next, Mode.inCode, if_neg hsign, if_pos hor]
      simp only [scanLine, hopen, isEmptyLine, List.all_cons, Bool.and_eq_true] at h
      exact absurd hmark (by simp [Literal.isMark_of_isBlank h.1])
    · have hcode : Mode.next .code c = some .code := by
        simp only [Literal.isMark] at hmark
        rw [Mode.next, Mode.inCode, if_neg hsign, if_neg hmark]
      simp only [scanLine, hcode, isEmptyLine, List.all_cons, Bool.and_eq_true] at h ⊢
      exact ih h.2

theorem codeLines_append_of_empty {a : List (List Char)}
    (h : ∀ l ∈ codeLines .code a, isEmptyLine l) (b : List (List Char)) :
    codeLines .code (a ++ b) = codeLines .code a ++ codeLines .code b := by
  induction a with
  | nil => rfl
  | cons line a ih =>
    rw [codeLines] at h
    obtain ⟨hline, ha⟩ := List.forall_mem_cons.mp h
    have hmode := scanLine_of_isEmptyLine hline
    rw [hmode] at ha
    rw [List.cons_append, codeLines, codeLines, hmode, ih ha, List.cons_append]

/-- A line with a character that is neither blank nor a number sign before any number sign. -/
def Solid (line : List Char) : Prop :=
  ∃ a c b, line = a ++ c :: b ∧ '#' ∉ a ++ [c] ∧ Literal.isBlank c = false

theorem Solid.isEmptyLine_eq {line : List Char} (h : Solid line) : isEmptyLine line = false := by
  obtain ⟨a, c, b, rfl, -, hc⟩ := h
  simp [isEmptyLine, hc]

theorem Solid.isEmptyLine_scanLine {line : List Char} (h : Solid line) (m : Mode) :
    isEmptyLine (scanLine m line).1 = false := by
  obtain ⟨a, c, b, rfl, hsign, hc⟩ := h
  obtain ⟨m', hpasses⟩ := exists_passes hsign m
  have hline : a ++ c :: b = (a ++ [c]) ++ b := by simp
  rw [hline, hpasses]
  simp [isEmptyLine, hc]

def codeCount (m : Mode) (lines : List (List Char)) : ℕ := (withCode (codeLines m lines)).length

theorem exists_codeCount_append (m : Mode) (a b : List (List Char)) :
    ∃ m', codeCount m (a ++ b) = codeCount m a + codeCount m' b := by
  obtain ⟨m', h⟩ := exists_codeLines_append m a b
  refine ⟨m', ?_⟩
  rw [codeCount, h, withCode_append, List.length_append]
  rfl

theorem codeCount_cons_of_solid {line : List Char} (h : Solid (content line)) (m : Mode)
    (lines : List (List Char)) :
    ∃ m', codeCount m (line :: lines) = codeCount m' lines + 1 := by
  refine ⟨(scanLine m (content line)).2, ?_⟩
  rw [codeCount, codeLines, withCode, List.filter_cons_of_pos (by simp [h.isEmptyLine_scanLine m])]
  rfl

theorem codeCount_of_solid {lines : List (List Char)} (h : ∀ l ∈ lines, Solid (content l))
    (m : Mode) : codeCount m lines = lines.length := by
  induction lines generalizing m with
  | nil => rfl
  | cons line lines ih =>
    obtain ⟨hline, hlines⟩ := List.forall_mem_cons.mp h
    obtain ⟨m', hcount⟩ := codeCount_cons_of_solid hline m lines
    rw [hcount, ih hlines, List.length_cons]

/-- A text without line ends goes in front of the first line of what follows. -/
theorem physicalLines_unbroken_append {a t line : List Char} {lines : List (List Char)}
    (h : Unbroken a) (ht : physicalLines t = line :: lines) :
    physicalLines (a ++ t) = (a ++ line) :: lines := by
  induction a with
  | nil => exact ht
  | cons c a ih =>
    obtain ⟨⟨hfeed, hreturn⟩, ha⟩ := List.forall_mem_cons.mp h
    have hstays : ¬ endsLine c (a ++ t) := by simp [endsLine, hfeed, hreturn]
    rw [List.cons_append, physicalLines, if_neg hstays, ih ha]
    rfl

/-- The physical lines of texts that are each given a line feed. -/
def broken (ls : List String) : List (List Char) :=
  ls.flatMap fun l => physicalLines (l.toList ++ ['\n'])

theorem broken_append (ls ms : List String) : broken (ls ++ ms) = broken ls ++ broken ms :=
  List.flatMap_append

theorem broken_cons (l : String) (ls : List String) :
    broken (l :: ls) = physicalLines (l.toList ++ ['\n']) ++ broken ls := List.flatMap_cons

theorem broken_of_unbroken {ls : List String} (h : ∀ l ∈ ls, Unbroken l.toList) :
    broken ls = (ls.map String.toList).map (· ++ ['\n']) := by
  induction ls with
  | nil => rfl
  | cons l ls ih =>
    obtain ⟨hl, hls⟩ := List.forall_mem_cons.mp h
    rw [broken_cons, physicalLines_singleLine hl.singleLine, ih hls]
    rfl

theorem statements_unlines (ls : List String) :
    statements (Binding.unlines ls) = withCode (codeLines .code (broken ls)) := by
  rw [statements, codeOf, physicalLines_unlines]
  rfl

/-- Where code stands before the lines, `code` is what they add to it, and code goes on behind
them. -/
def Yields (lines code : List (List Char)) : Prop :=
  ∀ rest, withCode (codeLines .code (lines ++ rest)) = code ++ withCode (codeLines .code rest)

theorem Yields.nil : Yields [] [] := fun _ => rfl

theorem Yields.append {a b c d : List (List Char)} (ha : Yields a c) (hb : Yields b d) :
    Yields (a ++ b) (c ++ d) := by
  intro rest
  rw [List.append_assoc, ha, hb, List.append_assoc]

theorem codeCount_broken {ls : List String} (hunbroken : ∀ l ∈ ls, Unbroken l.toList)
    (hsolid : ∀ l ∈ ls, Solid l.toList) (m : Mode) : codeCount m (broken ls) = ls.length := by
  rw [broken_of_unbroken hunbroken, codeCount_of_solid, List.length_map, List.length_map]
  intro line hline
  simp only [List.map_map, List.mem_map, Function.comp_apply] at hline
  obtain ⟨l, hl, rfl⟩ := hline
  rw [content_append (hunbroken l hl)]
  simpa [content] using hsolid l hl

theorem Yields.withCode_eq {lines code : List (List Char)} (h : Yields lines code) :
    withCode (codeLines .code lines) = code := by
  have hall := h []
  rw [List.append_nil] at hall
  exact hall.trans (List.append_nil code)

theorem yields_empty {lines : List (List Char)} (h : ∀ l ∈ codeLines .code lines, isEmptyLine l) :
    Yields lines [] := by
  intro rest
  rw [codeLines_append_of_empty h, withCode_append, withCode_eq_nil_iff.mpr h]

theorem yields_line {l : List Char} (hunbroken : Unbroken l) (hpasses : Passes .code l .code) :
    Yields [l ++ ['\n']] (withCode [l]) := by
  intro rest
  have hcontent : content (l ++ ['\n']) = l := by
    rw [content_append hunbroken]
    exact List.append_nil l
  rw [List.singleton_append, codeLines, hcontent, hpasses.scanLine_eq, ← withCode_append]
  rfl

theorem yields_passing {ls : List String}
    (h : ∀ l ∈ ls, Unbroken l.toList ∧ Passes .code l.toList .code) :
    Yields (broken ls) (withCode (ls.map String.toList)) := by
  induction ls with
  | nil => exact .nil
  | cons l ls ih =>
    obtain ⟨⟨hunbroken, hpasses⟩, hls⟩ := List.forall_mem_cons.mp h
    rw [broken_cons, physicalLines_singleLine hunbroken.singleLine]
    exact (withCode_append [l.toList] _) ▸ (yields_line hunbroken hpasses).append (ih hls)

theorem yields_inert {ls : List String} (h : ∀ l ∈ ls, Inert l.toList) :
    Yields (broken ls) (withCode (ls.map String.toList)) :=
  yields_passing fun l hl => ⟨unbroken_of_inert (h l hl), passes_inert (h l hl)⟩

end Bindery.SourceText
