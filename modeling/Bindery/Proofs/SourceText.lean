import Bindery.Binding.Source

/-!
# Lines and comments of a source text

A source text is read line by line. A line ends at a line feed, at a carriage return, or at both
together. A number sign outside all literals opens a comment, which goes to the end of its line; a
literal ends with its line too, unless three marks opened it or a backslash escapes the line end.
Without its comments a text keeps its number of lines.
-/

namespace Bindery.SourceText

def endsLine (c : Char) (rest : List Char) : Bool :=
  c = '\n' || (c = '\r' && rest.head? ≠ some '\n')

def physicalLines : List Char → List (List Char)
  | [] => []
  | c :: rest =>
    if endsLine c rest then [c] :: physicalLines rest
    else
      match physicalLines rest with
      | [] => [[c]]
      | line :: lines => (c :: line) :: lines

/-- A text that stays in its line when a line feed is put behind it. -/
def SingleLine (t : List Char) : Prop := '\n' ∉ t ∧ '\r' ∉ t.dropLast

theorem physicalLines_ne_nil {cs : List Char} (h : cs ≠ []) : physicalLines cs ≠ [] := by
  cases cs with
  | nil => exact absurd rfl h
  | cons c rest =>
    rw [physicalLines]
    split
    · exact List.cons_ne_nil _ _
    · split <;> exact List.cons_ne_nil _ _

theorem endsLine_newline (c : Char) (a b : List Char) :
    endsLine c (a ++ '\n' :: b) = endsLine c (a ++ ['\n']) := by
  cases a <;> rfl

/-- What follows a line feed does not depend on what stands before it. -/
theorem physicalLines_append (a b : List Char) :
    physicalLines (a ++ '\n' :: b) = physicalLines (a ++ ['\n']) ++ physicalLines b := by
  induction a with
  | nil => rfl
  | cons c a ih =>
    rw [List.cons_append, List.cons_append, physicalLines, physicalLines, endsLine_newline, ih]
    by_cases hend : endsLine c (a ++ ['\n'])
    · rw [if_pos hend, if_pos hend, List.cons_append]
    · rw [if_neg hend, if_neg hend]
      cases hrest : physicalLines (a ++ ['\n']) with
      | nil => exact absurd hrest (physicalLines_ne_nil (by simp))
      | cons line lines => rfl

theorem physicalLines_unlines (ls : List String) :
    physicalLines (Binding.unlines ls).toList =
      ls.flatMap fun l => physicalLines (l.toList ++ ['\n']) := by
  rw [Binding.unlines, String.toList_join]
  induction ls with
  | nil => rfl
  | cons l ls ih =>
    rw [List.map_cons, List.flatMap_cons, List.flatMap_cons, ← ih, ← physicalLines_append]
    simp

theorem length_physicalLines_pos (t : List Char) :
    0 < (physicalLines (t ++ ['\n'])).length :=
  List.length_pos_iff.mpr (physicalLines_ne_nil (by simp))

/-- A carriage return stays in the line only before a line feed, so only as the last character. -/
theorem singleLine_cons (c : Char) (t : List Char) :
    SingleLine (c :: t) ↔ ¬ endsLine c (t ++ ['\n']) ∧ SingleLine t := by
  cases t with
  | nil => simp [SingleLine, endsLine, eq_comm]
  | cons d t =>
    have hfeed : endsLine c (d :: t ++ ['\n']) = (c = '\n' ∨ c = '\r' ∧ d ≠ '\n') := by
      simp [endsLine]
    simp only [hfeed, SingleLine, List.dropLast_cons_cons, List.mem_cons]
    grind

theorem physicalLines_singleLine {t : List Char} (h : SingleLine t) :
    physicalLines (t ++ ['\n']) = [t ++ ['\n']] := by
  induction t with
  | nil => rfl
  | cons c t ih =>
    obtain ⟨hstays, hrest⟩ := (singleLine_cons c t).mp h
    rw [List.cons_append, physicalLines, if_neg hstays, ih hrest]

theorem singleLine_of_length {t : List Char} (h : (physicalLines (t ++ ['\n'])).length = 1) :
    SingleLine t := by
  induction t with
  | nil => exact ⟨List.not_mem_nil, List.not_mem_nil⟩
  | cons c t ih =>
    rw [List.cons_append, physicalLines] at h
    have hpos := length_physicalLines_pos t
    by_cases hend : endsLine c (t ++ ['\n'])
    · rw [if_pos hend, List.length_cons] at h
      omega
    · rw [if_neg hend] at h
      refine (singleLine_cons c t).mpr ⟨hend, ih ?_⟩
      cases hlines : physicalLines (t ++ ['\n']) with
      | nil => exact absurd hlines (physicalLines_ne_nil (by simp))
      | cons line lines => simpa [hlines] using h

theorem length_eq_one_iff {t : List Char} :
    (physicalLines (t ++ ['\n'])).length = 1 ↔ SingleLine t := by
  refine ⟨singleLine_of_length, fun h => ?_⟩
  rw [physicalLines_singleLine h, List.length_singleton]

def Unbroken (cs : List Char) : Prop := ∀ c ∈ cs, c ≠ '\n' ∧ c ≠ '\r'

instance (cs : List Char) : Decidable (Unbroken cs) := List.decidableBAll _ cs

theorem unbroken_append {a b : List Char} (ha : Unbroken a) (hb : Unbroken b) :
    Unbroken (a ++ b) := List.forall_mem_append.mpr ⟨ha, hb⟩

theorem singleLine_append {a t : List Char} (h : Unbroken a) :
    SingleLine (a ++ t) ↔ SingleLine t := by
  induction a with
  | nil => rfl
  | cons c a ih =>
    obtain ⟨hfeed, hreturn⟩ := h c List.mem_cons_self
    rw [List.cons_append, singleLine_cons, ih fun d hd => h d (List.mem_cons_of_mem c hd)]
    simp [endsLine, hfeed, hreturn]

theorem Unbroken.singleLine {cs : List Char} (h : Unbroken cs) : SingleLine cs := by
  rw [← List.append_nil cs, singleLine_append h]
  exact ⟨List.not_mem_nil, List.not_mem_nil⟩

theorem length_le_unlines (ls : List String) :
    ls.length ≤ (physicalLines (Binding.unlines ls).toList).length := by
  rw [physicalLines_unlines]
  induction ls with
  | nil => exact Nat.le_refl _
  | cons l ls ih =>
    have hpos := length_physicalLines_pos l.toList
    rw [List.flatMap_cons, List.length_append, List.length_cons]
    omega

/-- Texts that are each given a line feed are as many lines just when each stays in its line. -/
theorem length_unlines_eq_iff (ls : List String) :
    (physicalLines (Binding.unlines ls).toList).length = ls.length ↔
      ∀ l ∈ ls, SingleLine l.toList := by
  induction ls with
  | nil => simp [Binding.unlines, physicalLines]
  | cons l ls ih =>
    have hpos := length_physicalLines_pos l.toList
    have hle := length_le_unlines ls
    rw [physicalLines_unlines] at ih hle ⊢
    rw [List.flatMap_cons, List.length_append, List.length_cons, List.forall_mem_cons, ← ih,
      ← length_eq_one_iff]
    omega

theorem physicalLines_unlines_of_singleLine {ls : List String}
    (h : ∀ l ∈ ls, SingleLine l.toList) :
    physicalLines (Binding.unlines ls).toList = ls.map fun l => l.toList ++ ['\n'] := by
  rw [physicalLines_unlines]
  induction ls with
  | nil => rfl
  | cons l ls ih =>
    obtain ⟨hl, hls⟩ := List.forall_mem_cons.mp h
    rw [List.flatMap_cons, physicalLines_singleLine hl, ih hls]
    rfl

/-- Where a reader of a source text stands: in code, behind the first or the second mark of a
literal, or in a literal of one mark or of three. -/
inductive Mode
  | code
  | opened (mark : Char)
  | emptied (mark : Char)
  | short (mark : Char)
  | shortEscape (mark : Char)
  | long (mark : Char) (run : Nat)
  | longEscape (mark : Char)

namespace Mode

/-- One character of code; there is no mode behind a number sign, which opens a comment. -/
def inCode (c : Char) : Option Mode :=
  if c = '#' then none
  else if c = '\'' || c = '"' then some (.opened c)
  else some .code

def inShort (mark c : Char) : Mode :=
  if c = mark then .code else if c = '\\' then .shortEscape mark else .short mark

def inLong (mark : Char) (run : Nat) (c : Char) : Mode :=
  if c = mark then (if run = 2 then .code else .long mark (run + 1))
  else if c = '\\' then .longEscape mark
  else .long mark 0

def next : Mode → Char → Option Mode
  | .code, c => inCode c
  | .opened mark, c => if c = mark then some (.emptied mark) else some (inShort mark c)
  | .emptied mark, c => if c = mark then some (.long mark 0) else inCode c
  | .short mark, c => some (inShort mark c)
  | .shortEscape mark, _ => some (.short mark)
  | .long mark run, c => some (inLong mark run c)
  | .longEscape mark, _ => some (.long mark 0)

def endLine : Mode → Mode
  | .shortEscape mark => .short mark
  | .long mark _ | .longEscape mark => .long mark 0
  | _ => .code

end Mode

def scanLine (m : Mode) : List Char → List Char × Mode
  | [] => ([], m.endLine)
  | c :: rest =>
    match m.next c with
    | none => ([], .code)
    | some m => (c :: (scanLine m rest).1, (scanLine m rest).2)

def content (line : List Char) : List Char := line.takeWhile fun c => c ≠ '\n' && c ≠ '\r'

def codeLines (m : Mode) : List (List Char) → List (List Char)
  | [] => []
  | line :: lines =>
    (scanLine m (content line)).1 :: codeLines (scanLine m (content line)).2 lines

def codeOf (s : String) : List (List Char) := codeLines .code (physicalLines s.toList)

@[simp] theorem length_codeLines (m : Mode) (lines : List (List Char)) :
    (codeLines m lines).length = lines.length := by
  induction lines generalizing m with
  | nil => rfl
  | cons line lines ih => rw [codeLines, List.length_cons, ih, List.length_cons]

/-- A text that is code wherever code stands before it, and that breaks no line. -/
def Inert (cs : List Char) : Prop :=
  ∀ c ∈ cs, c ≠ '#' ∧ c ≠ '\'' ∧ c ≠ '"' ∧ c ≠ '\n' ∧ c ≠ '\r'

instance (cs : List Char) : Decidable (Inert cs) := List.decidableBAll _ cs

theorem inert_append {a b : List Char} (ha : Inert a) (hb : Inert b) : Inert (a ++ b) :=
  List.forall_mem_append.mpr ⟨ha, hb⟩

theorem inert_cons {c : Char} {cs : List Char} (h : Inert (c :: cs)) :
    Mode.next .code c = some .code ∧ Inert cs := by
  obtain ⟨⟨hsign, hsingle, hdouble, -, -⟩, hrest⟩ := List.forall_mem_cons.mp h
  exact ⟨by simp [Mode.next, Mode.inCode, hsign, hsingle, hdouble], hrest⟩

theorem scanLine_inert {cs : List Char} (h : Inert cs) : scanLine .code cs = (cs, .code) := by
  induction cs with
  | nil => rfl
  | cons c cs ih =>
    obtain ⟨hnext, hrest⟩ := inert_cons h
    rw [scanLine, hnext]
    simp only [ih hrest]

theorem scanLine_comment {cs : List Char} (h : Inert cs) (comment : List Char) :
    scanLine .code (cs ++ '#' :: comment) = (cs, .code) := by
  induction cs with
  | nil => rfl
  | cons c cs ih =>
    obtain ⟨hnext, hrest⟩ := inert_cons h
    rw [List.cons_append, scanLine, hnext]
    simp only [ih hrest]

theorem unbroken_of_inert {cs : List Char} (h : Inert cs) : Unbroken cs := by
  intro c hc
  obtain ⟨-, -, -, hends⟩ := h c hc
  exact hends

theorem content_append {cs : List Char} (h : Unbroken cs) (rest : List Char) :
    content (cs ++ rest) = cs ++ content rest := by
  apply List.takeWhile_append_of_pos
  intro c hc
  obtain ⟨hfeed, hreturn⟩ := h c hc
  simp [hfeed, hreturn]

theorem codeLines_inert {ls : List (List Char)} (h : ∀ l ∈ ls, Inert l)
    (rest : List (List Char)) :
    codeLines .code (ls.map (· ++ ['\n']) ++ rest) = ls ++ codeLines .code rest := by
  induction ls with
  | nil => rfl
  | cons l ls ih =>
    obtain ⟨hl, hls⟩ := List.forall_mem_cons.mp h
    have hcontent : content (l ++ ['\n']) = l := by
      rw [content_append (unbroken_of_inert hl)]
      exact List.append_nil l
    rw [List.map_cons, List.cons_append, codeLines, hcontent, scanLine_inert hl, ih hls,
      List.cons_append]

theorem codeLines_comment {cs : List Char} (h : Inert cs) (comment : List Char)
    (rest : List (List Char)) :
    codeLines .code ((cs ++ '#' :: comment) :: rest) = cs :: codeLines .code rest := by
  have hcontent : content (cs ++ '#' :: comment) = cs ++ '#' :: content comment := by
    rw [content_append (unbroken_of_inert h)]
    rfl
  rw [codeLines, hcontent, scanLine_comment h]

end Bindery.SourceText
