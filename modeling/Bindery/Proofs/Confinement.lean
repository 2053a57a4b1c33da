import Bindery.Proofs.Identifier
import Bindery.Proofs.SourceText

/-!
# What a type can do to the source of a method

The method for a function is a fixed number of lines and one line per parameter. Names reach it as
identifiers, the function's own name as a quoted literal, and a type as it is, behind a number sign.
So only a type that breaks its line can leave its comment, and with types that do not break their
lines the code is a function of names and kinds.
-/

namespace Bindery

namespace Text

open SourceText

theorem digit_ne_lineEnd {n : Nat} (h : n < 16) : Hex.digit n ≠ '\n' ∧ Hex.digit n ≠ '\r' := by
  decide +revert

theorem unbroken_digits (width n : Nat) : Unbroken (Hex.digits width n) := by
  induction width generalizing n with
  | zero => exact fun _ hc => absurd hc List.not_mem_nil
  | succ width ih =>
    apply unbroken_append (ih _)
    intro c hc
    obtain rfl := List.mem_singleton.mp hc
    exact digit_ne_lineEnd (Nat.mod_lt n (by decide))

theorem unbroken_escapeChar {mark : Char} (hmark : Unbroken [mark]) (c : Char) :
    Unbroken (escapeChar mark c) := by
  have hcode (w n : Nat) (k : Char) (hk : Unbroken ['\\', k]) :
      Unbroken ('\\' :: k :: Hex.digits w n) := unbroken_append hk (unbroken_digits w n)
  unfold escapeChar
  by_cases hescaped : (c = mark || c = '\\') = true
  · rw [if_pos hescaped]
    rcases Bool.or_eq_true_iff.mp hescaped with heq | heq
    · rw [of_decide_eq_true heq]
      exact unbroken_append (a := ['\\']) (by decide) hmark
    · rw [of_decide_eq_true heq]
      decide
  rw [if_neg hescaped]
  by_cases hfeed : c = '\n'
  · rw [if_pos hfeed]
    decide
  rw [if_neg hfeed]
  by_cases hreturn : c = '\r'
  · rw [if_pos hreturn]
    decide
  rw [if_neg hreturn]
  split
  · decide
  split
  · intro d hd
    obtain rfl := List.mem_singleton.mp hd
    exact ⟨hfeed, hreturn⟩
  split
  · exact hcode 2 _ 'x' (by decide)
  split
  · exact hcode 4 _ 'u' (by decide)
  · exact hcode 8 _ 'U' (by decide)

theorem unbroken_escapePoint {mark : Char} (hmark : Unbroken [mark]) (p : CodePoint) :
    Unbroken (escapePoint mark p) := by
  cases p with
  | char c => exact unbroken_escapeChar hmark c
  | surrogate n => exact unbroken_append (a := ['\\', 'u']) (by decide) (unbroken_digits 4 _)

theorem unbroken_quotePoints (ps : List CodePoint) : Unbroken (quotePoints ps) := by
  have hmark : Unbroken [quotationMark (ps.map CodePoint.shown)] := by
    unfold quotationMark
    split <;> decide
  have hinner : Unbroken
      (ps.flatMap (escapePoint (quotationMark (ps.map CodePoint.shown)))) := by
    intro c hc
    obtain ⟨p, -, hp⟩ := List.mem_flatMap.mp hc
    exact unbroken_escapePoint hmark p c hp
  exact unbroken_append (unbroken_append hmark hinner) hmark

end Text

namespace Binding

open SourceText

def openingLines (f : Abi.Function) : List String :=
  ["", "    def " ++ methodName f.name ++ "(", "        self,"]

def closingLines (f : Abi.Function) : List String :=
  [ "    ) -> DeferredTransactionWrapper:",
    "        return DeferredTransactionWrapper(",
    "            self.contract,",
    "            " ++ f.name.quoted ++ ",",
    "            [" ++ String.intercalate ", " (parameterNames f) ++ "],",
    "        )" ]

def methodLines (f : Abi.Function) : List String :=
  openingLines f ++ List.zipWith parameterLine (parameterNames f) f.parameters ++ closingLines f

theorem functionSource_eq (f : Abi.Function) : functionSource f = unlines (methodLines f) := rfl

def declaration (name : String) (k : Kind) : List Char :=
  ("        " ++ name ++ ": " ++ hint k ++ ",  ").toList

def remark (type : String) : List Char := '#' :: ' ' :: type.toList

theorem parameterLine_eq (name : String) (p : Abi.Parameter) :
    (parameterLine name p).toList = declaration name p.kind ++ remark p.type.shown := by
  simp [parameterLine, declaration, remark]

theorem inert_of_plain {s : String} (h : Identifier.Plain s) : Inert s.toList := by
  intro c hc
  have hallowed := h c hc
  refine ⟨?_, ?_, ?_, ?_, ?_⟩ <;>
  · rintro rfl
    exact absurd hallowed (by decide)

theorem inert_declaration {name : String} (h : Identifier.Plain name) (k : Kind) :
    Inert (declaration name k) := by
  have hhint : Inert (hint k).toList := by cases k <;> decide +kernel
  simp only [declaration, String.toList_append]
  refine inert_append (inert_append (inert_append (inert_append ?_ ?_) ?_) hhint) ?_
  · decide +kernel
  · exact inert_of_plain h
  · decide +kernel
  · decide +kernel

theorem plain_methodName (name : Text) : Identifier.Plain (methodName name) :=
  Identifier.plain_ofName _

theorem plain_parameterNames (f : Abi.Function) :
    ∀ n ∈ parameterNames f, Identifier.Plain n := by
  apply Identifier.plain_unique
  intro n hn
  obtain ⟨p, -, rfl⟩ := List.mem_map.mp hn
  exact Identifier.plain_ofName p.name.shown

@[simp] theorem length_parameterNames (f : Abi.Function) :
    (parameterNames f).length = f.parameters.length := by
  rw [parameterNames, Identifier.length_unique, List.length_map]

theorem inert_openingLines (f : Abi.Function) :
    ∀ l ∈ openingLines f, Inert l.toList := by
  have hdef : Inert ("    def " ++ methodName f.name ++ "(").toList := by
    simp only [String.toList_append]
    refine inert_append (inert_append ?_ ?_) ?_
    · decide +kernel
    · exact inert_of_plain (plain_methodName f.name)
    · decide +kernel
  intro l hl
  simp only [openingLines, List.mem_cons, List.not_mem_nil, or_false] at hl
  rcases hl with rfl | rfl | rfl
  · decide +kernel
  · exact hdef
  · decide +kernel

theorem unbroken_intercalate {sep : String} {names : List String} (hsep : Unbroken sep.toList)
    (h : ∀ n ∈ names, Unbroken n.toList) : Unbroken (String.intercalate sep names).toList := by
  induction names with
  | nil => exact fun _ hc => absurd hc (by simp)
  | cons n names ih =>
    obtain ⟨hn, hnames⟩ := List.forall_mem_cons.mp h
    by_cases hlast : names = []
    · subst hlast
      simpa using hn
    · rw [String.intercalate_cons_of_ne_nil hlast, String.toList_append, String.toList_append]
      exact unbroken_append (unbroken_append hn hsep) (ih hnames)

theorem unbroken_closingLines (f : Abi.Function) :
    ∀ l ∈ closingLines f, Unbroken l.toList := by
  have hquote : Unbroken ("            " ++ f.name.quoted ++ ",").toList := by
    simp only [String.toList_append, Text.quoted, String.toList_ofList]
    refine unbroken_append (unbroken_append ?_ (Text.unbroken_quotePoints _)) ?_ <;> decide +kernel
  have hnames : Unbroken
      ("            [" ++ String.intercalate ", " (parameterNames f) ++ "],").toList := by
    simp only [String.toList_append]
    refine unbroken_append (unbroken_append (by decide +kernel) ?_) (by decide +kernel)
    apply unbroken_intercalate (by decide +kernel)
    exact fun n hn => unbroken_of_inert (inert_of_plain (plain_parameterNames f n hn))
  intro l hl
  simp only [closingLines, List.mem_cons, List.not_mem_nil, or_false] at hl
  rcases hl with rfl | rfl | rfl | rfl | rfl | rfl
  · decide +kernel
  · decide +kernel
  · decide +kernel
  · exact hquote
  · exact hnames
  · decide +kernel

def TypesOnOneLine (f : Abi.Function) : Prop :=
  ∀ p ∈ f.parameters, SingleLine p.type.shown.toList

/-- The source of a method is the fixed lines and one line per parameter, on which all of the type
is behind the number sign that opens the comment. -/
structure Confined (f : Abi.Function) : Prop where
  count : (physicalLines (functionSource f).toList).length = f.parameters.length + 9
  declares : ∀ i p, f.parameters[i]? = some p → ∃ code, Inert code ∧
    (physicalLines (functionSource f).toList)[i + 3]? =
      some (code ++ remark p.type.shown ++ ['\n'])

theorem singleLine_parameterLine {name : String} (h : Identifier.Plain name) (p : Abi.Parameter) :
    SingleLine (parameterLine name p).toList ↔ SingleLine p.type.shown.toList := by
  have hcode : Unbroken (declaration name p.kind ++ ['#', ' ']) :=
    unbroken_append (unbroken_of_inert (inert_declaration h p.kind)) (by decide)
  have hline : (parameterLine name p).toList =
      (declaration name p.kind ++ ['#', ' ']) ++ p.type.shown.toList := by
    rw [parameterLine_eq, List.append_assoc]
    rfl
  rw [hline, singleLine_append hcode]

theorem singleLine_parameterLines {names : List String} {ps : List Abi.Parameter}
    (hlength : names.length = ps.length) (hplain : ∀ n ∈ names, Identifier.Plain n) :
    (∀ l ∈ List.zipWith parameterLine names ps, SingleLine l.toList) ↔
      ∀ p ∈ ps, SingleLine p.type.shown.toList := by
  induction ps generalizing names with
  | nil => simp
  | cons p ps ih =>
    cases names with
    | nil => simp at hlength
    | cons n names =>
      obtain ⟨hn, hnames⟩ := List.forall_mem_cons.mp hplain
      rw [List.zipWith_cons_cons, List.forall_mem_cons, List.forall_mem_cons,
        singleLine_parameterLine hn, ih (Nat.succ.inj hlength) hnames]

theorem singleLine_methodLines (f : Abi.Function) :
    (∀ l ∈ methodLines f, SingleLine l.toList) ↔ TypesOnOneLine f := by
  have hopening : ∀ l ∈ openingLines f, SingleLine l.toList := fun l hl =>
    (unbroken_of_inert (inert_openingLines f l hl)).singleLine
  have hclosing : ∀ l ∈ closingLines f, SingleLine l.toList := fun l hl =>
    (unbroken_closingLines f l hl).singleLine
  have hparameters := singleLine_parameterLines (length_parameterNames f) (plain_parameterNames f)
  rw [methodLines, List.forall_mem_append, List.forall_mem_append, hparameters]
  exact ⟨fun h => h.1.2, fun h => ⟨⟨hopening, h⟩, hclosing⟩⟩

@[simp] theorem length_methodLines (f : Abi.Function) :
    (methodLines f).length = f.parameters.length + 9 := by
  simp [methodLines, openingLines, closingLines]

theorem count_iff (f : Abi.Function) :
    (physicalLines (functionSource f).toList).length = f.parameters.length + 9 ↔
      TypesOnOneLine f := by
  rw [functionSource_eq, ← length_methodLines, length_unlines_eq_iff, singleLine_methodLines]

theorem physicalLines_functionSource {f : Abi.Function} (h : TypesOnOneLine f) :
    physicalLines (functionSource f).toList = (methodLines f).map fun l => l.toList ++ ['\n'] :=
  physicalLines_unlines_of_singleLine ((singleLine_methodLines f).mpr h)

theorem confined_iff (f : Abi.Function) : Confined f ↔ TypesOnOneLine f := by
  refine ⟨fun h => (count_iff f).mp h.count, fun h => ⟨(count_iff f).mpr h, ?_⟩⟩
  intro i p hp
  obtain ⟨hi, -⟩ := List.getElem?_eq_some_iff.mp hp
  have hname : i < (parameterNames f).length := by
    rw [length_parameterNames]
    exact hi
  have hline : (methodLines f)[i + 3]? = some (parameterLine (parameterNames f)[i] p) := by
    have hzip : (List.zipWith parameterLine (parameterNames f) f.parameters)[i]? =
        some (parameterLine (parameterNames f)[i] p) := by
      rw [List.getElem?_zipWith, List.getElem?_eq_getElem hname, hp]
    rw [methodLines, List.append_assoc, List.getElem?_append_right (Nat.le_add_left 3 i)]
    rw [List.getElem?_append_left]
    · exact hzip
    · simpa [openingLines] using hi
  refine ⟨declaration (parameterNames f)[i] p.kind, ?_, ?_⟩
  · exact inert_declaration (plain_parameterNames f _ (List.getElem_mem hname)) p.kind
  · rw [physicalLines_functionSource h, List.getElem?_map, hline, Option.map_some,
      parameterLine_eq]

/-- Functions that differ at most in how they write types of the same kind. -/
def SameSignature (f g : Abi.Function) : Prop :=
  f.name = g.name ∧ f.signature = g.signature

theorem codeLines_parameterLines {names : List String} {ps : List Abi.Parameter}
    (hlength : names.length = ps.length) (hplain : ∀ n ∈ names, Identifier.Plain n)
    (rest : List (List Char)) :
    codeLines .code
        ((List.zipWith parameterLine names ps).map (fun l => l.toList ++ ['\n']) ++ rest) =
      List.zipWith declaration names (ps.map (·.kind)) ++ codeLines .code rest := by
  induction ps generalizing names with
  | nil => simp
  | cons p ps ih =>
    cases names with
    | nil => simp at hlength
    | cons n names =>
      obtain ⟨hn, hnames⟩ := List.forall_mem_cons.mp hplain
      have hline : (parameterLine n p).toList ++ ['\n'] =
          declaration n p.kind ++ '#' :: ' ' :: (p.type.shown.toList ++ ['\n']) := by
        rw [parameterLine_eq, List.append_assoc]
        rfl
      rw [List.zipWith_cons_cons, List.map_cons, List.cons_append, hline,
        codeLines_comment (inert_declaration hn p.kind), ih (Nat.succ.inj hlength) hnames]
      rfl

/-- Types that stay in their lines leave nothing but their kinds in the code. -/
theorem codeOf_functionSource {f : Abi.Function} (h : TypesOnOneLine f) :
    codeOf (functionSource f) =
      (openingLines f).map String.toList ++
        (List.zipWith declaration (parameterNames f) (f.parameters.map (·.kind)) ++
          codeLines .code ((closingLines f).map fun l => l.toList ++ ['\n'])) := by
  have hopening : ∀ l ∈ (openingLines f).map String.toList, Inert l :=
    List.forall_mem_map.mpr (inert_openingLines f)
  have hparameters := codeLines_parameterLines (length_parameterNames f) (plain_parameterNames f)
  rw [codeOf, physicalLines_functionSource h, methodLines, List.map_append, List.map_append,
    List.append_assoc, ← hparameters, ← codeLines_inert hopening, List.map_map]
  rfl

theorem codeOf_congr {f g : Abi.Function} (hsame : SameSignature f g) (hf : TypesOnOneLine f)
    (hg : TypesOnOneLine g) : codeOf (functionSource f) = codeOf (functionSource g) := by
  obtain ⟨hname, hsignature⟩ := hsame
  have hnames : parameterNames f = parameterNames g := by
    have hidents := congrArg (List.map fun p => Identifier.ofName p.1.shown) hsignature
    simp only [Abi.Function.signature, List.map_map] at hidents
    exact congrArg Identifier.unique hidents
  have hkinds : f.parameters.map (·.kind) = g.parameters.map (·.kind) := by
    have hpairs := congrArg (List.map Prod.snd) hsignature
    simp only [Abi.Function.signature, List.map_map] at hpairs
    exact hpairs
  have hopening : openingLines f = openingLines g := by
    rw [openingLines, hname]
    rfl
  have hclosing : closingLines f = closingLines g := by
    rw [closingLines, hname, hnames]
    rfl
  rw [codeOf_functionSource hf, codeOf_functionSource hg, hopening, hnames, hkinds, hclosing]

@[simp] theorem length_codeOf (s : String) : (codeOf s).length = (physicalLines s.toList).length :=
  length_codeLines _ _

theorem typesOnOneLine_of_codeOf_eq {f g : Abi.Function} (hsame : SameSignature f g)
    (hg : TypesOnOneLine g) (hcode : codeOf (functionSource f) = codeOf (functionSource g)) :
    TypesOnOneLine f := by
  have hlength : f.parameters.length = g.parameters.length := by
    simpa [Abi.Function.signature] using congrArg List.length hsame.2
  apply (count_iff f).mp
  calc (physicalLines (functionSource f).toList).length
      = (codeOf (functionSource g)).length := by rw [← length_codeOf, hcode]
    _ = g.parameters.length + 9 := (length_codeOf _).trans ((count_iff g).mpr hg)
    _ = f.parameters.length + 9 := by rw [hlength]

/-- The source of a method confines the types just when none breaks its line, and only a type that
does so can change the code of the method. -/
theorem confined_and_codeOf_eq_iff (f : Abi.Function) :
    (Confined f ↔ TypesOnOneLine f) ∧
      ∀ g, SameSignature f g → TypesOnOneLine g →
        (codeOf (functionSource f) = codeOf (functionSource g) ↔ TypesOnOneLine f) := by
  refine ⟨confined_iff f, fun g hsame hg => ⟨fun hcode => ?_, fun hf => ?_⟩⟩
  · exact typesOnOneLine_of_codeOf_eq hsame hg hcode
  · exact codeOf_congr hsame hf hg

/-- A type with a line feed puts what follows it into the code. -/
theorem not_confined_line_feed :
    let document := Value.dict
      [ ("hash", .text "00"),
        ("functions", .list [.dict [("name", .text "f"), ("parameters", .list
          [.dict [("name", .text "a"), ("type", .text "Int\nimport os")]])]]) ]
    let f : Abi.Function := ⟨"f", [⟨"a", "Int\nimport os", []⟩], []⟩
    let g : Abi.Function := ⟨"f", [⟨"a", "Other", []⟩], []⟩
    (Abi.parse 960 document).toOption.map (·.functions) = some [f] ∧ ¬ Confined f ∧
      SameSignature f g ∧ codeOf (functionSource f) ≠ codeOf (functionSource g) := by
  intro document f g
  have hbreaks : ¬ TypesOnOneLine f := fun h =>
    absurd (h _ List.mem_cons_self).1 (by decide +kernel)
  have hstays : TypesOnOneLine g := by
    intro p hp
    obtain rfl := List.mem_singleton.mp hp
    exact Unbroken.singleLine (by decide +kernel)
  have hsame : SameSignature f g := ⟨rfl, by decide +kernel⟩
  refine ⟨rfl, fun h => hbreaks ((confined_iff f).mp h), hsame, fun hcode => hbreaks ?_⟩
  exact typesOnOneLine_of_codeOf_eq hsame hstays hcode

end Binding

end Bindery
