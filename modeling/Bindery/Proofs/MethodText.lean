import Bindery.Proofs.Confinement
import Bindery.Proofs.IssuedNames
import Bindery.Proofs.Statements

/-!
# Methods read from their source

A method is read from the lines of a source that hold code: the line that names it, a line for each
parameter, and the call that it records. At most one method is read from a source. The source of a
function is read as a method with a parameter for each of the function's just when no type has code
behind its first line, and then names and arguments are those that were issued.
-/

namespace Bindery.Binding

open SourceText
open Identifier (IsIdentifier Plain)

/-- A method as a source shows it: its name, its parameters behind the receiver, each with its hint,
and the call that it records, by the text of its label and the names that it hands on. -/
@[ext] structure Method where
  name : String
  parameters : List (String × String)
  label : Text
  arguments : List String

namespace Method

def opening (m : Method) : List String := ["    def " ++ m.name ++ "(", "        self,"]

def declares (p : String × String) : String := "        " ++ p.1 ++ ": " ++ p.2 ++ ",  "

def closing (m : Method) (literal : String) : List String :=
  [ "    ) -> DeferredTransactionWrapper:",
    "        return DeferredTransactionWrapper(",
    "            self.contract,",
    "            " ++ literal ++ ",",
    "            [" ++ String.intercalate ", " m.arguments ++ "],",
    "        )" ]

def lines (m : Method) (literal : String) : List String :=
  m.opening ++ m.parameters.map declares ++ m.closing literal

@[simp] theorem length_lines (m : Method) (literal : String) :
    (m.lines literal).length = m.parameters.length + 8 := by
  simp [lines, opening, closing]

end Method

def Denotes (literal : String) (t : Text) : Prop :=
  literal ≠ "" ∧ Literal.readTexts .outside literal.toList = some (t.points, literal.toList.length)

theorem denotes_quoted (t : Text) : Denotes t.quoted t := by
  refine ⟨?_, ?_⟩
  · intro hempty
    have hlist := congrArg String.toList hempty
    rw [Text.quoted, String.toList_ofList] at hlist
    simp [Text.quotePoints] at hlist
  · have hread : Literal.readTexts .outside (Text.quotePoints t.points ++ []) = _ :=
      Literal.readTexts_quotePoints t.points (by simp)
    rw [List.append_nil] at hread
    rw [Text.quoted, String.toList_ofList, hread]
    simp [Literal.readTexts, Literal.advance]

structure Shows (s : String) (m : Method) : Prop where
  identifiers : ∀ n ∈ m.name :: m.parameters.map Prod.fst ++ m.arguments, IsIdentifier n
  code : ∃ literal, Denotes literal m.label ∧ statements s = (m.lines literal).map String.toList

section Unique

/-- A name is read up to the first character that cannot stand in it. -/
theorem takeWhile_plain {s : String} (h : Plain s) {rest : List Char}
    (hrest : ∀ c ∈ rest.head?, Identifier.isAllowed c = false) :
    (s.toList ++ rest).takeWhile Identifier.isAllowed = s.toList := by
  rw [List.takeWhile_append_of_pos h]
  cases rest with
  | nil => exact List.append_nil _
  | cons c rest =>
    rw [List.takeWhile_cons_of_neg (by simp [hrest c rfl]), List.append_nil]

theorem plain_append_inj {s t : String} (hs : Plain s) (ht : Plain t) {as bs : List Char}
    (has : ∀ c ∈ as.head?, Identifier.isAllowed c = false)
    (hbs : ∀ c ∈ bs.head?, Identifier.isAllowed c = false)
    (h : s.toList ++ as = t.toList ++ bs) : s = t ∧ as = bs := by
  have hname := congrArg (List.takeWhile Identifier.isAllowed) h
  rw [takeWhile_plain hs has, takeWhile_plain ht hbs] at hname
  exact ⟨String.toList_injective hname, List.append_cancel_left (hname ▸ h)⟩

theorem declares_inj {p q : String × String} (hp : Plain p.1) (hq : Plain q.1)
    (h : Method.declares p = Method.declares q) : p = q := by
  have hlist := congrArg String.toList h
  simp only [Method.declares, String.toList_append, List.append_assoc] at hlist
  have hstops (s : String) : ∀ c ∈ (": ".toList ++ (s.toList ++ ",  ".toList)).head?,
      Identifier.isAllowed c = false := by
    intro c hc
    obtain rfl : ':' = c := by simpa using hc
    rfl
  obtain ⟨hname, hrest⟩ := plain_append_inj hp hq (hstops _) (hstops _)
    (List.append_cancel_left hlist)
  have hhint : p.2.toList = q.2.toList :=
    List.append_cancel_right (List.append_cancel_left hrest)
  exact Prod.ext hname (String.toList_injective hhint)

theorem map_declares_inj {ps qs : List (String × String)} (hps : ∀ p ∈ ps, Plain p.1)
    (hqs : ∀ q ∈ qs, Plain q.1) (h : ps.map Method.declares = qs.map Method.declares) :
    ps = qs := by
  induction ps generalizing qs with
  | nil => exact (List.map_eq_nil_iff.mp h.symm).symm
  | cons p ps ih =>
    cases qs with
    | nil => exact absurd h (by simp)
    | cons q qs =>
      obtain ⟨hp, hps⟩ := List.forall_mem_cons.mp hps
      obtain ⟨hq, hqs⟩ := List.forall_mem_cons.mp hqs
      obtain ⟨hhead, htail⟩ := List.cons_eq_cons.mp h
      rw [declares_inj hp hq hhead, ih hps hqs htail]

theorem toList_intercalate_cons (n : String) (ns : List String) :
    (String.intercalate ", " (n :: ns)).toList =
      n.toList ++ ns.flatMap fun m => ", ".toList ++ m.toList := by
  induction ns generalizing n with
  | nil => simp
  | cons m ns ih =>
    rw [String.intercalate_cons_of_ne_nil (List.cons_ne_nil m ns), String.toList_append,
      String.toList_append, ih, List.flatMap_cons, List.append_assoc, List.append_assoc]

theorem head?_commaNames (ns : List String) :
    ∀ c ∈ (ns.flatMap fun m => ", ".toList ++ m.toList).head?,
      Identifier.isAllowed c = false := by
  intro c hc
  cases ns with
  | nil => simp at hc
  | cons n ns =>
    obtain rfl : ',' = c := by simpa using hc
    rfl

theorem commaNames_inj {ns ms : List String} (hns : ∀ n ∈ ns, Plain n) (hms : ∀ m ∈ ms, Plain m)
    (h : (ns.flatMap fun n => ", ".toList ++ n.toList) =
      ms.flatMap fun m => ", ".toList ++ m.toList) : ns = ms := by
  induction ns generalizing ms with
  | nil =>
    cases ms with
    | nil => rfl
    | cons m ms => exact absurd h (by simp)
  | cons n ns ih =>
    cases ms with
    | nil => exact absurd h (by simp)
    | cons m ms =>
      obtain ⟨hn, hns⟩ := List.forall_mem_cons.mp hns
      obtain ⟨hm, hms⟩ := List.forall_mem_cons.mp hms
      rw [List.flatMap_cons, List.flatMap_cons, List.append_assoc, List.append_assoc] at h
      obtain ⟨hname, hrest⟩ := plain_append_inj hn hm (head?_commaNames ns) (head?_commaNames ms)
        (List.append_cancel_left h)
      rw [hname, ih hns hms hrest]

theorem intercalate_inj {ns ms : List String} (hns : ∀ n ∈ ns, IsIdentifier n)
    (hms : ∀ m ∈ ms, IsIdentifier m)
    (h : String.intercalate ", " ns = String.intercalate ", " ms) : ns = ms := by
  have hne {n : String} (hn : IsIdentifier n) (ns : List String) :
      (String.intercalate ", " (n :: ns)).toList ≠ [] := by
    obtain ⟨c, cs, hlist, -⟩ := hn
    rw [toList_intercalate_cons, hlist]
    exact List.cons_ne_nil _ _
  have hlist := congrArg String.toList h
  cases ns with
  | nil =>
    cases ms with
    | nil => rfl
    | cons m ms => exact absurd hlist.symm (hne (hms m List.mem_cons_self) ms)
  | cons n ns =>
    cases ms with
    | nil => exact absurd hlist (hne (hns n List.mem_cons_self) ns)
    | cons m ms =>
      obtain ⟨hn, hns⟩ := List.forall_mem_cons.mp hns
      obtain ⟨hm, hms⟩ := List.forall_mem_cons.mp hms
      rw [toList_intercalate_cons, toList_intercalate_cons] at hlist
      obtain ⟨hname, hrest⟩ := plain_append_inj hn.plain hm.plain (head?_commaNames ns)
        (head?_commaNames ms) hlist
      rw [hname, commaNames_inj (fun n hn => (hns n hn).plain) (fun m hm => (hms m hm).plain) hrest]

/-- A source shows one method at most. -/
theorem Shows.unique {s : String} {m m' : Method} (h : Shows s m) (h' : Shows s m') : m = m' := by
  obtain ⟨literal, hdenotes, hcode⟩ := h.code
  obtain ⟨literal', hdenotes', hcode'⟩ := h'.code
  have hinjective : Function.Injective String.toList := fun _ _ h => String.toList_injective h
  have hlines : m.lines literal = m'.lines literal' :=
    List.map_injective_iff.mpr hinjective (hcode.symm.trans hcode')
  have hlength : m.parameters.length = m'.parameters.length := by
    simpa using congrArg List.length hlines
  obtain ⟨hfront, hclosing⟩ := List.append_inj hlines (by simp [Method.opening, hlength])
  obtain ⟨hopening, hparameters⟩ := List.append_inj hfront rfl
  have hplain : ∀ n ∈ m.parameters.map Prod.fst, Plain n := fun n hn =>
    (h.identifiers n (List.mem_cons_of_mem _ (List.mem_append_left _ hn))).plain
  have hplain' : ∀ n ∈ m'.parameters.map Prod.fst, Plain n := fun n hn =>
    (h'.identifiers n (List.mem_cons_of_mem _ (List.mem_append_left _ hn))).plain
  simp only [Method.opening, Method.closing, List.cons.injEq, String.append_left_inj,
    String.append_right_inj, and_true, true_and] at hopening hclosing
  obtain ⟨rfl, hnames⟩ := hclosing
  have hname : m.name = m'.name := hopening
  have hlabel : m.label = m'.label := by
    have htexts := hdenotes.2.symm.trans hdenotes'.2
    simp only [Option.some.injEq, Prod.mk.injEq, and_true] at htexts
    exact Text.points_injective htexts
  have harguments : m.arguments = m'.arguments := intercalate_inj
    (fun n hn => h.identifiers n (List.mem_cons_of_mem _ (List.mem_append_right _ hn)))
    (fun n hn => h'.identifiers n (List.mem_cons_of_mem _ (List.mem_append_right _ hn))) hnames
  have hdeclared : m.parameters = m'.parameters :=
    map_declares_inj (List.forall_mem_map.mp hplain) (List.forall_mem_map.mp hplain') hparameters
  exact Method.ext hname hdeclared hlabel harguments

end Unique

def continuation (type : String) : List (List Char) :=
  (physicalLines (type.toList ++ ['\n'])).tail

/-- Behind its first line the type holds no code. -/
def Quiet (type : String) : Prop :=
  ∀ l ∈ codeLines .code (continuation type), isEmptyLine l

def methodOf (f : Abi.Function) : Method where
  name := methodName f.name
  parameters := (parameterNames f).zip (f.parameters.map fun p => hint p.kind)
  label := f.name
  arguments := parameterNames f

theorem map_fst_parameters (f : Abi.Function) :
    (methodOf f).parameters.map Prod.fst = parameterNames f :=
  List.map_fst_zip (by simp)

theorem quiet_of_singleLine {type : String} (h : SingleLine type.toList) : Quiet type := by
  intro l hl
  rw [continuation, physicalLines_singleLine h, List.tail_cons, codeLines] at hl
  exact absurd hl List.not_mem_nil

theorem exists_physicalLines_parameterLine {name : String} (hname : Plain name)
    (p : Abi.Parameter) :
    ∃ comment, physicalLines ((parameterLine name p).toList ++ ['\n']) =
      (declaration name p.kind ++ '#' :: comment) :: continuation p.type.shown := by
  have hunbroken : Unbroken (declaration name p.kind ++ ['#', ' ']) :=
    unbroken_append (unbroken_of_inert (inert_declaration hname p.kind)) (by decide)
  have hlines : physicalLines (p.type.shown.toList ++ ['\n']) ≠ [] := physicalLines_ne_nil (by simp)
  obtain ⟨line, lines, htype⟩ := List.exists_cons_of_ne_nil hlines
  have hline : (parameterLine name p).toList ++ ['\n'] =
      (declaration name p.kind ++ ['#', ' ']) ++ (p.type.shown.toList ++ ['\n']) := by
    rw [parameterLine_eq, remark]
    simp
  refine ⟨' ' :: line, ?_⟩
  rw [hline, physicalLines_unbroken_append hunbroken htype, continuation, htype]
  simp

/-- The name of a parameter stands before its comment. -/
theorem solid_declaration {name : String} (hname : Plain name) (k : Kind) (rest : List Char) :
    Solid (declaration name k ++ rest) := by
  refine ⟨"        ".toList ++ name.toList, ':', ' ' :: (hint k).toList ++ ",  ".toList ++ rest, ?_,
    ?_, rfl⟩
  · simp [declaration]
  · have hsign : '#' ∉ name.toList := fun hmem => absurd (hname _ hmem) (by decide)
    simp [hsign]

theorem withCode_parameterLine {name : String} (hname : Plain name) (p : Abi.Parameter)
    (rest : List (List Char)) :
    withCode (codeLines .code (physicalLines ((parameterLine name p).toList ++ ['\n']) ++ rest)) =
      declaration name p.kind ::
        withCode (codeLines .code (continuation p.type.shown ++ rest)) := by
  obtain ⟨comment, hlines⟩ := exists_physicalLines_parameterLine hname p
  have hsolid : Solid (declaration name p.kind) := by
    simpa using solid_declaration hname p.kind []
  rw [hlines, List.cons_append, codeLines_comment (inert_declaration hname p.kind), withCode,
    List.filter_cons_of_pos (by simp [hsolid.isEmptyLine_eq])]
  rfl

section Parameters

variable {names : List String} {ps : List Abi.Parameter}

/-- Without code behind the first lines of their types, parameters add their declarations. -/
theorem yields_parameterLines (hlength : names.length = ps.length) (hplain : ∀ n ∈ names, Plain n)
    (hquiet : ∀ p ∈ ps, Quiet p.type.shown) :
    Yields (broken (List.zipWith parameterLine names ps))
      (((names.zip (ps.map fun p => hint p.kind)).map Method.declares).map String.toList) := by
  induction ps generalizing names with
  | nil =>
    rw [List.zipWith_nil_right, List.map_nil, List.zip_nil_right]
    exact .nil
  | cons p ps ih =>
    cases names with
    | nil => simp at hlength
    | cons n names =>
      obtain ⟨hn, hnames⟩ := List.forall_mem_cons.mp hplain
      obtain ⟨hp, hps⟩ := List.forall_mem_cons.mp hquiet
      have hrest := (yields_empty hp).append (ih (Nat.succ.inj hlength) hnames hps)
      intro rest
      rw [List.zipWith_cons_cons, broken_cons, List.append_assoc, withCode_parameterLine hn,
        ← List.append_assoc, hrest]
      rfl

/-- Whatever stands before them, each parameter has a line with code. -/
theorem length_le_codeCount (hlength : names.length = ps.length) (hplain : ∀ n ∈ names, Plain n)
    (rest : List (List Char)) (m : Mode) :
    ∃ m', ps.length + codeCount m' rest ≤
      codeCount m (broken (List.zipWith parameterLine names ps) ++ rest) := by
  induction ps generalizing names m with
  | nil =>
    refine ⟨m, ?_⟩
    simp [broken]
  | cons p ps ih =>
    cases names with
    | nil => simp at hlength
    | cons n names =>
      obtain ⟨hn, hnames⟩ := List.forall_mem_cons.mp hplain
      obtain ⟨comment, hlines⟩ := exists_physicalLines_parameterLine hn p
      have hsolid : Solid (content (declaration n p.kind ++ '#' :: comment)) := by
        rw [content_append (unbroken_of_inert (inert_declaration hn p.kind))]
        exact solid_declaration hn p.kind _
      have hlater := ih (Nat.succ.inj hlength) hnames
      rw [List.zipWith_cons_cons, broken_cons, List.append_assoc, hlines, List.cons_append,
        List.length_cons]
      generalize broken (List.zipWith parameterLine names ps) ++ rest = later at hlater ⊢
      obtain ⟨m₁, hfirst⟩ := codeCount_cons_of_solid hsolid m
        (continuation p.type.shown ++ later)
      obtain ⟨m₂, hbehind⟩ := exists_codeCount_append m₁ (continuation p.type.shown) later
      obtain ⟨m₃, hrest⟩ := hlater m₂
      exact ⟨m₃, by omega⟩

/-- With no more lines of code than parameters, no type has code behind its first line. -/
theorem quiet_of_codeCount (hlength : names.length = ps.length) (hplain : ∀ n ∈ names, Plain n)
    {rest : List (List Char)} {k : ℕ} (hk : ∀ m, codeCount m rest = k)
    (hcount : codeCount .code (broken (List.zipWith parameterLine names ps) ++ rest) =
      ps.length + k) : ∀ p ∈ ps, Quiet p.type.shown := by
  induction ps generalizing names with
  | nil => exact List.forall_mem_nil _
  | cons p ps ih =>
    cases names with
    | nil => simp at hlength
    | cons n names =>
      obtain ⟨hn, hnames⟩ := List.forall_mem_cons.mp hplain
      have hlength := Nat.succ.inj hlength
      have hlater := length_le_codeCount hlength hnames rest
      have hquiets := ih hlength hnames
      rw [List.zipWith_cons_cons, broken_cons, List.append_assoc, codeCount,
        withCode_parameterLine hn, List.length_cons, List.length_cons] at hcount
      generalize broken (List.zipWith parameterLine names ps) ++ rest = later
        at hlater hquiets hcount
      have hbehind : codeCount .code (continuation p.type.shown ++ later) =
          ps.length + k := by
        rw [codeCount]
        omega
      obtain ⟨m, hsum⟩ := exists_codeCount_append .code
        (continuation p.type.shown) later
      obtain ⟨m', hrest⟩ := hlater m
      rw [hk] at hrest
      have hnone : codeCount .code (continuation p.type.shown) = 0 := by omega
      have hquiet : Quiet p.type.shown := withCode_eq_nil_iff.mp (List.length_eq_zero_iff.mp hnone)
      refine List.forall_mem_cons.mpr ⟨hquiet, hquiets ?_⟩
      rw [← hbehind]
      exact (congrArg List.length (yields_empty hquiet later)).symm

end Parameters

theorem inert_intercalate {names : List String} (h : ∀ n ∈ names, Plain n) :
    Inert (String.intercalate ", " names).toList := by
  cases names with
  | nil => exact fun _ hc => absurd hc (by simp)
  | cons n names =>
    obtain ⟨hn, hnames⟩ := List.forall_mem_cons.mp h
    rw [toList_intercalate_cons]
    refine inert_append (inert_of_plain hn) fun c hc => ?_
    obtain ⟨m, hm, hc⟩ := List.mem_flatMap.mp hc
    exact inert_append (by simp [Inert]) (inert_of_plain (hnames m hm)) c hc

theorem solid_closingLines (f : Abi.Function) : ∀ l ∈ closingLines f, Solid l.toList := by
  have hquote : Solid ("            " ++ f.name.quoted ++ ",").toList := by
    have hmark := Literal.isMark_quotationMark (f.name.points.map CodePoint.shown)
    simp only [String.toList_append, Text.quoted, String.toList_ofList, Text.quotePoints]
    refine ⟨"            ".toList, Text.quotationMark (f.name.points.map CodePoint.shown), _, rfl,
      ?_, Literal.isBlank_of_isMark hmark⟩
    have hsign : '#' ≠ Text.quotationMark (f.name.points.map CodePoint.shown) :=
      Literal.ne_of_isMark hmark rfl
    simp [hsign]
  have hnames : Solid
      ("            [" ++ String.intercalate ", " (parameterNames f) ++ "],").toList :=
    ⟨"            ".toList, '[', (String.intercalate ", " (parameterNames f)).toList ++ "],".toList,
      by simp, by decide, rfl⟩
  intro l hl
  simp only [closingLines, List.mem_cons, List.not_mem_nil, or_false] at hl
  rcases hl with rfl | rfl | rfl | rfl | rfl | rfl
  · exact ⟨"    ".toList, ')', " -> DeferredTransactionWrapper:".toList, by simp, by simp, rfl⟩
  · exact ⟨"        ".toList, 'r', "eturn DeferredTransactionWrapper(".toList, by simp, by simp,
      rfl⟩
  · exact ⟨"            ".toList, 's', "elf.contract,".toList, by simp, by simp, rfl⟩
  · exact hquote
  · exact hnames
  · exact ⟨"        ".toList, ')', [], by simp, by simp, rfl⟩

theorem passes_closingLines (f : Abi.Function) :
    ∀ l ∈ closingLines f, Passes .code l.toList .code := by
  have hquote : Passes .code ("            " ++ f.name.quoted ++ ",").toList .code := by
    simp only [String.toList_append, Text.quoted, String.toList_ofList, List.append_assoc]
    exact (passes_inert (by simp [Inert])).append (passes_quotePoints _ (by decide))
  have hnames : Inert
      ("            [" ++ String.intercalate ", " (parameterNames f) ++ "],").toList := by
    simp only [String.toList_append]
    refine inert_append (inert_append (by simp [Inert]) ?_) (by simp [Inert])
    exact inert_intercalate (plain_parameterNames f)
  intro l hl
  simp only [closingLines, List.mem_cons, List.not_mem_nil, or_false] at hl
  rcases hl with rfl | rfl | rfl | rfl | rfl | rfl
  · exact passes_inert (by simp [Inert])
  · exact passes_inert (by simp [Inert])
  · exact passes_inert (by simp [Inert])
  · exact hquote
  · exact passes_inert hnames
  · exact passes_inert (by simp [Inert])

theorem yields_closingLines (f : Abi.Function) :
    Yields (broken (closingLines f)) ((closingLines f).map String.toList) := by
  have hyields := yields_passing fun l hl =>
    ⟨unbroken_closingLines f l hl, passes_closingLines f l hl⟩
  rwa [withCode_eq_self] at hyields
  exact List.forall_mem_map.mpr fun l hl => (solid_closingLines f l hl).isEmptyLine_eq

/-- The empty line before a method holds no code. -/
theorem withCode_openingLines (f : Abi.Function) :
    withCode ((openingLines f).map String.toList) = (methodOf f).opening.map String.toList := by
  have hdef : Solid ("    def " ++ methodName f.name ++ "(").toList :=
    ⟨"    ".toList, 'd', "ef ".toList ++ (methodName f.name).toList ++ "(".toList, by simp,
      by decide, rfl⟩
  have hself : Solid "        self,".toList :=
    ⟨"        ".toList, 's', "elf,".toList, by simp, by simp, rfl⟩
  rw [openingLines, List.map_cons, withCode, List.filter_cons_of_neg (by simp [isEmptyLine])]
  apply withCode_eq_self
  rintro l hl
  rcases List.mem_pair.mp hl with rfl | rfl
  · exact hdef.isEmptyLine_eq
  · exact hself.isEmptyLine_eq

theorem yields_openingLines (f : Abi.Function) :
    Yields (broken (openingLines f)) ((methodOf f).opening.map String.toList) :=
  withCode_openingLines f ▸ yields_inert (inert_openingLines f)

def QuietTypes (f : Abi.Function) : Prop := ∀ p ∈ f.parameters, Quiet p.type.shown

theorem yields_methodLines {f : Abi.Function} (h : QuietTypes f) :
    Yields (broken (methodLines f))
      (((methodOf f).lines f.name.quoted).map String.toList) := by
  have hparameters := yields_parameterLines (length_parameterNames f) (plain_parameterNames f) h
  rw [methodLines, broken_append, broken_append, Method.lines, List.map_append, List.map_append]
  exact ((yields_openingLines f).append hparameters).append (yields_closingLines f)

theorem isIdentifier_methodName (name : Text) : IsIdentifier (methodName name) :=
  Identifier.isIdentifier_ofName _

theorem isIdentifier_parameterNames (f : Abi.Function) :
    ∀ n ∈ parameterNames f, IsIdentifier n ∧ ¬ Identifier.isReserved n := by
  apply Identifier.identifiers_unique
  intro n hn
  obtain ⟨p, -, rfl⟩ := List.mem_map.mp hn
  exact ⟨Identifier.isIdentifier_ofName p.name.shown,
    Identifier.not_isReserved_ofName p.name.shown⟩

theorem not_mem_words_of_mem_parameterNames {f : Abi.Function} {n : String}
    (h : n ∈ parameterNames f) : n ∉ "self" :: Identifier.keywords := by
  rw [← Identifier.isReserved_iff]
  exact (isIdentifier_parameterNames f n h).2

theorem shows_functionSource {f : Abi.Function} (h : QuietTypes f) :
    Shows (functionSource f) (methodOf f) where
  identifiers := by
    intro n hn
    rw [map_fst_parameters] at hn
    have hnames := isIdentifier_parameterNames f
    rcases List.mem_append.mp hn with hn | hn
    · rcases List.mem_cons.mp hn with rfl | hn
      · exact isIdentifier_methodName f.name
      · exact (hnames n hn).1
    · exact (hnames n hn).1
  code := by
    refine ⟨f.name.quoted, denotes_quoted f.name, ?_⟩
    rw [functionSource_eq, statements_unlines]
    exact (yields_methodLines h).withCode_eq

/-- Code behind the first line of a type is read as more than the method of the function. -/
theorem quietTypes_of_shows {f : Abi.Function} {m : Method} (h : Shows (functionSource f) m)
    (hlength : m.parameters.length = f.parameters.length) : QuietTypes f := by
  obtain ⟨literal, -, hcode⟩ := h.code
  have hclosing (mode : Mode) : codeCount mode (broken (closingLines f)) = 6 :=
    codeCount_broken (unbroken_closingLines f) (solid_closingLines f) mode
  apply quiet_of_codeCount (length_parameterNames f) (plain_parameterNames f) hclosing
  rw [functionSource_eq, statements_unlines, methodLines, broken_append, broken_append,
    List.append_assoc, yields_openingLines f] at hcode
  have hcount := congrArg List.length hcode
  rw [List.length_append, List.length_map, List.length_map, Method.length_lines, hlength] at hcount
  rw [codeCount]
  have hopening : (methodOf f).opening.length = 2 := rfl
  omega

/-- The names issued to the parameters of a function are identifiers of their own, and the method
that its source shows declares them and hands them on just when no type has code behind its first
line. -/
theorem parameterNames_issued_and_shown_iff (f : Abi.Function) :
    Identifier.Issues (f.parameters.map fun p => Identifier.ofName p.name.shown)
      (parameterNames f) ∧
    (∀ n ∈ parameterNames f, IsIdentifier n ∧ n ∉ "self" :: Identifier.keywords) ∧
    ((∃ m, Shows (functionSource f) m ∧ m.parameters.map Prod.fst = parameterNames f ∧
        m.arguments = parameterNames f) ↔ QuietTypes f) := by
  refine ⟨Identifier.issues_unique _, fun n hn => ?_, fun ⟨m, hshows, hnames, _⟩ => ?_, fun h => ?_⟩
  · exact ⟨(isIdentifier_parameterNames f n hn).1, not_mem_words_of_mem_parameterNames hn⟩
  · apply quietTypes_of_shows hshows
    rw [← List.length_map (f := Prod.fst), hnames, length_parameterNames]
  · exact ⟨methodOf f, shows_functionSource h, map_fst_parameters f, rfl⟩

/-- A type that goes on behind a line feed can declare a parameter of its own. -/
theorem shows_parameter_in_type :
    let type := "Int\n        b: Any,  # x"
    let document := Value.dict
      [ ("hash", .text "00"),
        ("functions", .list [.dict [("name", .text "f"), ("parameters", .list
          [.dict [("name", .text "a"), ("type", .text type)]])]]) ]
    let f : Abi.Function := ⟨"f", [⟨"a", type, []⟩], []⟩
    (Abi.parse 960 document).toOption.map (·.functions) = some [f] ∧ parameterNames f = ["a"] ∧
      Shows (functionSource f) ⟨"fTx", [("a", "Any"), ("b", "Any")], "f", ["a"]⟩ ∧
      ¬ ∃ m, Shows (functionSource f) m ∧ m.parameters.map Prod.fst = parameterNames f := by
  intro type document f
  have hnames : parameterNames f = ["a"] := by decide +kernel
  have hshows : Shows (functionSource f) ⟨"fTx", [("a", "Any"), ("b", "Any")], "f", ["a"]⟩ := by
    have hcode : statements (functionSource f) = (Method.lines ⟨"fTx", [("a", "Any"), ("b", "Any")],
        "f", ["a"]⟩ (Text.whole "f").quoted).map String.toList := by
      rw [functionSource_eq, statements_unlines]
      decide +kernel
    refine ⟨?_, (Text.whole "f").quoted, denotes_quoted "f", hcode⟩
    intro n hn
    simp only [List.map_cons, List.map_nil, List.cons_append, List.nil_append, List.mem_cons,
      List.not_mem_nil, or_false] at hn
    rcases hn with rfl | rfl | rfl | rfl
    · exact isIdentifier_methodName "f"
    · exact Identifier.isIdentifier_ofName "a"
    · exact Identifier.isIdentifier_ofName "b"
    · exact Identifier.isIdentifier_ofName "a"
  refine ⟨rfl, hnames, hshows, fun ⟨m, hm, hdeclared⟩ => ?_⟩
  rw [hm.unique hshows, hnames] at hdeclared
  exact absurd hdeclared (by decide)

end Bindery.Binding
