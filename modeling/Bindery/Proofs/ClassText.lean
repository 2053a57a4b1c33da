import Bindery.Proofs.EmbeddedLiteral
import Bindery.Proofs.MethodText

/-!
# Classes read from their source

Of the body of a binding module, its class with all methods, those lines are read that define a
member of the class and those that hold a label. Where no type has code behind its first line, these
are the members that every class has, then one method for each function of the interface, in order
and with its name for a label.
-/

namespace Bindery.Binding

open SourceText
open Identifier (IsIdentifier Plain)

def definition? (line : List Char) : Option String :=
  ((line.dropPrefix? "    def ".toList).or (line.dropPrefix? "    async def ".toList)).map
    fun rest => String.ofList (rest.takeWhile Identifier.isAllowed)

def label? (line : List Char) : Option Text := do
  let rest ← line.dropPrefix? (List.replicate 12 ' ')
  match Literal.readTexts .outside rest with
  | some (ps, _ + 1) => some (.ofPoints ps)
  | _ => none

def definitions (s : String) : List String := (statements s).filterMap definition?

def labels (s : String) : List Text := (statements s).filterMap label?

/-- A binding module behind its interface: the class with a method for every function. -/
def body (contract : String) (abi : Abi) : String :=
  classSource (className contract) ++ String.join (abi.functions.map functionSource)

def commonMembers : List String :=
  [ "__init__", "abi_info", "client", "code_hash", "address", "get_storage", "get_contract",
    "get_contract_json" ]

section Lines

theorem definition?_opening (f : Abi.Function) :
    ((methodOf f).opening.map String.toList).filterMap definition? = [methodName f.name] := by
  have hstops : ∀ c ∈ ['('].head?, Identifier.isAllowed c = false := by
    intro c hc
    obtain rfl : '(' = c := Option.some.inj hc
    rfl
  have hname : ((methodName f.name).toList ++ ['(']).takeWhile Identifier.isAllowed =
      (methodName f.name).toList := takeWhile_plain (plain_methodName f.name) hstops
  simp [Method.opening, methodOf, definition?, List.dropPrefix?, hname]

theorem definition?_declares (p : String × String) :
    definition? (Method.declares p).toList = none := by
  simp [definition?, Method.declares, List.dropPrefix?]

theorem definition?_closing (f : Abi.Function) :
    ((closingLines f).map String.toList).filterMap definition? = [] := by
  simp [closingLines, definition?, List.dropPrefix?, -String.toList_intercalate]

theorem label?_opening (f : Abi.Function) :
    ((methodOf f).opening.map String.toList).filterMap label? = [] := by
  simp [Method.opening, label?, List.dropPrefix?, List.replicate]

/-- A name starts with no blank, so the line of a parameter is indented less. -/
theorem label?_declares {p : String × String} (h : IsIdentifier p.1) :
    label? (Method.declares p).toList = none := by
  obtain ⟨c, cs, hlist, hc, -⟩ := h
  have hblank : c ≠ ' ' := by
    rintro rfl
    exact absurd hc (by decide)
  simp [label?, Method.declares, List.dropPrefix?, List.replicate, hlist, hblank]

theorem label?_quoted (t : Text) :
    label? ("            " ++ t.quoted ++ ",").toList = some t := by
  have hstops : ∀ c ∈ [','].head?, Literal.isMark c = false := by
    intro c hc
    obtain rfl : ',' = c := Option.some.inj hc
    rfl
  have hread := Literal.readTexts_quotePoints t.points hstops
  have hcomma : Literal.readTexts .outside [','] = some ([], 0) := rfl
  obtain ⟨n, hlength⟩ : ∃ n, (Text.quotePoints t.points).length = n + 1 := ⟨_, rfl⟩
  rw [hcomma, hlength] at hread
  have hdrop : ("            " ++ t.quoted ++ ",").toList.dropPrefix? (List.replicate 12 ' ') =
      some (Text.quotePoints t.points ++ [',']) := by
    simp [Text.quoted, List.dropPrefix?, List.replicate]
  rw [label?, hdrop]
  simp [hread, Literal.advance]

/-- Behind the same indentation anything but a literal is no label. -/
theorem label?_of_not_isMark {c : Char} (hmark : Literal.isMark c = false)
    (hblank : Literal.isBlank c = false) (rest : List Char) :
    label? ("            ".toList ++ c :: rest) = none := by
  simp [label?, List.dropPrefix?, List.replicate, Literal.readTexts, hmark, hblank]

theorem label?_closing (f : Abi.Function) :
    ((closingLines f).map String.toList).filterMap label? = [f.name] := by
  have hcontract : label? "            self.contract,".toList = none :=
    label?_of_not_isMark (c := 's') rfl rfl "elf.contract,".toList
  have hnames : label?
      ("            [" ++ String.intercalate ", " (parameterNames f) ++ "],").toList = none := by
    have hnone := label?_of_not_isMark (c := '[') rfl rfl
      ((String.intercalate ", " (parameterNames f)).toList ++ "],".toList)
    simpa [-String.toList_intercalate] using hnone
  simp only [closingLines, List.map_cons, List.map_nil]
  rw [List.filterMap_cons_none (by simp [label?, List.dropPrefix?, List.replicate]),
    List.filterMap_cons_none (by simp [label?, List.dropPrefix?, List.replicate]),
    List.filterMap_cons_none hcontract, List.filterMap_cons_some (label?_quoted f.name),
    List.filterMap_cons_none hnames,
    List.filterMap_cons_none (by simp [label?, List.dropPrefix?, List.replicate]),
    List.filterMap_nil]

end Lines

/-- What the reader of a class finds in the method of a function. -/
theorem definition?_lines (f : Abi.Function) :
    (((methodOf f).lines f.name.quoted).map String.toList).filterMap definition? =
      [methodName f.name] := by
  have hparameters : (((methodOf f).parameters.map Method.declares).map String.toList).filterMap
      definition? = [] := by
    rw [List.filterMap_eq_nil_iff]
    exact List.forall_mem_map.mpr (List.forall_mem_map.mpr fun p _ => definition?_declares p)
  have hclosing : (((methodOf f).closing f.name.quoted).map String.toList).filterMap
      definition? = [] := definition?_closing f
  rw [Method.lines, List.map_append, List.map_append, List.filterMap_append, List.filterMap_append,
    definition?_opening, hparameters, hclosing]
  rfl

theorem label?_lines (f : Abi.Function) :
    (((methodOf f).lines f.name.quoted).map String.toList).filterMap label? = [f.name] := by
  have hparameters : (((methodOf f).parameters.map Method.declares).map String.toList).filterMap
      label? = [] := by
    rw [List.filterMap_eq_nil_iff]
    refine List.forall_mem_map.mpr (List.forall_mem_map.mpr fun p hp => label?_declares ?_)
    have hname : p.1 ∈ parameterNames f := map_fst_parameters f ▸ List.mem_map_of_mem hp
    exact (isIdentifier_parameterNames f p.1 hname).1
  have hclosing : (((methodOf f).closing f.name.quoted).map String.toList).filterMap label? =
      [f.name] := label?_closing f
  rw [Method.lines, List.map_append, List.map_append, List.filterMap_append, List.filterMap_append,
    label?_opening, hparameters, hclosing]
  rfl

theorem plain_className (contract : String) : Plain (className contract) := by
  unfold className
  dsimp only
  split
  · exact Identifier.plain_append (Identifier.plain_ofName contract) Identifier.plain_underscore
  · exact Identifier.plain_ofName contract

theorem unlines_flatMap {α : Type} (g : α → List String) (xs : List α) :
    unlines (xs.flatMap g) = String.join (xs.map fun x => unlines (g x)) := by
  induction xs with
  | nil => rfl
  | cons x xs ih => simp [unlines_append, ih]

/-- The lines of the class that every module has, but for the one that names it. They are given by
their characters as well, which is how the readers take them. -/
theorem exists_classLines : ∃ (ls : List String) (css : List (List Char)),
    (∀ className, classSource className = unlines (["", "", "class " ++ className ++ ":"] ++ ls)) ∧
    List.Forall₂ (fun l cs => l.toList = cs) ls css ∧ (∀ cs ∈ css, Inert cs) ∧
    (withCode css).filterMap definition? = commonMembers ∧
    (withCode css).filterMap label? = [] := by
  apply Exists.intro
  apply Exists.intro
  refine ⟨fun _ => rfl, ?_⟩
  constructor
  -- Spelling every line out once is what keeps the checks of the characters cheap.
  · repeat' first | exact String.toList_ofList | constructor
  exact ⟨by decide +kernel, by decide +kernel, by decide +kernel⟩

theorem exists_yields_classSource (contract : String) : ∃ ls own,
    classSource (className contract) = unlines ls ∧ Yields (broken ls) own ∧
    own.filterMap definition? = commonMembers ∧ own.filterMap label? = [] := by
  obtain ⟨ls, css, hsource, hspelled, hinert, hdefinitions, hlabels⟩ := exists_classLines
  obtain rfl : ls.map String.toList = css :=
    List.forall₂_eq_eq_eq ▸ List.forall₂_map_left_iff.mpr hspelled
  let opening : List String := ["", "", "class " ++ className contract ++ ":"]
  have hclass : Inert ("class " ++ className contract ++ ":").toList := by
    simp only [String.toList_append]
    refine inert_append (inert_append (by simp [Inert]) ?_) (by simp [Inert])
    exact inert_of_plain (plain_className contract)
  have hopening : ∀ l ∈ opening, Inert l.toList := by
    intro l hl
    simp only [opening, List.mem_cons, List.not_mem_nil, or_false] at hl
    rcases hl with rfl | rfl | rfl
    · simp [Inert]
    · simp [Inert]
    · exact hclass
  have hall : ∀ l ∈ opening ++ ls, Inert l.toList :=
    List.forall_mem_append.mpr ⟨hopening, List.forall_mem_map.mp hinert⟩
  have hnames : isEmptyLine ("class " ++ className contract ++ ":").toList = false :=
    Solid.isEmptyLine_eq ⟨[], 'c', "lass ".toList ++ (className contract).toList ++ [':'], by simp,
      by decide, rfl⟩
  have hcode : withCode ((opening ++ ls).map String.toList) =
      ("class " ++ className contract ++ ":").toList :: withCode (ls.map String.toList) := by
    rw [List.map_append, withCode_append]
    simp only [opening, List.map_cons, List.map_nil, withCode, List.filter_cons, hnames]
    rfl
  refine ⟨opening ++ ls, _, hsource _, yields_inert hall, ?_, ?_⟩
  · rw [hcode, List.filterMap_cons_none (by simp [definition?, List.dropPrefix?]), hdefinitions]
  · rw [hcode, List.filterMap_cons_none (by simp [label?, List.dropPrefix?, List.replicate]),
      hlabels]

theorem body_eq {contract : String} {abi : Abi} {ls : List String}
    (h : classSource (className contract) = unlines ls) :
    body contract abi = unlines (ls ++ abi.functions.flatMap methodLines) := by
  rw [body, h, unlines_append, unlines_flatMap]
  rfl

theorem yields_flatMap_methodLines {fs : List Abi.Function} (h : ∀ f ∈ fs, QuietTypes f) :
    Yields (broken (fs.flatMap methodLines))
      (fs.flatMap fun f => ((methodOf f).lines f.name.quoted).map String.toList) := by
  induction fs with
  | nil => exact .nil
  | cons f fs ih =>
    obtain ⟨hf, hfs⟩ := List.forall_mem_cons.mp h
    rw [List.flatMap_cons, List.flatMap_cons, broken_append]
    exact (yields_methodLines hf).append (ih hfs)

/-- Without code behind the first lines of types, a class has the members that every class has and
then a method for each function, whose label is the name of the function. -/
theorem definitions_and_labels_body (contract : String) {abi : Abi}
    (h : ∀ f ∈ abi.functions, QuietTypes f) :
    definitions (body contract abi) = commonMembers ++ methodNames abi ∧
      labels (body contract abi) = abi.functions.map (·.name) := by
  obtain ⟨ls, own, hsource, hyields, hdefinitions, hlabels⟩ := exists_yields_classSource contract
  have hstatements := (hyields.append (yields_flatMap_methodLines h)).withCode_eq
  rw [← broken_append, ← statements_unlines, ← body_eq hsource] at hstatements
  constructor
  · rw [definitions, hstatements, List.filterMap_append, hdefinitions, List.filterMap_flatMap]
    simp only [definition?_lines]
    rw [methodNames, List.map_eq_flatMap]
  · rw [labels, hstatements, List.filterMap_append, hlabels, List.filterMap_flatMap]
    simp only [label?_lines]
    rw [List.map_eq_flatMap, List.nil_append]

end Bindery.Binding
