import Bindery.Binding.Source
import Bindery.Proofs.InterfaceText
import Bindery.Proofs.LiteralText

/-!
# The interface in a binding module

What is set out for a document is cut into the tokens of the document, in one line as on many. So
the literal in the source of a binding module denotes the document of the interface, with its names
in their order.
-/

namespace Bindery.Literal

open Json (Token Cuts tokensOf itemTokens memberTokens nameTokens)

theorem ends_cons {c : Char} (h : c = ',' ∨ c = ':' ∨ c = ']' ∨ c = '\x7d') (rest : List Char) :
    Ends (c :: rest) := by
  refine ⟨fun d hd => ?_, ?_⟩
  · obtain rfl : c = d := Option.some.inj hd
    rcases h with rfl | rfl | rfl | rfl <;> decide
  · rcases h with rfl | rfl | rfl | rfl <;> rfl

theorem cuts_name (name : Text) (rest : List Char) :
    Cuts isBlank scan rest (Text.quotePoints name.points ++ [':', ' ']) (nameTokens name) := by
  have hcolon : Cuts isBlank scan rest ([':'] ++ [' ']) [.colon] :=
    (lexis.cuts_mark (by simp [Json.punctuation])).append lexis.cuts_space
  exact (cuts_quotePoints name.points (ends_cons (.inr (.inl rfl)) _)).append hcolon

/-- A comma and the blanks behind it. -/
theorem cuts_comma {blanks : List Char} (h : ∀ c ∈ blanks, isBlank c = true) (rest : List Char) :
    Cuts isBlank scan rest (',' :: blanks) [.comma] :=
  (lexis.cuts_mark (by simp [Json.punctuation])).append (.blanks h)

def arrayTokens : List Json → List Token
  | [] => []
  | x :: rest => tokensOf x ++ itemTokens rest

def objectTokens : List (Text × Json) → List Token
  | [] => []
  | (name, x) :: rest => nameTokens name ++ tokensOf x ++ memberTokens rest

theorem cuts_array {items : List Json} {cs rest : List Char}
    (h : Cuts isBlank scan (']' :: rest) cs (arrayTokens items)) :
    Cuts isBlank scan rest ('[' :: cs ++ [']']) (tokensOf (.arr items)) := by
  have hopen : Cuts isBlank scan (cs ++ ']' :: rest) ['['] [.openArray] :=
    lexis.cuts_mark (by simp [Json.punctuation])
  have hclose : Cuts isBlank scan rest [']'] [.closeArray] :=
    lexis.cuts_mark (by simp [Json.punctuation])
  have hall := (hopen.append h).append hclose
  cases items with
  | nil => exact hall
  | cons x rest => exact hall

theorem cuts_object {members : List (Text × Json)} {cs rest : List Char}
    (h : Cuts isBlank scan ('\x7d' :: rest) cs (objectTokens members)) :
    Cuts isBlank scan rest ('\x7b' :: cs ++ ['\x7d']) (tokensOf (.obj members)) := by
  have hopen : Cuts isBlank scan (cs ++ '\x7d' :: rest) ['\x7b'] [.openObject] :=
    lexis.cuts_mark (by simp [Json.punctuation])
  have hclose : Cuts isBlank scan rest ['\x7d'] [.closeObject] :=
    lexis.cuts_mark (by simp [Json.punctuation])
  have hall := (hopen.append h).append hclose
  cases members with
  | nil => exact hall
  | cons m rest => exact hall

theorem isBlank_space : ∀ c ∈ [' '], isBlank c = true := List.forall_mem_singleton.mpr rfl

/-- An item, a comma and the items behind it. -/
theorem cuts_item {x y : Json} {ys : List Json} {cs blanks more rest : List Char}
    (hx : Cuts isBlank scan (',' :: blanks ++ (more ++ rest)) cs (tokensOf x))
    (hblanks : ∀ c ∈ blanks, isBlank c = true)
    (hmore : Cuts isBlank scan rest more (arrayTokens (y :: ys))) :
    Cuts isBlank scan rest (cs ++ ',' :: blanks ++ more) (arrayTokens (x :: y :: ys)) := by
  have hall := (hx.append (cuts_comma hblanks _)).append hmore
  simpa only [arrayTokens, itemTokens, List.append_assoc] using hall

/-- A member, a comma and the members behind it. -/
theorem cuts_member {name : Text} {x : Json} {m : Text × Json} {ms : List (Text × Json)}
    {cs blanks more rest : List Char}
    (hx : Cuts isBlank scan (',' :: blanks ++ (more ++ rest)) cs (tokensOf x))
    (hblanks : ∀ c ∈ blanks, isBlank c = true)
    (hmore : Cuts isBlank scan rest more (objectTokens (m :: ms))) :
    Cuts isBlank scan rest
      (Text.quotePoints name.points ++ [':', ' '] ++ cs ++ ',' :: blanks ++ more)
      (objectTokens ((name, x) :: m :: ms)) := by
  have hall := (((cuts_name name _).append hx).append (cuts_comma hblanks _)).append hmore
  simpa only [objectTokens, memberTokens, List.append_assoc] using hall

theorem cuts_last_item {x : Json} {cs rest : List Char}
    (hx : Cuts isBlank scan rest cs (tokensOf x)) :
    Cuts isBlank scan rest cs (arrayTokens [x]) := by
  rwa [arrayTokens, itemTokens, List.append_nil]

theorem cuts_last_member {name : Text} {x : Json} {cs rest : List Char}
    (hx : Cuts isBlank scan rest cs (tokensOf x)) :
    Cuts isBlank scan rest (Text.quotePoints name.points ++ [':', ' '] ++ cs)
      (objectTokens [(name, x)]) := by
  rw [objectTokens, memberTokens, List.append_nil]
  exact (cuts_name name _).append hx

theorem cuts_null (rest : List Char) :
    Cuts isBlank scan rest ['N', 'o', 'n', 'e'] [.scalar .null] :=
  .token rfl rfl (by simp)

theorem cuts_bool (b : Bool) (rest : List Char) :
    Cuts isBlank scan rest (if b then "True" else "False").toList [.scalar (.bool b)] := by
  cases b with
  | false =>
    have hword : Cuts isBlank scan rest ['F', 'a', 'l', 's', 'e'] [.scalar (.bool false)] :=
      .token rfl rfl (by simp)
    exact hword
  | true =>
    have hword : Cuts isBlank scan rest ['T', 'r', 'u', 'e'] [.scalar (.bool true)] :=
      .token rfl rfl (by simp)
    exact hword

mutual

/-- A document in one line is cut into its tokens. -/
theorem cuts_oneLine (j : Json) (hplain : j.Plain) {rest : List Char} (hrest : Ends rest) :
    Cuts isBlank scan rest (oneLine j) (tokensOf j) := by
  cases j with
  | null => exact cuts_null rest
  | bool b => exact cuts_bool b rest
  | int n => exact lexis.cuts_int n hrest.1
  | float x => exact lexis.cuts_float hplain hrest.1
  | str t => exact cuts_quotePoints t.points hrest
  | arr items => exact cuts_array (cuts_literalItems items hplain (ends_cons (by simp) rest))
  | obj members =>
    exact cuts_object (cuts_literalMembers members hplain.2.2 (ends_cons (by simp) rest))

theorem cuts_literalItems (items : List Json) (hplain : Json.PlainItems items) {rest : List Char}
    (hrest : Ends rest) :
    Cuts isBlank scan rest (Value.literalItems (Value.ofJsonItems items)) (arrayTokens items) := by
  match items with
  | [] => exact .nil
  | [x] => exact cuts_last_item (cuts_oneLine x hplain.1 hrest)
  | x :: y :: ys =>
    -- A comma stands behind the item, so neither a number nor a text goes on there.
    have hx := cuts_oneLine x hplain.1 (ends_cons (.inl rfl) (' ' ::
      (Value.literalItems (Value.ofJsonItems (y :: ys)) ++ rest)))
    exact cuts_item hx isBlank_space (cuts_literalItems (y :: ys) hplain.2 hrest)

theorem cuts_literalMembers (members : List (Text × Json)) (hplain : Json.PlainMembers members)
    {rest : List Char} (hrest : Ends rest) :
    Cuts isBlank scan rest (Value.literalMembers (Value.ofJsonMembers members))
      (objectTokens members) := by
  match members with
  | [] => exact .nil
  | [(name, x)] => exact cuts_last_member (cuts_oneLine x hplain.1 hrest)
  | (name, x) :: (next, y) :: ms =>
    have hx := cuts_oneLine x hplain.1 (ends_cons (.inl rfl) (' ' ::
      (Value.literalMembers (Value.ofJsonMembers ((next, y) :: ms)) ++ rest)))
    exact cuts_member hx isBlank_space (cuts_literalMembers ((next, y) :: ms) hplain.2 hrest)

end

mutual

/-- A document is cut into its tokens, however it is set out. -/
theorem cuts_layout (column reserve : ℕ) (j : Json) (hplain : j.Plain) {rest : List Char}
    (hrest : Ends rest) : Cuts isBlank scan rest (layout column reserve j) (tokensOf j) := by
  cases j with
  | null => exact cuts_oneLine _ hplain hrest
  | bool b => exact cuts_oneLine _ hplain hrest
  | int n => exact cuts_oneLine _ hplain hrest
  | float x => exact cuts_oneLine _ hplain hrest
  | str t =>
    unfold layout
    split
    · exact cuts_oneLine _ hplain hrest
    · exact cuts_wrapText column reserve t hrest
  | arr items =>
    unfold layout
    split
    · exact cuts_oneLine _ hplain hrest
    · exact cuts_array (cuts_layoutItems _ _ items hplain (ends_cons (by simp) rest))
  | obj members =>
    unfold layout
    split
    · exact cuts_oneLine _ hplain hrest
    · exact cuts_object (cuts_layoutMembers _ _ members hplain.2.2 (ends_cons (by simp) rest))

theorem cuts_layoutItems (column reserve : ℕ) (items : List Json)
    (hplain : Json.PlainItems items) {rest : List Char} (hrest : Ends rest) :
    Cuts isBlank scan rest (layoutItems column reserve items) (arrayTokens items) := by
  match items with
  | [] => exact .nil
  | [x] => exact cuts_last_item (cuts_layout column reserve x hplain.1 hrest)
  | x :: y :: ys =>
    have hx := cuts_layout column 1 x hplain.1 (ends_cons (.inl rfl) (newline column ++
      (layoutItems column reserve (y :: ys) ++ rest)))
    exact cuts_item hx (isBlank_newline column)
      (cuts_layoutItems column reserve (y :: ys) hplain.2 hrest)

theorem cuts_layoutMembers (column reserve : ℕ) (members : List (Text × Json))
    (hplain : Json.PlainMembers members) {rest : List Char} (hrest : Ends rest) :
    Cuts isBlank scan rest (layoutMembers column reserve members) (objectTokens members) := by
  match members with
  | [] => exact .nil
  | [(name, x)] => exact cuts_last_member (cuts_layout _ reserve x hplain.1 hrest)
  | (name, x) :: (next, y) :: ms =>
    -- The value starts behind its name, at a column that does not matter here.
    have hx (start : ℕ) := cuts_layout start 1 x hplain.1 (ends_cons (.inl rfl) (newline column ++
      (layoutMembers column reserve ((next, y) :: ms) ++ rest)))
    exact cuts_member (hx _) (isBlank_newline column)
      (cuts_layoutMembers column reserve ((next, y) :: ms) hplain.2 hrest)

end

theorem toList_render (j : Json) : (render j).toList = layout 0 0 j := String.toList_ofList

/-- The display of a mapping starts with its bracket. -/
theorem exists_layout_eq_cons (column reserve : ℕ) (members : List (Text × Json)) :
    ∃ cs, layout column reserve (.obj members) = '\x7b' :: cs := by
  unfold layout
  split
  · exact ⟨_, rfl⟩
  · exact ⟨_, rfl⟩

/-- What is set out for an object is read as the object, with blank lines behind it. -/
theorem read_render {members : List (Text × Json)} (hplain : (Json.obj members).Plain)
    (hlong : (Json.obj members).hasLongInteger = false) :
    read (render (.obj members) ++ "\n\n\n") = some (.obj members) := by
  have hends : Ends ("\n\n\n".toList ++ []) :=
    ⟨fun c hc => by obtain rfl : '\n' = c := Option.some.inj hc; decide, rfl⟩
  have hblanks : Cuts isBlank scan [] ['\n', '\n', '\n'] [] := .blanks (by simp [lexis.newline])
  have hcuts := (cuts_layout 0 0 (.obj members) hplain hends).append hblanks
  rw [List.append_nil] at hcuts
  have htext : (render (.obj members) ++ "\n\n\n").toList =
      layout 0 0 (.obj members) ++ "\n\n\n".toList := by
    rw [String.toList_append, toList_render]
  obtain ⟨cs, hcs⟩ := exists_layout_eq_cons 0 0 members
  unfold read
  rw [htext, Json.runFreely_of_run (Json.run_of_cuts hplain hlong le_rfl hcuts _), hcs]
  rfl

/-- Texts in a row are one, and the last of two members of one name counts, at the first place. -/
example : read "\x7b'a': 'b', 'c': -1,\n 'a': 'd' \"e\\x41\"\n 'f'\x7d" =
    some (.obj [("a", .str "deAf"), ("c", .int (-1))]) := rfl

/-- Three marks in a row open another kind of text. -/
example : read "\x7b'a': '''b'''\x7d" = none := rfl

end Bindery.Literal

namespace Bindery.Abi

theorem exists_toJson_eq_obj {abi : Abi} {document : Json} (h : abi.toJson = .ok document) :
    ∃ members, document = .obj members := by
  obtain ⟨functions, -, h⟩ := bind_eq_ok.mp h
  obtain ⟨extra, -, h⟩ := bind_eq_ok.mp h
  cases h
  exact ⟨_, rfl⟩

end Bindery.Abi

namespace Bindery.Binding

theorem unlines_append (ls ms : List String) : unlines (ls ++ ms) = unlines ls ++ unlines ms := by
  simp [unlines]

def preamble (className runtime : String) : List String :=
  [ "\"\"\"",
    "Generated binding for the " ++ className ++ " contract.",
    "",
    "This file was generated by typetology. Do not edit by hand.",
    "\"\"\"",
    "from __future__ import annotations",
    "",
    "from typing import Any, List, Union",
    "",
    "from " ++ runtime ++ " import AbiInfo, DeferredTransactionWrapper, TypetologyContract",
    "" ]

theorem head_eq (className runtime literal : String) :
    head className runtime literal =
      unlines (preamble className runtime) ++ "ABI = " ++ literal ++ "\n" := by
  have hlines : head className runtime literal =
      unlines (preamble className runtime ++ ["ABI = " ++ literal]) := rfl
  rw [hlines, unlines_append]
  simp [unlines, String.append_assoc]

/-- Two blank lines stand before the class. -/
theorem exists_classSource_eq (className : String) :
    ∃ rest, classSource className = "\n\n" ++ "class " ++ className ++ ":\n" ++ rest := by
  obtain ⟨ls, hls⟩ : ∃ ls, classSource className =
      unlines (["", "", "class " ++ className ++ ":"] ++ ls) := ⟨_, rfl⟩
  refine ⟨unlines ls, String.toList_injective ?_⟩
  rw [hls, unlines_append]
  simp [unlines]

theorem brokenType?_eq_none_iff {f : Abi.Function} :
    brokenType? f = none ↔ ∀ p ∈ f.parameters, p.type.isWhole := by
  rw [brokenType?, List.findSome?_eq_none_iff]
  refine forall₂_congr fun p _ => ?_
  cases p.type <;> simp [Text.broken?, Text.isWhole, Text.whole?]

theorem source_eq (contract runtime : String) {abi : Abi} {document : Json}
    (hdocument : abi.toJson = .ok document) (hlong : ¬ document.hasLongInteger) :
    source contract runtime abi = .ok (head (className contract) runtime (Literal.render document)
      ++ classSource (className contract) ++ String.join (abi.functions.map functionSource)) := by
  rw [source, hdocument, ok_bind, if_neg hlong]
  rfl

/-- The text between the name of the interface and the class that follows denotes the document of
the interface; there is none if some integer of it is too long to write. -/
theorem source_reads_back (contract runtime : String) {abi : Abi} {document : Json}
    (habi : abi.toValue.Distinct) (hdocument : abi.toJson = .ok document) :
    if document.hasLongInteger then
      source contract runtime abi = .error (.misuse .longInteger)
    else
      ∃ literal rest,
        source contract runtime abi = .ok (unlines (preamble (className contract) runtime)
          ++ "ABI = " ++ literal ++ "class " ++ className contract ++ ":\n" ++ rest) ∧
        Literal.read literal = some document := by
  split
  · rename_i hlong
    rw [source, hdocument, ok_bind, if_pos hlong]
    rfl
  · rename_i hlong
    -- The line end of the literal and the two blank lines before the class are read along with it.
    obtain ⟨members, rfl⟩ := Abi.exists_toJson_eq_obj hdocument
    obtain ⟨rest, hclass⟩ := exists_classSource_eq (className contract)
    refine ⟨Literal.render (.obj members) ++ "\n\n\n",
      rest ++ String.join (abi.functions.map functionSource), ?_, ?_⟩
    · rw [source_eq contract runtime hdocument hlong, head_eq, hclass]
      refine congrArg Except.ok (String.toList_injective ?_)
      simp
    · exact Literal.read_render (Abi.plain_toJson habi hdocument)
        (Bool.eq_false_of_not_eq_true hlong)

theorem source_reads_back_mixed :
    ∃ abi document literal rest, Abi.parse 0 Abi.mixedDocument = .ok abi ∧
      abi.toJson = .ok document ∧ document.hasLongInteger = false ∧
      source "Token" "typetology_runtime" abi =
        .ok (unlines (preamble (className "Token") "typetology_runtime")
          ++ "ABI = " ++ literal ++ "class " ++ className "Token" ++ ":\n" ++ rest) ∧
      Literal.read literal = some document := by
  have hmade : (Abi.parse 0 Abi.mixedDocument >>= source "Token" "typetology_runtime").isOk := by
    decide +kernel
  obtain ⟨text, htext⟩ := exists_eq_ok hmade
  obtain ⟨abi, habi, htext⟩ := bind_eq_ok.mp htext
  obtain ⟨document, hdocument, -⟩ := bind_eq_ok.mp htext
  have hread := source_reads_back "Token" "typetology_runtime"
    (Abi.distinct_parse Abi.distinct_mixedDocument habi) hdocument
  split at hread
  · rw [hread] at htext
    cases htext
  · rename_i hlong
    obtain ⟨literal, rest, hsource, hliteral⟩ := hread
    exact ⟨abi, document, literal, rest, habi, hdocument, Bool.eq_false_of_not_eq_true hlong,
      hsource, hliteral⟩

end Bindery.Binding
