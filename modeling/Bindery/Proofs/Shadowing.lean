import Bindery.Proofs.ClassText
import Bindery.Proofs.Hygiene
import Bindery.Proofs.WritableValues

/-!
# Members that hide others

The warning before a binding is made lists the names that several methods get, in the order in which
they first occur. A method never gets the name of a member that every class has, for it ends with
the mark of methods, so without a warning all names of a class are distinct. What a class keeps
apart are its own names, though: of two methods one can be named as the class keeps the other.
-/

namespace Bindery

namespace Identifier

theorem clean_append (as bs : List Char) : clean (as ++ bs) = clean as ++ clean bs :=
  List.map_append

/-- The mark of methods stays at the end of an identifier. -/
theorem suffix_ofName (name : String) : ['T', 'x'] <:+ (ofName (name ++ "Tx")).toList := by
  have hclean : clean (name ++ "Tx").toList = clean name.toList ++ ['T', 'x'] := by
    rw [String.toList_append, clean_append]
    rfl
  have hshape : ['T', 'x'] <:+ shape (name ++ "Tx").toList := by
    have hsuffix : ['T', 'x'] <:+ clean (name ++ "Tx").toList := ⟨_, hclean.symm⟩
    unfold shape
    split
    · rename_i hnil
      rw [hclean] at hnil
      simp at hnil
    · rename_i c rest hcons
      rw [hcons] at hsuffix
      split
      · exact hsuffix.trans (List.suffix_cons _ _)
      · exact hsuffix
  have hwords : ∀ w ∈ "self" :: keywords, ¬ ['T', 'x'] <:+ w.toList := by decide +kernel
  unfold ofName
  dsimp only
  split
  · rename_i hreserved
    refine absurd ?_ (hwords _ (isReserved_iff.mp hreserved))
    rwa [String.toList_ofList]
  · rwa [String.toList_ofList]

theorem suffix_ownName {cls name : String} {mark : List Char} (h : mark <:+ name.toList) :
    mark <:+ (ownName cls name).toList := by
  unfold ownName
  split
  · rw [String.toList_append]
    exact h.trans (List.suffix_append _ _)
  · exact h

end Identifier

namespace Binding

open SourceText
open Identifier (IsIdentifier ownName KeepsApart)

/-- What `listed` says of `names`: the names that occur twice or more, each once, in the order in
which they first occur. -/
structure Repeats (names listed : List String) : Prop where
  mem_iff : ∀ n, n ∈ listed ↔ 2 ≤ names.count n
  ordered : listed.Pairwise fun a b => names.idxOf a < names.idxOf b

/-- Without their repeats names stand in the order of their first occurrences. -/
theorem pairwise_idxOf_eraseDups (names : List String) :
    names.eraseDups.Pairwise fun a b => names.idxOf a < names.idxOf b := by
  induction names using List.reverseRecOn with
  | nil => exact List.Pairwise.nil
  | append_singleton names n ih =>
    have hbefore : names.eraseDups.Pairwise fun a b =>
        (names ++ [n]).idxOf a < (names ++ [n]).idxOf b := by
      refine ih.imp_of_mem fun {a b} ha hb hab => ?_
      rwa [List.idxOf_append_of_mem (List.mem_eraseDups.mp ha),
        List.idxOf_append_of_mem (List.mem_eraseDups.mp hb)]
    rw [List.eraseDups_append]
    by_cases hn : n ∈ names
    · have hnone : [n].removeAll names = [] := by simp [List.removeAll, hn]
      rwa [hnone, List.eraseDups_nil, List.append_nil]
    · have hnew : [n].removeAll names = [n] := by simp [List.removeAll, hn]
      rw [hnew, List.eraseDups_cons, List.filter_nil, List.eraseDups_nil]
      refine List.pairwise_append.mpr ⟨hbefore, List.pairwise_singleton _ n, fun a ha b hb => ?_⟩
      have hin : a ∈ names := List.mem_eraseDups.mp ha
      obtain rfl : b = n := List.mem_singleton.mp hb
      rw [List.idxOf_append_of_mem hin, List.idxOf_append_of_notMem hn]
      exact Nat.lt_add_right _ (List.idxOf_lt_length_of_mem hin)

theorem repeats_repeated (names : List String) : Repeats names (repeated names) where
  mem_iff n := by
    rw [repeated, List.mem_filter, List.mem_eraseDups, decide_eq_true_eq]
    refine and_iff_right_of_imp fun hcount => ?_
    exact List.count_pos_iff.mp (Nat.lt_of_succ_lt hcount)
  ordered := (pairwise_idxOf_eraseDups names).filter _

theorem Repeats.eq_nil_iff {names listed : List String} (h : Repeats names listed) :
    listed = [] ↔ names.Nodup := by
  rw [List.nodup_iff_count_le_one, List.eq_nil_iff_forall_not_mem]
  refine forall_congr' fun n => ?_
  rw [h.mem_iff]
  omega

def duplicateReport (contract : String) (listed : List String) : List LogRecord :=
  if listed = [] then []
  else
    [⟨.warning, .generator,
      contract ++ ": duplicate method names " ++ String.intercalate ", " listed
        ++ "; the last definition of each method wins"⟩]

theorem warnings_eq (contract : String) (abi : Abi) :
    warnings contract abi = duplicateReport contract (repeated (methodNames abi)) := by
  unfold warnings duplicateReport
  split
  · rename_i hnil
    rw [if_pos hnil]
  · rename_i hsome
    rw [if_neg hsome]

theorem warnings_eq_nil_iff {contract : String} {abi : Abi} :
    warnings contract abi = [] ↔ (methodNames abi).Nodup := by
  rw [← (repeats_repeated (methodNames abi)).eq_nil_iff, warnings_eq, duplicateReport]
  split
  · simp_all
  · simp_all

def inherited : List String := "contract" :: commonMembers

theorem suffix_of_mem_methodNames {abi : Abi} {n : String} (h : n ∈ methodNames abi) :
    ['T', 'x'] <:+ n.toList := by
  obtain ⟨f, -, rfl⟩ := List.mem_map.mp h
  exact Identifier.suffix_ofName f.name.shown

/-- No two names are kept under one by the class. -/
def Unshadowed (cls : String) (names : List String) : Prop :=
  ((inherited ++ names).map (ownName cls)).Nodup

theorem nodup_inherited_append_iff {names : List String}
    (h : ∀ n ∈ names, ['T', 'x'] <:+ n.toList) : (inherited ++ names).Nodup ↔ names.Nodup := by
  have hinherited : ∀ m ∈ inherited, ¬ ['T', 'x'] <:+ m.toList := by decide +kernel
  rw [List.nodup_append, and_iff_right (by simp [inherited, commonMembers])]
  refine and_iff_left fun m hm n hn heq => ?_
  exact hinherited m hm (heq ▸ h n hn)

theorem unshadowed_iff {cls : String} {names : List String}
    (h : ∀ n ∈ names, ['T', 'x'] <:+ n.toList) :
    Unshadowed cls names ↔ names.Nodup ∧ KeepsApart cls names := by
  have hpublic : ∀ m ∈ inherited, Identifier.isPrivate m = false := by decide +kernel
  have hinherited : inherited.map (ownName cls) = inherited :=
    (List.map_congr_left fun m hm => Identifier.ownName_of_public (hpublic m hm)).trans
      (List.map_id _)
  have hkept : ∀ n ∈ names.map (ownName cls), ['T', 'x'] <:+ n.toList :=
    List.forall_mem_map.mpr fun n hn => Identifier.suffix_ownName (h n hn)
  rw [Unshadowed, List.map_append, hinherited, nodup_inherited_append_iff hkept]
  constructor
  · intro hnodup
    have hnames : names.Nodup := hnodup.of_map _
    exact ⟨hnames, (Identifier.nodup_map_ownName_iff hnames).mp hnodup⟩
  · rintro ⟨hnames, hapart⟩
    exact (Identifier.nodup_map_ownName_iff hnames).mpr hapart

theorem isIdentifier_methodNames (abi : Abi) :
    ∀ n ∈ methodNames abi, IsIdentifier n ∧ n ∉ "self" :: Identifier.keywords := by
  intro n hn
  obtain ⟨f, -, rfl⟩ := List.mem_map.mp hn
  refine ⟨isIdentifier_methodName f.name, ?_⟩
  rw [← Identifier.isReserved_iff]
  exact Identifier.not_isReserved_ofName _

section Head

def behind? (mark : List Char) : List Char → Option (List Char)
  | [] => none
  | c :: cs => ((c :: cs).dropPrefix? mark).or (behind? mark cs)

/-- The names that a line of a module binds: those that it imports, or the one that it defines. -/
def boundNames (line : List Char) : List String :=
  if "from ".toList.isPrefixOf line then
    ((behind? " import ".toList line).getD []).splitOn ',' |>.map fun name =>
      String.ofList (name.filter Identifier.isAllowed)
  else if " = ".toList.isPrefixOf (line.dropWhile Identifier.isAllowed) then
    [String.ofList (line.takeWhile Identifier.isAllowed)]
  else []

/-- The lines up to the interface bind the names that a class makes way for. -/
theorem boundNames_preamble (cls : String) :
    (preamble cls runtimeModule ++ ["ABI = "]).flatMap (boundNames ·.toList) = moduleNames := by
  have htitle : boundNames ("Generated binding for the " ++ cls ++ " contract.").toList = [] := by
    simp [boundNames, Identifier.isAllowed, Identifier.isDigit]
  obtain ⟨rest, hpreamble, hrest⟩ : ∃ rest, (∀ cls, preamble cls runtimeModule =
      "\"\"\"" :: ("Generated binding for the " ++ cls ++ " contract.") :: rest) ∧
      (rest ++ ["ABI = "]).flatMap (boundNames ·.toList) = moduleNames :=
    ⟨_, fun _ => rfl, by decide +kernel⟩
  have hquotes : boundNames "\"\"\"".toList = [] := by
    simp [boundNames, Identifier.isAllowed, Identifier.isDigit]
  rw [hpreamble, List.cons_append, List.cons_append, List.flatMap_cons, List.flatMap_cons, hquotes,
    htitle, hrest]
  rfl

end Head

/-- A binding is the lines up to the interface, the interface and the class. -/
theorem exists_source_eq_append {contract runtime text : String} {abi : Abi}
    (h : source contract runtime abi = .ok text) :
    ∃ literal, text = unlines (preamble (className contract) runtime) ++ "ABI = " ++ literal ++ "\n"
      ++ body contract abi := by
  obtain ⟨document, hdocument, hrest⟩ := bind_eq_ok.mp h
  have hlong : ¬ document.hasLongInteger := by
    intro hlong
    rw [hlong] at hrest
    cases hrest
  rw [source_eq contract runtime hdocument hlong, head_eq] at h
  refine ⟨Literal.render document, (Except.ok.inj h).symm.trans ?_⟩
  rw [body, ← String.append_assoc]

/-- Every function gets a method under an identifier, and the report lists the names that several
methods get. Without a report all names of the class are distinct, also as the class keeps them if
it keeps them apart, and the class makes way for all names that the module binds before it. The
module can be made just when the interface can be written and no kept value of it goes too deep, and
without code behind the first lines of types its class then has the common members and one method
for each function, with its name. -/
theorem class_of_source (contract : String) (abi : Abi) :
    (∀ n ∈ methodNames abi, IsIdentifier n ∧ n ∉ "self" :: Identifier.keywords) ∧
    (∃ listed, Repeats (methodNames abi) listed ∧
      warnings contract abi = duplicateReport contract listed) ∧
    (warnings contract abi = [] ↔ (inherited ++ methodNames abi).Nodup) ∧
    (Unshadowed (className contract) (methodNames abi) ↔
      warnings contract abi = [] ∧ KeepsApart (className contract) (methodNames abi)) ∧
    className contract ∉ (preamble (className contract) runtimeModule ++ ["ABI = "]).flatMap
      (boundNames ·.toList) ∧
    ((∃ text, source contract runtimeModule abi = .ok text) ↔
      abi.toValue.Writes ∧ abi.KeptWithin Abi.nestingLimit) ∧
    ∀ text, source contract runtimeModule abi = .ok text →
      (∃ literal, text = unlines (preamble (className contract) runtimeModule) ++ "ABI = "
        ++ literal ++ "\n" ++ body contract abi) ∧
      ((∀ f ∈ abi.functions, QuietTypes f) →
        definitions (body contract abi) = commonMembers ++ methodNames abi ∧
        labels (body contract abi) = abi.functions.map (·.name)) := by
  have hsuffix : ∀ n ∈ methodNames abi, ['T', 'x'] <:+ n.toList := fun n =>
    suffix_of_mem_methodNames
  refine ⟨isIdentifier_methodNames abi, ⟨_, repeats_repeated _, warnings_eq contract abi⟩, ?_, ?_,
    ?_, exists_source_eq_ok_iff, fun text h => ⟨exists_source_eq_append h, fun hquiet => ?_⟩⟩
  · rw [warnings_eq_nil_iff, nodup_inherited_append_iff hsuffix]
  · rw [unshadowed_iff hsuffix, warnings_eq_nil_iff]
  · rw [boundNames_preamble]
    exact className_not_mem_moduleNames contract
  · exact definitions_and_labels_body contract hquiet

theorem class_of_source_token :
    let transfer : Abi.Function := ⟨"transfer", [⟨"to", "ByteArray", []⟩, ⟨"from", "Int", []⟩], []⟩
    let abi : Abi := ⟨"00", [transfer, ⟨"pass", [], []⟩], []⟩
    (∃ text, source "Token" runtimeModule abi = .ok text) ∧ (∀ f ∈ abi.functions, QuietTypes f) ∧
      definitions (body "Token" abi) = commonMembers ++ ["transferTx", "passTx"] ∧
      labels (body "Token" abi) = ["transfer", "pass"] := by
  intro transfer abi
  obtain ⟨-, -, -, -, -, -, hread⟩ := class_of_source "Token" abi
  have hmade : (source "Token" runtimeModule abi).isOk := by decide +kernel
  obtain ⟨text, htext⟩ := exists_eq_ok hmade
  have hquiet : ∀ f ∈ abi.functions, QuietTypes f := by
    have hline (p : Abi.Parameter) (hp : p ∈ transfer.parameters) :
        SingleLine p.type.shown.toList := by
      have htypes : ∀ q ∈ transfer.parameters, Unbroken q.type.shown.toList := by
        simp [transfer, Unbroken, Text.shown]
      exact (htypes p hp).singleLine
    refine List.forall_mem_cons.mpr ⟨fun p hp => quiet_of_singleLine (hline p hp), ?_⟩
    exact List.forall_mem_singleton.mpr (List.forall_mem_nil _)
  obtain ⟨hdefinitions, hlabels⟩ := (hread text htext).2 hquiet
  have hnames : methodNames abi = ["transferTx", "passTx"] := by decide +kernel
  exact ⟨⟨text, htext⟩, hquiet, hnames ▸ hdefinitions, hlabels⟩

/-- A type can go on with a method of its own, which replaces another one without a report; and two
methods of a class can be kept under one name. -/
theorem class_redefines_method :
    let type := "Int\n    ) -> Any: ...\n\n    def gTx(\n        self,  # x"
    let document := Value.dict
      [ ("hash", .text "00"),
        ("functions", .list
          [ .dict [("name", .text "g")],
            .dict [("name", .text "f"), ("parameters", .list
              [.dict [("name", .text "a"), ("type", .text type)]])] ]) ]
    let abi : Abi := ⟨"00", [⟨"g", [], []⟩, ⟨"f", [⟨"a", type, []⟩], []⟩], []⟩
    let mangled : Abi := ⟨"00", [⟨"__f", [], []⟩, ⟨"_C__f", [], []⟩], []⟩
    (Abi.parse 960 document).toOption = some abi ∧
      (∃ text, source "C" runtimeModule abi = .ok text) ∧ warnings "C" abi = [] ∧
      definitions (body "C" abi) = commonMembers ++ ["gTx", "fTx", "gTx"] ∧
      warnings "C" mangled = [] ∧ ¬ Unshadowed (className "C") (methodNames mangled) := by
  intro type document abi mangled
  let g : Abi.Function := ⟨"g", [], []⟩
  let f : Abi.Function := ⟨"f", [⟨"a", type, []⟩], []⟩
  have hg : QuietTypes g := List.forall_mem_nil _
  have hf : (withCode (codeLines .code (broken (methodLines f)))).filterMap definition? =
      ["fTx", "gTx"] := by decide +kernel
  have hgTx : methodName g.name = "gTx" := by decide +kernel
  have hdefinitions : definitions (body "C" abi) = commonMembers ++ ["gTx", "fTx", "gTx"] := by
    obtain ⟨ls, own, hsource, hyields, hown, -⟩ := exists_yields_classSource "C"
    have hstatements := (hyields.append (yields_methodLines hg)) (broken (methodLines f))
    have hlines : broken ls ++ broken (methodLines g) ++ broken (methodLines f) =
        broken (ls ++ abi.functions.flatMap methodLines) := by
      simp [abi, g, f, broken_append]
    rw [hlines, ← statements_unlines, ← body_eq hsource] at hstatements
    rw [definitions, hstatements, List.filterMap_append, List.filterMap_append, hown, hf,
      definition?_lines, hgTx, List.append_assoc]
    rfl
  have hmade : (source "C" runtimeModule abi).isOk := by decide +kernel
  refine ⟨rfl, exists_eq_ok hmade, ?_, hdefinitions, ?_, ?_⟩
  · exact warnings_eq_nil_iff.mpr (by decide +kernel)
  · exact warnings_eq_nil_iff.mpr (by decide +kernel)
  · unfold Unshadowed
    decide +kernel

end Binding

end Bindery
