import Bindery.Proofs.EmbeddedLiteral
import Bindery.Proofs.MethodText
import Bindery.Proofs.PrivateNames

/-!
# Names in the body of a method

The body of a method finds a name among its parameters first, the receiver before the others, and
else among the names of the module, all of them as the class keeps them. A method is accepted when
no two of its parameters are kept under one name and none is the debugging constant, which cannot be
bound; and its text may hold no null character. It then records the call that it was made for when
the wrapper is still found in the module. Names are issued without regard to any of this, so it
hangs on the names that the interface gives.
-/

namespace Bindery

namespace Identifier

theorem Issues.mem {names issued : List String} (h : Issues names issued) {name : String}
    (hname : name ∈ names) : name ∈ issued := by
  obtain ⟨before, after, hsplit, hnew⟩ := List.eq_append_cons_of_mem hname
  obtain ⟨done, given, later, rfl, -, hgiven⟩ := h.given before name after hsplit
  rw [hgiven.first hnew]
  exact List.mem_append_right done List.mem_cons_self

/-- A name that no number makes is issued just when it is there. -/
theorem mem_unique_iff {names : List String} {name : String} (h : ∀ n i, numbered n i ≠ name) :
    name ∈ unique names ↔ name ∈ names := by
  refine ⟨fun hissued => ?_, (issues_unique names).mem⟩
  by_contra hname
  have hnot := forall_mem_unique (P := (· ≠ name)) (fun n i _ => h n i)
    (fun n hn heq => hname (heq ▸ hn))
  exact hnot name hissued rfl

end Identifier

namespace Binding

open SourceText
open Identifier (ownName KeepsApart)

def wrapperName : String := "DeferredTransactionWrapper"

/-- The one name besides the reserved words that cannot be bound. -/
def debugFlag : String := "__debug__"

theorem numbered_ne_wrapperName (name : String) (i : ℕ) :
    Identifier.numbered name i ≠ wrapperName := by
  intro h
  have hmem : '_' ∈ (Identifier.numbered name i).toList := by simp [Identifier.numbered]
  rw [h] at hmem
  simp [wrapperName] at hmem

/-- A number ends with a digit. -/
theorem numbered_ne_debugFlag (name : String) (i : ℕ) :
    Identifier.numbered name i ≠ debugFlag := by
  intro h
  have hlast := congrArg (fun s : String => s.toList.getLast?) h
  have hdigits : (toString i).toList ≠ [] := by simp [Nat.toDigits_ne_nil]
  obtain ⟨c, hc⟩ := Option.ne_none_iff_exists'.mp (mt List.getLast?_eq_none_iff.mp hdigits)
  have hdigit := Nat.isDigit_of_mem_toDigits (b := 10) (by decide) (by decide)
    (Nat.toList_repr ▸ List.mem_of_getLast? hc)
  simp only [Identifier.numbered, String.toList_append, List.getLast?_append, hc,
    Option.some_or] at hlast
  have hunderscore : c = '_' := Option.some.inj (hlast.trans (by simp [debugFlag]))
  rw [hunderscore] at hdigit
  exact absurd hdigit (by decide)

section Null

theorem null_not_mem_plain {s : String} (h : Identifier.Plain s) : '\x00' ∉ s.toList :=
  fun hmem => absurd (h _ hmem) (by decide)

theorem null_not_mem_digits (width n : ℕ) : '\x00' ∉ Hex.digits width n := by
  have hdigit : ∀ k < 16, '\x00' ≠ Hex.digit k := by decide
  induction width generalizing n with
  | zero => exact List.not_mem_nil
  | succ width ih =>
    rw [Hex.digits, List.mem_append, List.mem_singleton, not_or]
    exact ⟨ih _, hdigit _ (Nat.mod_lt n (by decide))⟩

theorem null_not_mem_escapeChar {mark : Char} (hmark : Literal.isMark mark) (c : Char) :
    '\x00' ∉ Text.escapeChar mark c := by
  have hcode (k : Char) (width : ℕ) (hk : '\x00' ≠ k) :
      '\x00' ∉ '\\' :: k :: Hex.digits width c.toNat := by
    simp [hk, null_not_mem_digits]
  unfold Text.escapeChar
  split_ifs with hself _ _ _ hprintable
  · rcases Bool.or_eq_true_iff.mp hself with heq | heq
    · have hne : '\x00' ≠ mark := Literal.ne_of_isMark hmark rfl
      simp [of_decide_eq_true heq, hne]
    · simp [of_decide_eq_true heq]
  · decide
  · decide
  · decide
  · rw [List.mem_singleton]
    rintro rfl
    exact absurd hprintable (by decide)
  · exact hcode 'x' 2 (by decide)
  · exact hcode 'u' 4 (by decide)
  · exact hcode 'U' 8 (by decide)

theorem null_not_mem_escapePoint {mark : Char} (hmark : Literal.isMark mark) (p : CodePoint) :
    '\x00' ∉ Text.escapePoint mark p := by
  cases p with
  | char c => exact null_not_mem_escapeChar hmark c
  | surrogate n => simp [Text.escapePoint, null_not_mem_digits]

theorem null_not_mem_quoted (t : Text) : '\x00' ∉ t.quoted.toList := by
  have hmark := Literal.isMark_quotationMark (t.points.map CodePoint.shown)
  have hne : '\x00' ≠ Text.quotationMark (t.points.map CodePoint.shown) :=
    Literal.ne_of_isMark hmark rfl
  simp only [Text.quoted, String.toList_ofList, Text.quotePoints, List.cons_append, List.mem_cons,
    List.mem_append, List.mem_flatMap, List.not_mem_nil, or_false, hne, false_or, not_exists,
    not_and]
  exact fun p _ => null_not_mem_escapePoint hmark p

theorem null_mem_unlines_iff (ls : List String) :
    '\x00' ∈ (unlines ls).toList ↔ ∃ l ∈ ls, '\x00' ∈ l.toList := by
  simp [unlines, String.toList_join]

theorem null_not_mem_openingLines (f : Abi.Function) : ∀ l ∈ openingLines f, '\x00' ∉ l.toList := by
  have hname := null_not_mem_plain (plain_methodName f.name)
  simp [openingLines, hname]

theorem null_not_mem_intercalate {names : List String} (h : ∀ n ∈ names, Identifier.Plain n) :
    '\x00' ∉ (String.intercalate ", " names).toList := by
  cases names with
  | nil => simp
  | cons n names =>
    obtain ⟨hn, hnames⟩ := List.forall_mem_cons.mp h
    rw [toList_intercalate_cons, List.mem_append, List.mem_flatMap, not_or]
    refine ⟨null_not_mem_plain hn, fun ⟨m, hm, hnull⟩ => ?_⟩
    have hname := null_not_mem_plain (hnames m hm)
    simp [hname] at hnull

theorem null_not_mem_closingLines (f : Abi.Function) : ∀ l ∈ closingLines f, '\x00' ∉ l.toList := by
  have hlabel := null_not_mem_quoted f.name
  have hnames := null_not_mem_intercalate (plain_parameterNames f)
  simp [closingLines, hlabel, hnames, -String.toList_intercalate]

theorem null_mem_parameterLine_iff {name : String} (h : Identifier.Plain name) (p : Abi.Parameter) :
    '\x00' ∈ (parameterLine name p).toList ↔ '\x00' ∈ p.type.shown.toList := by
  have hname := null_not_mem_plain h
  have hhint : '\x00' ∉ (hint p.kind).toList := by cases p.kind <;> simp [hint]
  simp [parameterLine, hname, hhint]

theorem null_mem_parameterLines_iff {names : List String} {ps : List Abi.Parameter}
    (hlength : names.length = ps.length) (hplain : ∀ n ∈ names, Identifier.Plain n) :
    (∃ l ∈ List.zipWith parameterLine names ps, '\x00' ∈ l.toList) ↔
      ∃ p ∈ ps, '\x00' ∈ p.type.shown.toList := by
  induction ps generalizing names with
  | nil => simp
  | cons p ps ih =>
    cases names with
    | nil => simp at hlength
    | cons n names =>
      obtain ⟨hn, hnames⟩ := List.forall_mem_cons.mp hplain
      simp only [List.zipWith_cons_cons, List.mem_cons, exists_eq_or_imp,
        null_mem_parameterLine_iff hn, ih (Nat.succ.inj hlength) hnames]

/-- Only a type can bring a null character into a method. -/
theorem null_mem_functionSource_iff (f : Abi.Function) :
    '\x00' ∈ (functionSource f).toList ↔
      ∃ p ∈ f.parameters, '\x00' ∈ p.type.shown.toList := by
  rw [← null_mem_parameterLines_iff (length_parameterNames f) (plain_parameterNames f),
    functionSource_eq, null_mem_unlines_iff, methodLines]
  constructor
  · rintro ⟨l, hl, hnull⟩
    rcases List.mem_append.mp hl with hl | hl
    · rcases List.mem_append.mp hl with hl | hl
      · exact absurd hnull (null_not_mem_openingLines f l hl)
      · exact ⟨l, hl, hnull⟩
    · exact absurd hnull (null_not_mem_closingLines f l hl)
  · rintro ⟨l, hl, hnull⟩
    exact ⟨l, List.mem_append_left _ (List.mem_append_right _ hl), hnull⟩

end Null

/-- What a name stands for in the body of a method: one of the parameters, the receiver being the
first, or a name of the module. -/
inductive Referent
  | parameter (i : ℕ)
  | global (name : String)

namespace Method

def bound (cls : String) (m : Method) : List String :=
  ("self" :: m.parameters.map Prod.fst).map (ownName cls)

def referent (cls : String) (m : Method) (name : String) : Referent :=
  if ownName cls name ∈ m.bound cls then .parameter ((m.bound cls).idxOf (ownName cls name))
  else .global (ownName cls name)

structure Accepted (cls : String) (m : Method) : Prop where
  words : ∀ n ∈ m.name :: m.parameters.map Prod.fst, n ∉ Identifier.keywords
  hints : ∀ p ∈ m.parameters, ∃ k, p.2 = hint k
  distinct : (m.bound cls).Nodup
  bindable : debugFlag ∉ m.bound cls

/-- A method of the class `cls` that makes the wrapper of the module from the contract of its
receiver, the text `label` and all of its `arity` arguments. -/
structure Records (cls : String) (m : Method) (label : Text) (arity : ℕ) : Prop where
  callee : m.referent cls wrapperName = .global wrapperName
  receiver : m.referent cls "self" = .parameter 0
  label_eq : m.label = label
  arity_eq : m.parameters.length = arity
  arguments : m.arguments.map (m.referent cls) = (List.range' 1 arity).map .parameter

end Method

/-- The source of the function is taken as the method `m` of the class `cls`. -/
structure Compiles (cls : String) (f : Abi.Function) (m : Method) : Prop where
  encodable : brokenType? f = none
  shows : Shows (functionSource f) m
  no_null : '\x00' ∉ (functionSource f).toList
  accepted : m.Accepted cls

/-- The class of a module rebinds none of the names that the head of the module binds. -/
theorem className_not_mem_moduleNames (contract : String) : className contract ∉ moduleNames := by
  have hlonger : ∀ n ∈ moduleNames, n ++ "_" ∉ moduleNames := by simp [moduleNames]
  unfold className
  dsimp only
  split
  · rename_i hname
    exact hlonger _ (List.contains_iff_mem.mp hname)
  · rename_i hname
    exact mt List.contains_iff_mem.mpr hname

variable {cls : String} {f : Abi.Function}

theorem bound_methodOf (cls : String) (f : Abi.Function) :
    (methodOf f).bound cls = ("self" :: parameterNames f).map (ownName cls) := by
  rw [Method.bound, map_fst_parameters]

section Kept

variable {n : String}

theorem ownName_eq_self_iff : ownName cls n = "self" ↔ n = "self" :=
  Identifier.ownName_eq_iff_of_public (by simp [Identifier.isPrivate]) (by simp)

theorem ownName_eq_wrapperName_iff : ownName cls n = wrapperName ↔ n = wrapperName :=
  Identifier.ownName_eq_iff_of_public (by simp [Identifier.isPrivate, wrapperName])
    (by simp [wrapperName])

theorem ownName_eq_debugFlag_iff : ownName cls n = debugFlag ↔ n = debugFlag :=
  Identifier.ownName_eq_iff_of_public
    (by simp [Identifier.isPrivate, debugFlag, List.isPrefixOf, List.isSuffixOf])
    (by simp [debugFlag])

end Kept

theorem self_not_mem_parameterNames (f : Abi.Function) : "self" ∉ parameterNames f :=
  fun h => not_mem_words_of_mem_parameterNames h List.mem_cons_self

/-- A name other than the receiver's that is kept for itself is bound when it is issued, so when it
is the identifier of a parameter and no number makes it. -/
theorem mem_bound_iff {name : String} (hown : ∀ n, ownName cls n = name ↔ n = name)
    (hself : name ≠ "self") (hnumbered : ∀ n i, Identifier.numbered n i ≠ name) :
    name ∈ (methodOf f).bound cls ↔
      ∃ p ∈ f.parameters, Identifier.ofName p.name.shown = name := by
  rw [bound_methodOf, List.mem_map]
  simp only [List.mem_cons, hown, exists_eq_right, hself, false_or]
  rw [parameterNames, Identifier.mem_unique_iff hnumbered, List.mem_map]

theorem nodup_bound_iff :
    ((methodOf f).bound cls).Nodup ↔ KeepsApart cls (parameterNames f) := by
  have hself : ownName cls "self" ∉ (parameterNames f).map (ownName cls) := by
    rw [ownName_eq_self_iff.mpr rfl]
    intro hmem
    obtain ⟨n, hn, heq⟩ := List.mem_map.mp hmem
    exact self_not_mem_parameterNames f (ownName_eq_self_iff.mp heq ▸ hn)
  have hdistinct : (parameterNames f).Nodup := (Identifier.issues_unique _).distinct
  rw [bound_methodOf, List.map_cons, List.nodup_cons, and_iff_right hself,
    Identifier.nodup_map_ownName_iff hdistinct]

/-- Where all names are bound apart, the arguments are the parameters in their order. -/
theorem map_referent_parameterNames (h : ((methodOf f).bound cls).Nodup) :
    (parameterNames f).map ((methodOf f).referent cls) =
      (List.range' 1 f.parameters.length).map .parameter := by
  apply List.ext_getElem
  · simp
  intro i hi hi'
  rw [List.length_map] at hi
  have hlength : i + 1 < ((methodOf f).bound cls).length := by
    simpa [bound_methodOf] using hi
  have hkept : ((methodOf f).bound cls)[i + 1] = ownName cls (parameterNames f)[i] := by
    simp [bound_methodOf]
  have hmem : ownName cls (parameterNames f)[i] ∈ (methodOf f).bound cls :=
    hkept ▸ List.getElem_mem hlength
  have hindex : ((methodOf f).bound cls).idxOf (ownName cls (parameterNames f)[i]) = i + 1 :=
    hkept ▸ h.idxOf_getElem (i + 1) hlength
  rw [List.getElem_map, List.getElem_map, Method.referent, if_pos hmem, hindex,
    List.getElem_range', Nat.one_mul, Nat.add_comm]

theorem accepted_methodOf (hdistinct : ((methodOf f).bound cls).Nodup)
    (hbindable : debugFlag ∉ (methodOf f).bound cls) : (methodOf f).Accepted cls where
  words := by
    have hname : ¬ Identifier.isReserved (methodOf f).name := Identifier.not_isReserved_ofName _
    rw [Identifier.isReserved_iff] at hname
    rw [map_fst_parameters]
    refine List.forall_mem_cons.mpr ⟨mt (List.mem_cons_of_mem _) hname, fun n hn => ?_⟩
    exact mt (List.mem_cons_of_mem _) (not_mem_words_of_mem_parameterNames hn)
  hints p hp := by
    obtain ⟨q, -, hq⟩ := List.mem_map.mp (List.of_mem_zip hp).2
    exact ⟨q.kind, hq.symm⟩
  distinct := hdistinct
  bindable := hbindable

theorem records_methodOf (hdistinct : ((methodOf f).bound cls).Nodup)
    (hcaptured : wrapperName ∉ (methodOf f).bound cls) :
    (methodOf f).Records cls f.name f.parameters.length where
  callee := by rw [Method.referent, ownName_eq_wrapperName_iff.mpr rfl, if_neg hcaptured]
  receiver := by
    have hself : ownName cls "self" = "self" := ownName_eq_self_iff.mpr rfl
    rw [Method.referent, bound_methodOf, List.map_cons, hself, if_pos List.mem_cons_self,
      List.idxOf_cons_self]
  label_eq := rfl
  arity_eq := by simp [methodOf]
  arguments := map_referent_parameterNames hdistinct

/-- The method of a class can be defined and makes the wrapper from its arguments just when its
types can be encoded and stay out of its code, no parameter gets the name of the wrapper or of the
debugging constant, and none is named as the class keeps another. The class itself rebinds no name
of the module. -/
theorem compiles_and_records_iff (contract : String) (f : Abi.Function) :
    className contract ∉ moduleNames ∧
    (∀ n ∈ parameterNames f, n ∉ "self" :: Identifier.keywords) ∧
    ((∃ m, Compiles (className contract) f m ∧
        m.Records (className contract) f.name f.parameters.length) ↔
      QuietTypes f ∧ (∀ p ∈ f.parameters, p.type.isWhole ∧ '\x00' ∉ p.type.shown.toList) ∧
        (∀ p ∈ f.parameters, Identifier.ofName p.name.shown ≠ wrapperName) ∧
        (∀ p ∈ f.parameters, Identifier.ofName p.name.shown ≠ debugFlag) ∧
        KeepsApart (className contract) (parameterNames f)) := by
  generalize hcls : className contract = cls
  have hwrapper : wrapperName ∈ (methodOf f).bound cls ↔
      ∃ p ∈ f.parameters, Identifier.ofName p.name.shown = wrapperName :=
    mem_bound_iff (fun _ => ownName_eq_wrapperName_iff) (by simp [wrapperName])
      numbered_ne_wrapperName
  have hdebug : debugFlag ∈ (methodOf f).bound cls ↔
      ∃ p ∈ f.parameters, Identifier.ofName p.name.shown = debugFlag :=
    mem_bound_iff (fun _ => ownName_eq_debugFlag_iff) (by simp [debugFlag]) numbered_ne_debugFlag
  have hnull := null_mem_functionSource_iff f
  refine ⟨hcls ▸ className_not_mem_moduleNames contract,
    fun n => not_mem_words_of_mem_parameterNames, ?_, ?_⟩
  · rintro ⟨m, hcompiles, hrecords⟩
    have hquiet := quietTypes_of_shows hcompiles.shows hrecords.arity_eq
    obtain rfl := hcompiles.shows.unique (shows_functionSource hquiet)
    have hwhole := brokenType?_eq_none_iff.mp hcompiles.encodable
    refine ⟨hquiet, fun p hp => ⟨hwhole p hp, fun h => hcompiles.no_null (hnull.mpr ⟨p, hp, h⟩)⟩,
      fun p hp h => ?_,
      fun p hp h => hcompiles.accepted.bindable (hdebug.mpr ⟨p, hp, h⟩),
      nodup_bound_iff.mp hcompiles.accepted.distinct⟩
    have hcallee := hrecords.callee
    rw [Method.referent, ownName_eq_wrapperName_iff.mpr rfl, if_pos (hwrapper.mpr ⟨p, hp, h⟩)]
      at hcallee
    exact Referent.noConfusion hcallee
  · rintro ⟨hquiet, htypes, hcaptured, hunbindable, hapart⟩
    have hdistinct := nodup_bound_iff.mpr hapart
    have hcaptured : wrapperName ∉ (methodOf f).bound cls := fun h =>
      have ⟨p, hp, heq⟩ := hwrapper.mp h
      hcaptured p hp heq
    have hwhole := brokenType?_eq_none_iff.mpr fun p hp => (htypes p hp).1
    refine ⟨methodOf f, ⟨hwhole, shows_functionSource hquiet, ?_, ?_⟩, ?_⟩
    · intro hmem
      obtain ⟨p, hp, h⟩ := hnull.mp hmem
      exact (htypes p hp).2 h
    · refine accepted_methodOf hdistinct fun h => ?_
      obtain ⟨p, hp, heq⟩ := hdebug.mp h
      exact hunbindable p hp heq
    · exact records_methodOf hdistinct hcaptured

/-- A parameter with the name of the wrapper is called in its place, and one with the name of the
debugging constant is not accepted. -/
theorem parameter_called_as_wrapper :
    let parameter (name : String) : Value :=
      .list [.dict [("name", .text name), ("type", .text "Integer")]]
    let document := Value.dict
      [ ("hash", .text "00"),
        ("functions", .list
          [ .dict [("name", .text "f"), ("parameters", parameter "DeferredTransactionWrapper")],
            .dict [("name", .text "g"), ("parameters", parameter "__debug__")] ]) ]
    let f : Abi.Function := ⟨"f", [⟨"DeferredTransactionWrapper", "Integer", []⟩], []⟩
    let g : Abi.Function := ⟨"g", [⟨"__debug__", "Integer", []⟩], []⟩
    (Abi.parse 960 document).toOption.map (·.functions) = some [f, g] ∧
      (Shows (functionSource f) (methodOf f) ∧
        (methodOf f).referent "C" wrapperName = .parameter 1) ∧
      (Shows (functionSource g) (methodOf g) ∧ ¬ (methodOf g).Accepted "C") ∧
      ¬ (∃ m, Compiles "C" f m ∧ m.Records "C" "f" 1) ∧
      ¬ ∃ m, Compiles "C" g m ∧ m.Records "C" "g" 1 := by
  intro parameter document f g
  have hquiet : Quiet "Integer" := quiet_of_singleLine (Unbroken.singleLine (by simp [Unbroken]))
  have hf : Shows (functionSource f) (methodOf f) :=
    shows_functionSource (List.forall_mem_singleton.mpr hquiet)
  have hg : Shows (functionSource g) (methodOf g) :=
    shows_functionSource (List.forall_mem_singleton.mpr hquiet)
  have hcalled : (methodOf f).referent "C" wrapperName = .parameter 1 := by
    rw [Method.referent, if_pos (by decide +kernel)]
    exact congrArg Referent.parameter (by decide +kernel)
  have hrefused : ¬ (methodOf g).Accepted "C" := fun h => h.bindable (by decide +kernel)
  refine ⟨rfl, ⟨hf, hcalled⟩, ⟨hg, hrefused⟩, fun ⟨m, hcompiles, hrecords⟩ => ?_,
    fun ⟨m, hcompiles, _⟩ => ?_⟩
  · obtain rfl := hcompiles.shows.unique hf
    exact Referent.noConfusion (hcalled.symm.trans hrecords.callee)
  · obtain rfl := hcompiles.shows.unique hg
    exact hrefused hcompiles.accepted

end Binding

end Bindery
