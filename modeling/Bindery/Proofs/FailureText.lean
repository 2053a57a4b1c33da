import Bindery.Proofs.Building
import Bindery.Proofs.ConcealedText

/-!
# What the message of a failure holds

A message is a sentence into which names of functions, parameters and types, counts and literals are
put. Where none of these holds a key, the message does not: `Failure.Harmless` says so cause by
cause. A report on options shows an excerpt of what it finds at a place, which is too short for a
key; there are few places, all in the options' own names.
-/

namespace Bindery

/-- How a reader of options reports on them: the value at a place of which it shows an excerpt, the
name of that value's type, and where the rule is explained. -/
structure Report where
  value : Violation → String
  type : Violation → String
  help : Violation → String

/-- An excerpt has fifty characters at most, or fifty-two with an ellipsis; the explanation is no
longer. -/
structure Report.Brief (k : List Char) (r : Report) : Prop where
  value : ∀ v, (r.value v).toList.length ≤ 52
  type : ∀ v, Conceals k (r.type v)
  help : ∀ v, (r.help v).toList.length ≤ 52

def Step.text : Step → String
  | .name s => s
  | .index i => toString i

def placeLine (place : List Step) : String :=
  if place.isEmpty then "" else ".".intercalate (place.map Step.text) ++ "\n"

def Violation.text (r : Report) (v : Violation) : String :=
  placeLine v.place ++ "  " ++ v.rule.message ++ " [type=" ++ v.rule.label ++ ", input_value=" ++
    r.value v ++ ", input_type=" ++ r.type v ++ "]\n    For further information visit " ++ r.help v

def reportText (r : Report) : List Violation → String
  | [] => ""
  | v :: vs => "\n" ++ v.text r ++ reportText r vs

def Failure.text (r : Report) : Failure → String
  | .parameter (.options vs) => (ParameterError.options vs).message ++ reportText r vs
  | e => e.message

def optionRules : List Rule :=
  [.present, .text, .unicodeText, .object "TxParams", .instanceOf "Address",
    .instanceOf "PrivateKey", .integer, .wholeNumber, .finiteNumber, .integerText, .machineInteger]

structure Violation.IsOfOptions (v : Violation) : Prop where
  place : (placeLine v.place).toList.countP isHexDigit ≤ 10
  rule : v.rule ∈ optionRules

/-- A failure into whose message nothing is put that holds the key. -/
inductive Failure.Harmless (k : List Char) (r : Report) : Failure → Prop
  | unknownFunction {name : Text} (h : Conceals k name.shown) :
    Harmless k r (.unknownFunction name)
  | hex {shown : String} (h : Conceals k shown) : Harmless k r (.conversion (.hex shown))
  | base58 {shown : String} (h : Conceals k shown) : Harmless k r (.conversion (.base58 shown))
  | addressLength {n : Nat} (h : n < 2 ^ 64) : Harmless k r (.conversion (.addressLength n))
  | keyLength {n : Nat} (h : n < 2 ^ 64) :
    Harmless k r (.conversion (.privateKey (.wrongLength n)))
  | keyRange {e : PrivateKeyError} (h : e = .zero ∨ e = .tooLarge) :
    Harmless k r (.conversion (.privateKey e))
  | notByteArray {type : String} (h : Conceals k type) :
    Harmless k r (.conversion (.notByteArray type))
  | mistyped {parameter : Text} {type : String} (expected : Expected)
    (hp : Conceals k parameter.shown) (ht : Conceals k type) :
    Harmless k r (.conversion (.mistyped parameter expected type))
  | notIntegers {parameter : Text} (hp : Conceals k parameter.shown) :
    Harmless k r (.conversion (.notIntegers parameter))
  | unsupported {parameter : Text} {type : String} (hp : Conceals k parameter.shown)
    (ht : Conceals k type) : Harmless k r (.conversion (.unsupported parameter type))
  | gasText (gas : Gas) {shown : String} (h : Conceals k shown) :
    Harmless k r (.conversion (.gasText gas shown))
  | gasRange (gas : Gas) {shown : String} (h : Conceals k shown) :
    Harmless k r (.conversion (.gasRange gas shown))
  | options {vs : List Violation} (hcount : vs.length < 2 ^ 64) (h : ∀ v ∈ vs, v.IsOfOptions) :
    Harmless k r (.parameter (.options vs))
  | arity {function : Text} {expected got : Nat} (h : Conceals k function.shown)
    (hexpected : expected < 2 ^ 64) (hgot : got < 2 ^ 64) :
    Harmless k r (.parameter (.arity function expected got))
  | field {e : FieldError} (h : e.IsOwn) : Harmless k r (.field e)
  | noMember {type member : String} (h : Conceals k type)
    (hmember : member ∈ ["hex", "send_raw_transaction"]) :
    Harmless k r (.misuse (.noMember type member))
  | notCallable {type : String} (h : Conceals k type) : Harmless k r (.misuse (.notCallable type))
  | longInteger : Harmless k r (.misuse .longInteger)
  | pushedLength : Harmless k r (.misuse .pushedLength)
  | unencodable {b : Text.Broken} (h : b.points.length < 2 ^ 64) :
    Harmless k r (.misuse (.unencodable b))
  | deepArgument : Harmless k r (.misuse .deepArgument)
  | answered {e : Failure} (h : Conceals k (e.text r)) : Harmless k r e

section Messages

variable {k : List Char} {r : Report}

theorem Secret.rule_message (hk : Secret k) {rule : Rule} (h : rule ∈ optionRules) :
    Conceals k rule.message := by
  cases rule with
  | object model =>
    have hmodel : model = "TxParams" := by simpa [optionRules] using h
    rw [hmodel]
    exact hk.lead "Input should be a valid dictionary or instance of " (.ofList (by decide))
      (hk.ofList (by decide))
  | instanceOf type =>
    have htype : type = "Address" ∨ type = "PrivateKey" := by simpa [optionRules] using h
    refine hk.lead "Input should be an instance of " (.ofList (by decide)) ?_
    rcases htype with rfl | rfl <;> exact hk.ofList (by decide)
  | _ => exact hk.ofList (by decide)

theorem Secret.rule_label (hk : Secret k) (rule : Rule) : Conceals k rule.label := by
  cases rule <;> exact hk.ofList (by decide)

/-- The induction carries the word before the report, which the first place follows at once. -/
theorem Secret.reportText (hk : Secret k) (hr : r.Brief k) {vs : List Violation}
    (h : ∀ v ∈ vs, v.IsOfOptions) (word : String) (hword : word.toList.length ≤ 52) :
    Conceals k (word ++ Bindery.reportText r vs) := by
  induction vs generalizing word with
  | nil =>
    refine hk.conceals ?_
    rw [Bindery.reportText, String.append_empty]
    exact List.countP_le_length.trans_lt (hword.trans_lt (by decide))
  | cons v vs ih =>
    obtain ⟨⟨hplace, hrule⟩, hvs⟩ := List.forall_mem_cons.mp h
    have hline : Conceals k (word ++ "\n" ++ placeLine v.place) := by
      have hword' := (List.countP_le_length (p := isHexDigit)).trans hword
      refine hk.conceals ?_
      rw [String.toList_append, String.toList_append, List.countP_append, List.countP_append]
      have hbreak : "\n".toList.countP isHexDigit = 0 := by decide
      omega
    have hvalue : Conceals k (r.value v) :=
      hk.conceals (List.countP_le_length.trans_lt ((hr.value v).trans_lt (by decide)))
    have hmessage := hk.join hline "  " (separates_ofList (by decide)) (hk.rule_message hrule)
    have hlabel := hk.join hmessage " [type=" (separates_ofList (by decide)) (hk.rule_label v.rule)
    have hshown := hk.join hlabel ", input_value=" (separates_ofList (by decide)) hvalue
    have htype := hk.join hshown ", input_type=" (separates_ofList (by decide)) (hr.type v)
    have hrest := hk.join htype "]\n    For further information visit "
      (separates_ofList (by decide)) (ih hvs _ (hr.help v))
    have htext : word ++ Bindery.reportText r (v :: vs) =
        word ++ "\n" ++ placeLine v.place ++ "  " ++ v.rule.message ++ " [type=" ++
          v.rule.label ++ ", input_value=" ++ r.value v ++ ", input_type=" ++ r.type v ++
          "]\n    For further information visit " ++ (r.help v ++ Bindery.reportText r vs) := by
      simp only [Bindery.reportText, Violation.text, String.append_assoc]
    rwa [htext]

theorem Secret.expected_label (hk : Secret k) (expected : Expected) :
    Conceals k expected.label := by
  cases expected <;> exact hk.ofList (by decide)

theorem Secret.gas_label (hk : Secret k) (gas : Gas) : Conceals k gas.label := by
  cases gas <;> exact hk.ofList (by decide)

theorem length_escapePoint_le (mark : Char) (p : CodePoint) :
    (Text.escapePoint mark p).length ≤ 10 := by
  cases p with
  | surrogate n => simp [Text.escapePoint, Hex.length_digits]
  | char c =>
    rw [Text.escapePoint]
    unfold Text.escapeChar
    split_ifs <;> simp [Hex.length_digits]

/-- Only the place of a surrogate is said, and the surrogate itself if it stands alone. -/
theorem Secret.brokenMessage (hk : Secret k) {b : Text.Broken} (h : b.points.length < 2 ^ 64) :
    Conceals k b.message := by
  unfold Text.Broken.message
  extract_lets start run place
  have hrun : start + run.length ≤ b.points.length := by
    have hstart : start ≤ b.points.length := (List.takeWhile_sublist _).length_le
    have hrest : run.length ≤ b.points.length - start := by
      rw [← List.length_drop]
      exact (List.takeWhile_sublist _).length_le
    omega
  have hplace : Conceals k place := by
    have hnumber := hk.number (lt_of_le_of_lt (Nat.le_add_right start run.length |>.trans hrun) h)
    simp only [place]
    split
    · rename_i hsingle
      have hshown : Conceals k (String.ofList (Text.quotePoints run)) := by
        obtain ⟨p, hp⟩ := List.length_eq_one_iff.mp hsingle
        have hescaped := length_escapePoint_le (Text.quotationMark ([p].map CodePoint.shown)) p
        refine hk.ofList (List.countP_le_length.trans_lt ?_)
        rw [hp, Text.quotePoints]
        simp only [List.length_append, List.length_cons, List.flatMap_cons, List.flatMap_nil,
          List.append_nil, List.length_nil]
        omega
      have hfirst := hk.lead "character " (.ofList (by decide)) hshown
      exact hk.join hfirst " in position " (separates_ofList (by decide)) hnumber
    · have hlast := hk.number (lt_of_le_of_lt ((Nat.sub_le _ 1).trans hrun) h)
      have hfirst := hk.lead "characters in position " (.ofList (by decide)) hnumber
      exact hk.join hfirst "-" (separates_ofList (by decide)) hlast
  have hfront := hk.lead "'utf-8' codec can't encode " (.ofList (by decide)) hplace
  exact hk.tail hfront ": surrogates not allowed" (.ofList (by decide))

theorem Failure.Harmless.conceals (hk : Secret k) (hr : r.Brief k) {e : Failure}
    (h : e.Harmless k r) : Conceals k (e.text r) := by
  cases h with
  | unknownFunction h =>
    have hname := hk.lead "Function '" (.ofList (by decide)) h
    exact hk.tail hname "' not found in ABI" (.ofList (by decide))
  | hex h => exact hk.lead "Invalid hex string: " (.ofList (by decide)) h
  | base58 h => exact hk.lead "Invalid base58 address: " (.ofList (by decide)) h
  | addressLength h =>
    exact hk.lead "Address must be 20 bytes, got " (.ofList (by decide)) (hk.number h)
  | keyLength h =>
    exact hk.lead "Private key must be 32 bytes, got " (.ofList (by decide)) (hk.number h)
  | keyRange h => rcases h with rfl | rfl <;> exact hk.ofList (by decide)
  | notByteArray h =>
    exact hk.lead "ByteArray argument must be bytes or str, got " (.ofList (by decide)) h
  | mistyped expected hp ht =>
    have hparameter := hk.lead "Parameter '" (.ofList (by decide)) hp
    have hexpected := hk.join hparameter "' expects " (separates_ofList (by decide))
      (hk.expected_label expected)
    exact hk.join hexpected ", got " (separates_ofList (by decide)) ht
  | notIntegers hp =>
    have hparameter := hk.lead "Parameter '" (.ofList (by decide)) hp
    exact hk.tail hparameter "' expects a list of int" (.ofList (by decide))
  | unsupported hp ht =>
    have hparameter := hk.lead "Parameter '" (.ofList (by decide)) hp
    exact hk.join hparameter "' has unsupported value type " (separates_ofList (by decide)) ht
  | gasText gas h =>
    exact hk.join (hk.gas_label gas) " must be an integer string, got "
      (separates_ofList (by decide)) h
  | gasRange gas h =>
    exact hk.join (hk.gas_label gas) " must fit in an unsigned 64-bit integer, got "
      (separates_ofList (by decide)) h
  | @options vs hcount h =>
    have hnoun : Conceals k (if vs.length = 1 then "error" else "errors") := by
      split <;> exact hk.ofList (by decide)
    have hnumber := hk.join (hk.number hcount) " validation " (separates_ofList (by decide)) hnoun
    have hmodel := hk.reportText hr h "TxParams" (by decide)
    have hheadline := hk.lead "Invalid transaction parameters: " (.ofList (by decide))
      (hk.join hnumber " for " (separates_ofList (by decide)) hmodel)
    have htext : Failure.text r (.parameter (.options vs)) =
        "Invalid transaction parameters: " ++ (toString vs.length ++ " validation " ++
          (if vs.length = 1 then "error" else "errors") ++ " for " ++
            ("TxParams" ++ reportText r vs)) := by
      change "Invalid transaction parameters: " ++ (toString vs.length ++ " validation " ++
        (if vs.length = 1 then "error" else "errors") ++ " for " ++ "TxParams") ++
          reportText r vs = _
      simp only [String.append_assoc]
    rwa [htext]
  | arity h hexpected hgot =>
    have hfirst := hk.join h " takes " (separates_ofList (by decide)) (hk.number hexpected)
    exact hk.join hfirst " argument(s), got " (separates_ofList (by decide)) (hk.number hgot)
  | @field e h =>
    cases e with
    | foreign kind message => exact absurd h id
    | _ => exact hk.ofList (by decide)
  | @noMember type member h hmember =>
    have hmember : Conceals k member := by
      rcases List.mem_pair.mp hmember with rfl | rfl <;> exact hk.ofList (by decide)
    have htype := hk.lead "'" (.ofList (by decide)) h
    have hnamed := hk.join htype "' object has no attribute '" (separates_ofList (by decide))
      hmember
    exact hk.tail hnamed "'" (.ofList (by decide))
  | notCallable h =>
    have htype := hk.lead "'" (.ofList (by decide)) h
    exact hk.tail htype "' object is not callable" (.ofList (by decide))
  | longInteger => exact hk.conceals (s := Misuse.longInteger.message) (by decide +kernel)
  | pushedLength => exact hk.ofList (by decide)
  | unencodable h => exact hk.brokenMessage h
  | deepArgument => exact hk.ofList (by decide)
  | answered h => exact h

end Messages

section Violations

open Checked

variable {α β : Type}

def optionNames : List String :=
  ["payer", "privateKey", "private_key", "gasPrice", "gas_price", "gasLimit", "gas_limit"]

def alternatives : List String :=
  ["str", "int", "is-instance[Address]", "is-instance[PrivateKey]"]

/-- The check finds few violations, and only such as options can have. -/
def Finds (n : Nat) (r : Checked α) : Prop :=
  ∀ vs, r = .error vs → vs.length ≤ n ∧ ∀ v ∈ vs, v.IsOfOptions

theorem finds_ok (n : Nat) (a : α) : Finds n (.ok a) := nofun

theorem Finds.map {n : Nat} {r : Checked α} (h : Finds n r) (f : α → β) : Finds n (r.map f) :=
  fun vs hvs => h vs (map_eq_error.mp hvs)

theorem Finds.both {m n : Nat} {a : Checked α} {b : Checked β} (ha : Finds m a)
    (hb : Finds n b) : Finds (m + n) (a.both b) := by
  intro vs hvs
  cases a with
  | ok a =>
    cases b with
    | ok b => cases hvs
    | error ws =>
      cases hvs
      obtain ⟨hcount, hall⟩ := hb _ rfl
      exact ⟨hcount.trans (Nat.le_add_left n m), hall⟩
  | error us =>
    obtain ⟨hcount, hall⟩ := ha us rfl
    cases b with
    | ok b =>
      cases hvs
      exact ⟨hcount.trans (Nat.le_add_right m n), hall⟩
    | error ws =>
      cases hvs
      obtain ⟨hcount', hall'⟩ := hb ws rfl
      refine ⟨by rw [List.length_append]; omega, fun v hv => ?_⟩
      exact (List.mem_append.mp hv).elim (hall v) (hall' v)

theorem finds_violation {place : List Step} {rule : Rule}
    (h : (⟨place, rule⟩ : Violation).IsOfOptions) : Finds 1 (violation place rule : Checked α) := by
  intro vs hvs
  cases hvs
  exact ⟨le_rfl, List.forall_mem_singleton.mpr h⟩

theorem isOfOptions_alternative {s alternative : String} {rule : Rule} (hs : s ∈ optionNames)
    (halternative : alternative ∈ alternatives) (hrule : rule ∈ optionRules) :
    (⟨[.name s, .name alternative], rule⟩ : Violation).IsOfOptions := by
  have hname : ∀ s ∈ optionNames, s.toList.countP isHexDigit ≤ 3 := by decide +kernel
  have hkind : ∀ s ∈ alternatives, s.toList.countP isHexDigit ≤ 7 := by decide +kernel
  have hline : placeLine [.name s, .name alternative] = s ++ "." ++ alternative ++ "\n" := rfl
  refine ⟨?_, hrule⟩
  have hdigits := Nat.add_le_add (hname s hs) (hkind alternative halternative)
  simpa [hline, isHexDigit, Hex.digitValue?] using hdigits

theorem finds_text {s : String} (hs : s ∈ optionNames) (v : Value) :
    Finds 1 (Checked.text [.name s, .name "str"] v) := by
  have hrule (rule : Rule) (h : rule ∈ optionRules) :
      Finds 1 (violation [.name s, .name "str"] rule : Checked Text) :=
    finds_violation (isOfOptions_alternative hs (by decide) h)
  unfold Checked.text
  split
  · exact finds_ok 1 _
  · split
    · split
      · exact finds_ok 1 _
      · exact hrule _ (by decide)
    · split
      · exact finds_ok 1 _
      · exact hrule _ (by decide)
    · exact hrule _ (by decide)

theorem finds_textOr {s alternative : String} (hs : s ∈ optionNames)
    (halternative : alternative ∈ alternatives) {check : Value → Except Rule α}
    (hcheck : ∀ v rule, check v = .error rule → rule ∈ optionRules) (v : Value) :
    Finds 2 (textOr [.name s] alternative check v) := by
  intro vs hvs
  rw [textOr] at hvs
  split at hvs
  · cases hvs
  · rename_i us hus
    split at hvs
    · cases hvs
    · rename_i rule hrule
      cases hvs
      obtain ⟨hcount, hall⟩ := finds_text hs v us hus
      refine ⟨by rw [List.length_append, List.length_singleton]; omega, fun w hw => ?_⟩
      rcases List.mem_append.mp hw with hw | hw
      · exact hall w hw
      · rw [List.mem_singleton.mp hw]
        exact isOfOptions_alternative hs halternative (hcheck v rule hrule)

theorem Finds.optionalMember {n : Nat} {check : List Step → Value → Checked α}
    {spellings : List String} (h : ∀ s ∈ spellings, ∀ v, Finds n (check [.name s] v))
    (members : List (Text × Value)) :
    Finds n (Options.optionalMember check spellings members) := by
  unfold Options.optionalMember
  split
  · exact finds_ok n none
  · rename_i s v hspelled
    obtain ⟨t, ht, hmember⟩ := List.exists_of_findSome?_eq_some hspelled
    obtain ⟨w, -, hw⟩ := Option.map_eq_some_iff.mp hmember
    cases hw
    unfold Checked.optional
    split
    · exact finds_ok n none
    · exact (h s ht v).map some

theorem finds_address {s : String} (hs : s ∈ optionNames) (v : Value) :
    Finds 2 (Checked.address [.name s] v) := by
  refine finds_textOr hs (by decide) (fun v rule hrule => ?_) v
  split at hrule <;> cases hrule
  decide

theorem finds_privateKey {s : String} (hs : s ∈ optionNames) (v : Value) :
    Finds 2 (Checked.privateKey [.name s] v) := by
  refine finds_textOr hs (by decide) (fun v rule hrule => ?_) v
  split at hrule <;> cases hrule
  decide

theorem finds_integer {s : String} (hs : s ∈ optionNames) (v : Value) :
    Finds 2 (Checked.integer [.name s] v) := by
  refine finds_textOr hs (by decide) (fun v rule hrule => ?_) v
  unfold wholeNumber at hrule
  split at hrule
  · cases hrule
  · cases hrule
  · split at hrule
    · cases hrule
      decide
    · split_ifs at hrule <;> cases hrule <;> decide
  · cases hrule
    decide
  · cases hrule
    decide

theorem finds_privateKeyMember (members : List (Text × Value)) :
    Finds 2 (Options.privateKeyMember members) := by
  unfold Options.privateKeyMember
  split
  · have hplace : (⟨[.name "privateKey"], .present⟩ : Violation).IsOfOptions :=
      ⟨by decide, by decide⟩
    exact fun vs hvs => ((finds_violation hplace) vs hvs).imp_left (Nat.le_succ_of_le)
  · rename_i s v hspelled
    obtain ⟨t, ht, hmember⟩ := List.exists_of_findSome?_eq_some hspelled
    obtain ⟨w, -, hw⟩ := Option.map_eq_some_iff.mp hmember
    cases hw
    have hnames : ∀ t ∈ ["privateKey", "private_key"], t ∈ optionNames := by decide
    exact finds_privateKey (hnames s ht) v

/-- Options have at most two violations each. -/
theorem finds_check (v : Value) : Finds 8 (Options.check v) := by
  have hmembers (members : List (Text × Value)) (record : _ → Options) : Finds 8
      (((Options.optionalMember Checked.address ["payer"] members).both
        ((Options.privateKeyMember members).both
          ((Options.optionalMember Checked.integer ["gasPrice", "gas_price"] members).both
            (Options.optionalMember Checked.integer ["gasLimit", "gas_limit"] members)))).map
        record) := by
    have hpayer : ∀ s ∈ ["payer"], s ∈ optionNames := by decide
    have hprice : ∀ s ∈ ["gasPrice", "gas_price"], s ∈ optionNames := by decide
    have hlimit : ∀ s ∈ ["gasLimit", "gas_limit"], s ∈ optionNames := by decide
    have hgas := (Finds.optionalMember (fun s hs => finds_integer (hprice s hs)) members).both
      (Finds.optionalMember (fun s hs => finds_integer (hlimit s hs)) members)
    have hfirst := Finds.optionalMember (fun s hs => finds_address (hpayer s hs)) members
    exact (hfirst.both ((finds_privateKeyMember members).both hgas)).map record
  have hobject : Finds 8 (violation [] (.object "TxParams") : Checked Options) := fun vs hvs =>
    (finds_violation ⟨by decide, by decide⟩ vs hvs).imp_left fun h => h.trans (by decide)
  unfold Options.check Checked.object
  split
  · exact hmembers _ _
  · split
    · exact hmembers _ _
    · exact hobject
  · exact hobject

end Violations

end Bindery
