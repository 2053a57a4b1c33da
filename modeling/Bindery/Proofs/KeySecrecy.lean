import Bindery.Node.Rest
import Bindery.Proofs.DeclaredFailures
import Bindery.Proofs.FailureText
import Bindery.Proofs.NumberText
import Bindery.Proofs.Signing
import Mathlib.Data.Bool.AllAny

/-!
# Keys and what is said about a call

A call that fails says why, and what it says is put together from the interface, the arguments, the
options and the answer of a client. The text of a key is no part of it unless it is part of one of
these, but for one place: a text that is no key is shown where it is refused. The log of a call
depends on its key in no way.
-/

namespace Bindery

section Literals

open Value

theorem literal_infix_literalItems {x : Value} {items : List Value} (hx : x ∈ items) :
    x.literal <:+: literalItems items := by
  induction items with
  | nil => cases hx
  | cons y rest ih =>
    cases rest with
    | nil =>
      rw [List.mem_singleton.mp hx]
      exact List.infix_rfl
    | cons z rest =>
      change x.literal <:+: y.literal ++ [',', ' '] ++ literalItems (z :: rest)
      rcases List.mem_cons.mp hx with rfl | hx
      · exact ⟨[], [',', ' '] ++ literalItems (z :: rest), by simp⟩
      · exact (ih hx).trans (List.suffix_append _ _).isInfix

theorem literal_infix_list {x : Value} {items : List Value} (hx : x ∈ items) :
    x.literal <:+: (Value.list items).literal :=
  (literal_infix_literalItems hx).trans ⟨['['], [']'], rfl⟩

theorem literal_infix_tuple {x : Value} {items : List Value} (hx : x ∈ items) :
    x.literal <:+: (Value.tuple items).literal := by
  match items with
  | [] => cases hx
  | [y] =>
    rw [List.mem_singleton.mp hx]
    exact ⟨['('], [',', ')'], rfl⟩
  | y :: z :: rest => exact (literal_infix_literalItems hx).trans ⟨['('], [')'], rfl⟩

theorem literal_infix_tagged (tag : String) (content : Value) :
    content.literal <:+: (Value.tagged tag content).literal :=
  ⟨"ByteArrayArg(tag=".toList ++ Text.quoteChars tag.toList ++ ", value=".toList, [')'], rfl⟩

theorem literal_infix_literalSettings {separator : List Char} {m : Text × Value}
    {members : List (Text × Value)} (hm : m ∈ members) :
    m.2.literal <:+: literalSettings separator members := by
  induction members with
  | nil => cases hm
  | cons p rest ih =>
    cases rest with
    | nil =>
      rw [List.mem_singleton.mp hm]
      exact ⟨p.1.shown.toList ++ ['='], [], by rw [literalSettings]; simp⟩
    | cons q rest =>
      change m.2.literal <:+: p.1.shown.toList ++ '=' :: p.2.literal ++ separator ++
        literalSettings separator (q :: rest)
      rcases List.mem_cons.mp hm with rfl | hm
      · exact ⟨m.1.shown.toList ++ ['='], separator ++ literalSettings separator (q :: rest),
          by simp⟩
      · exact (ih hm).trans (List.suffix_append _ _).isInfix

theorem literal_infix_record {type : RecordType} {name : Text} {x : Value}
    {members : List (Text × Value)} (h : Json.member? name members = some x) :
    x.literal <:+: (Value.record type members).literal := by
  obtain ⟨m, hm, rfl⟩ := Option.map_eq_some_iff.mp h
  have hrecord : (Value.record type members).literal =
      type.name.toList ++ '(' :: literalSettings [',', ' '] members ++ [')'] := rfl
  have hsettings : m.2.literal <:+: literalSettings [',', ' '] members :=
    literal_infix_literalSettings (List.mem_of_find?_eq_some hm)
  rw [hrecord]
  exact hsettings.trans ⟨type.name.toList ++ ['('], [')'], by simp⟩

/-- The name of a value's type is fixed or part of its literal. -/
theorem Secret.typeName {k : List Char} (hk : Secret k) {v : Value} (h : ¬ k <:+: v.literal) :
    Conceals k v.typeName := by
  have hrecord : ∀ type : RecordType, Conceals k type.name := fun type =>
    hk.conceals (by cases type <;> decide)
  cases v with
  | foreign type =>
    have hliteral : (Value.foreign type).literal = '<' :: (type.toList ++ ['>']) := by
      change ("<" ++ type ++ ">").toList = _
      simp
    rw [hliteral] at h
    exact fun hks => h (hks.trans ⟨['<'], ['>'], rfl⟩)
  | blob form data =>
    cases form with
    | fixed => exact hk.conceals (s := "bytes") (by decide)
    | mutable => exact hk.conceals (s := "bytearray") (by decide)
    | view => exact hk.conceals (s := "memoryview") (by decide)
  | record type members => exact hrecord type
  | null => exact hk.conceals (s := "NoneType") (by decide)
  | bool b => exact hk.conceals (s := "bool") (by decide)
  | int n => exact hk.conceals (s := "int") (by decide)
  | float x => exact hk.conceals (s := "float") (by decide)
  | text s => exact hk.conceals (s := "str") (by decide)
  | kind a => exact hk.conceals (s := "ParameterKind") (by decide)
  | list items => exact hk.conceals (s := "list") (by decide)
  | tuple items => exact hk.conceals (s := "tuple") (by decide)
  | dict members => exact hk.conceals (s := "dict") (by decide)
  | address a => exact hk.conceals (s := "Address") (by decide)
  | key a => exact hk.conceals (s := "PrivateKey") (by decide)
  | tagged tag content => exact hk.conceals (s := "ByteArrayArg") (by decide)

theorem literal_text (s : String) : (Value.text s).literal = Text.quoteChars s.toList := by
  change Text.quotePoints (s.toList.map .char) = _
  rw [Text.quotePoints, Text.quoteChars, CodePoint.map_shown_map_char, List.flatMap_map]
  rfl

/-- A text of digits and a few other characters is shown as it is. -/
theorem quoteChars_of_digits {cs : List Char} (h : ∀ c ∈ cs, isHexDigit c ∨ c ∈ "-x.p+ni".toList) :
    Text.quoteChars cs = '\'' :: (cs ++ ['\'']) := by
  have hother : ∀ c ∈ "-x.p+ni".toList, Text.isPrintable c ∧ c ≠ '\\' ∧ c ≠ '\'' :=
    List.all_iff_forall_prop.mp (by decide)
  have hplain : ∀ c ∈ cs, Text.isPrintable c ∧ c ≠ '\\' ∧ c ≠ '\'' := by
    intro c hc
    rcases h c hc with hdigit | hc
    · exact ⟨isPrintable_of_isHexDigit hdigit, ne_of_isHexDigit hdigit (by decide),
        ne_of_isHexDigit hdigit (by decide)⟩
    · exact hother c hc
  refine quoteChars_of_plain (if_neg fun hmark => ?_) hplain
  have hmem : '\'' ∈ cs := List.contains_iff_mem.mp (Bool.and_eq_true_iff.mp hmark).1
  exact (hplain _ hmem).2.2 rfl

theorem Secret.quoteChars {k : List Char} (hk : Secret k) {cs : List Char}
    (h : ∀ c ∈ cs, isHexDigit c ∨ c ∈ "-x.p+ni".toList) (hcs : ¬ k <:+: cs) :
    ¬ k <:+: Text.quoteChars cs := by
  have hmark : isSeparator '\'' := by decide
  have hnil : ¬ k <:+: [] := hk.absent (by decide)
  rw [quoteChars_of_digits h]
  have hbody : ¬ k <:+: cs ++ '\'' :: [] := hk.absent_append hmark hcs hnil
  exact hk.absent_append hmark hnil hbody

end Literals

section Numbers

open Binary64

theorem isHexDigit_digit {n : Nat} (h : n < 16) : isHexDigit (Hex.digit n) := by
  simp [isHexDigit, Hex.digitValue?_digit h]

theorem isHexDigit_digits (width n : Nat) : ∀ c ∈ Hex.digits width n, isHexDigit c := by
  induction width generalizing n with
  | zero => exact List.forall_mem_nil _
  | succ width ih =>
    intro c hc
    rw [Hex.digits] at hc
    rcases List.mem_append.mp hc with hc | hc
    · exact ih (n / 16) c hc
    · rw [List.mem_singleton.mp hc]
      exact isHexDigit_digit (Nat.mod_lt n (by decide))

theorem isHexDigit_of_isDigit {c : Char} (h : Json.isDigit c) : isHexDigit c := by
  have hdigit : '0' ≤ c ∧ c ≤ '9' := by
    obtain ⟨hlow, hhigh⟩ := Bool.and_eq_true_iff.mp h
    exact ⟨of_decide_eq_true hlow, of_decide_eq_true hhigh⟩
  simp [isHexDigit, Hex.digitValue?, hdigit]

/-- A text of digits and a few other characters, too short for a key. -/
def IsNumeral (cs : List Char) : Prop :=
  (∀ c ∈ cs, isHexDigit c ∨ c ∈ "-x.p+ni".toList) ∧ cs.length < 63

instance (cs : List Char) : Decidable (IsNumeral cs) :=
  have : Decidable (∀ c ∈ cs, isHexDigit c ∨ c ∈ "-x.p+ni".toList) := List.decidableBAll _ cs
  inferInstanceAs (Decidable (_ ∧ _))

theorem IsNumeral.negated {cs : List Char} (h : IsNumeral cs) (hlength : cs.length < 62)
    (negative : Bool) : IsNumeral (if negative then '-' :: cs else cs) := by
  cases negative with
  | false => exact h
  | true =>
    refine ⟨List.forall_mem_cons.mpr ⟨.inr (by decide), h.1⟩, ?_⟩
    simp only [if_true, List.length_cons]
    omega

theorem isNumeral_toDigits (n : Nat) (h : n < 2 ^ 64) :
    IsNumeral (Nat.toDigits 10 n) ∧ (Nat.toDigits 10 n).length ≤ 20 := by
  have hlength : (Nat.toDigits 10 n).length ≤ 20 :=
    (Nat.length_toDigits_le_iff (by decide) (by decide)).mpr (h.trans_le (by decide))
  refine ⟨⟨fun c hc => .inl ?_, by omega⟩, hlength⟩
  exact isHexDigit_of_isDigit (Json.allDigits_toDigits n c hc)

/-- A number other than zero in hexadecimal scientific notation. -/
theorem isNumeral_scientific {lead : Nat} (hlead : lead < 16) (fraction : Nat) {power : Int}
    (hpower : power.natAbs < 2 ^ 64) :
    let cs := '0' :: 'x' :: Hex.digit lead :: '.' :: Hex.digits 13 fraction
      ++ 'p' :: (if power < 0 then '-' else '+') :: Nat.toDigits 10 power.natAbs
    IsNumeral cs ∧ cs.length < 62 := by
  intro cs
  obtain ⟨⟨hdigits, -⟩, hlength⟩ := isNumeral_toDigits power.natAbs hpower
  have hcount : cs.length < 62 := by
    simp only [cs, List.length_append, List.length_cons, Hex.length_digits]
    omega
  refine ⟨⟨?_, by omega⟩, hcount⟩
  have hsign : isHexDigit (if power < 0 then '-' else '+') ∨
      (if power < 0 then '-' else '+') ∈ "-x.p+ni".toList := by
    split <;> exact .inr (by decide)
  simp only [cs, List.forall_mem_append, List.forall_mem_cons]
  refine ⟨⟨.inl (by decide), .inr (by decide), .inl (isHexDigit_digit hlead), .inr (by decide),
    fun c hc => .inl (isHexDigit_digits 13 fraction c hc)⟩, .inr (by decide), hsign, hdigits⟩

/-- The hexadecimal text of a number has some twenty digits. -/
theorem isNumeral_renderHex (x : Binary64) : IsNumeral x.renderHex.toList := by
  unfold renderHex
  split
  · rename_i hshape
    rw [render, hshape]
    change IsNumeral "nan".toList
    decide
  · rename_i negative hshape
    rw [render, hshape]
    change IsNumeral (if negative then "-inf" else "inf").toList
    cases negative <;> decide
  · rename_i negative s e hshape
    rw [String.toList_ofList]
    by_cases hs : s = 0
    · have hzero : IsNumeral "0x0.0p+0".toList ∧ "0x0.0p+0".toList.length < 62 := by decide
      simp only [hs, if_true]
      exact hzero.1.negated hzero.2 negative
    · obtain ⟨-, -, hterms⟩ := shape_eq_finite hshape
      have hfinite := hterms (Nat.pos_of_ne_zero hs)
      have hlead : s / hiddenBit < 16 :=
        ((Nat.div_lt_iff_lt_mul (by decide)).mpr hfinite.lt).trans (by decide)
      have hpower : (if s < hiddenBit then -1022 else e + 52 : Int).natAbs < 2 ^ 64 := by
        have hleast := hfinite.least
        have hbounded := hfinite.bounded
        split <;> omega
      have hbody := isNumeral_scientific hlead (s % hiddenBit) hpower
      simp only [hs, if_false]
      exact hbody.1.negated hbody.2 negative

end Numbers

def Guarded {α : Type} (k : List Char) (r : Report) (x : Except Failure α) : Prop :=
  ∀ e, x = .error e → e.Harmless k r

theorem Script.exists_broken? {ds : List Datum} {b : Text.Broken} (h : brokenItem? ds = some b) :
    ∃ d ∈ ds, broken? d = some b := by
  induction ds with
  | nil => cases h
  | cons d ds ih =>
    rcases Option.or_eq_some_iff.mp h with h | ⟨-, h⟩
    · obtain ⟨d', hd', hb⟩ := ih h
      exact ⟨d', List.mem_cons_of_mem d hd', hb⟩
    · exact ⟨d, List.mem_cons_self, h⟩

section Lengths

variable {d : Datum} {b : Text.Broken}

/-- A text is no longer than it is shown. -/
theorem length_le_literal (t : Text) : t.points.length ≤ (Value.text t).literal.length := by
  have hescape (mark : Char) (p : CodePoint) : 1 ≤ (Text.escapePoint mark p).length := by
    cases p with
    | surrogate n => simp [Text.escapePoint]
    | char c =>
      rw [Text.escapePoint]
      unfold Text.escapeChar
      split_ifs <;> simp
  have hall (mark : Char) (ps : List CodePoint) :
      ps.length ≤ (ps.flatMap (Text.escapePoint mark)).length := by
    induction ps with
    | nil => exact le_rfl
    | cons p ps ih =>
      have hp := hescape mark p
      rw [List.flatMap_cons, List.length_append, List.length_cons]
      omega
  have hpoints := hall (Text.quotationMark (t.points.map CodePoint.shown)) t.points
  change t.points.length ≤ (Text.quotePoints t.points).length
  rw [Text.quotePoints, List.length_append, List.length_cons]
  omega

theorem length_le_of_text {v : Value} {t : Text} (ht : v.text? = some t)
    (hb : Script.broken? (.ofText t) = some b) : b.points.length ≤ v.literal.length := by
  cases t with
  | whole s => cases hb
  | broken b' =>
    cases hb
    cases v <;> cases ht
    exact length_le_literal (.broken b)

/-- What cannot be pushed of a value is shown with it. -/
theorem length_le_of_untyped {name : Text} {levels : ℕ} {v : Value}
    (h : Argument.untyped name levels v = .ok d) (hb : Script.broken? d = some b) :
    b.points.length ≤ v.literal.length := by
  induction levels using Nat.strongRecOn generalizing v d with
  | ind levels ih =>
    have hitems {items : List Value} (h : Argument.listed name levels items = .ok d) :
        ∃ x ∈ items, b.points.length ≤ x.literal.length := by
      cases levels with
      | zero => cases h
      | succ levels =>
        obtain ⟨ds, hds, rfl⟩ := map_eq_ok.mp h
        obtain ⟨d, hd, hb⟩ := Script.exists_broken? hb
        obtain ⟨x, hx, hxd⟩ := exists_of_forall₂ (mapM_eq_ok.mp hds).flip hd
        exact ⟨x, hx, ih levels (Nat.lt_succ_self levels) hxd hb⟩
    cases v with
    | text t =>
      cases h
      exact length_le_of_text rfl hb
    | list items =>
      rw [Argument.untyped_list] at h
      obtain ⟨x, hx, hlength⟩ := hitems h
      exact hlength.trans (literal_infix_list hx).length_le
    | tuple items =>
      rw [Argument.untyped_tuple] at h
      obtain ⟨x, hx, hlength⟩ := hitems h
      exact hlength.trans (literal_infix_tuple hx).length_le
    | blob form data => cases form <;> cases h <;> cases hb
    | kind k => cases h; cases hb
    | address a => cases h; cases hb
    | bool c => cases h; cases hb
    | int n => cases h; cases hb
    | _ => cases h

theorem Argument.length_le_of_datum {levels : ℕ} {a : Argument} (h : a.datum levels = .ok d)
    (hb : Script.broken? d = some b) :
    a.kind ≠ .byteArray ∧ b.points.length ≤ a.value.literal.length := by
  obtain ⟨name, kind, v⟩ := a
  cases kind with
  | other => exact ⟨nofun, length_le_of_untyped h hb⟩
  | string =>
    refine ⟨nofun, ?_⟩
    simp only [datum] at h
    split at h
    · rename_i t ht
      cases h
      exact length_le_of_text ht hb
    · cases h
  | byteArray =>
    simp only [datum] at h
    split at h
    · obtain ⟨data, -, rfl⟩ := map_eq_ok.mp h
      cases hb
    · cases h
  | intArray | longArray =>
    simp only [datum] at h
    split at h
    · rename_i ds hds
      cases h
      obtain ⟨d, hd, hb⟩ := Script.exists_broken? hb
      obtain ⟨items, -, hds⟩ := Option.bind_eq_some_iff.mp hds
      obtain ⟨x, -, hx⟩ := exists_of_forall₂ (mapM_eq_some.mp hds).flip hd
      cases x <;> cases hx
      cases hb
    · cases h
  | _ =>
    simp only [datum] at h
    split at h
    · cases h
      cases hb
    · cases h

end Lengths

/-- An argument that, as it is shown, holds no key. The text of bytes is never shown. -/
structure Argument.Withholds (k : List Char) (a : Argument) : Prop where
  name : Conceals k a.name.shown
  size : a.kind ≠ .byteArray → a.value.literal.length < 2 ^ 64
  value : ¬ k <:+: a.value.literal ∨
    a.kind = .byteArray ∧ ∃ data, a.value = .text (Hex.encode data)

section Steps

variable {k : List Char} {r : Report} {α β : Type}

theorem guarded_ok (a : α) : Guarded k r (.ok a) := onlyFails_ok a

theorem guarded_error {e : Failure} (h : e.Harmless k r) :
    Guarded k r (.error e : Except Failure α) := onlyFails_error h

theorem Guarded.bind {x : Except Failure α} {f : α → Except Failure β} (hx : Guarded k r x)
    (hf : ∀ a, x = .ok a → Guarded k r (f a)) : Guarded k r (x >>= f) := OnlyFails.bind hx hf

theorem Guarded.map {x : Except Failure α} (hx : Guarded k r x) (f : α → β) :
    Guarded k r (x.map f) := OnlyFails.map hx f

theorem guarded_mapM {f : α → Except Failure β} {xs : List α}
    (h : ∀ x ∈ xs, Guarded k r (f x)) : Guarded k r (xs.mapM f) := onlyFails_mapM h

theorem guarded_field {x : Except FieldError α} (hx : OnlyFails FieldError.IsOwn x) :
    Guarded k r (x.mapError .field) := by
  cases x with
  | ok a => exact guarded_ok a
  | error e => exact guarded_error (.field (hx e rfl))

theorem conceals_literal {v : Value} (h : ¬ k <:+: v.literal) :
    Conceals k (String.ofList v.literal) := by
  rwa [Conceals, String.toList_ofList]

theorem guarded_hexBytes {v : Value} {t : Text} (ht : v.text? = some t)
    (h : ¬ k <:+: v.literal) : Guarded k r (hexBytes v) := by
  unfold hexBytes
  split
  · exact guarded_ok _
  · rw [withLiteral_of_text ht]
    exact guarded_error (.hex (conceals_literal h))

theorem length_dropMarkerChars_le (cs : List Char) :
    (Hex.dropMarkerChars cs).length ≤ cs.length := by
  unfold Hex.dropMarkerChars
  split
  · simp only [List.length_cons]
    omega
  · simp only [List.length_cons]
    omega
  · exact le_rfl

/-- A text gives no more bytes than it has characters. -/
theorem length_hexBytes_le {t : Text} {bytes : Bytes} (h : hexBytes (.text t) = .ok bytes) :
    bytes.length ≤ t.size := by
  obtain ⟨s, hs, hdecode⟩ := hexBytes_eq_ok_iff.mp h
  cases hs
  rw [Text.size, ← String.length_toList]
  have hcount := (readPairs_eq_some hdecode).1
  have hdigits := List.countP_le_length (p := isHexDigit) (l := Hex.dropMarkerChars s.toList)
  have hmarker := length_dropMarkerChars_le s.toList
  omega

theorem guarded_ofBytes {bytes : Bytes} (h : bytes.length < 2 ^ 64) :
    Guarded k r (Address.ofBytes bytes) := by
  unfold Address.ofBytes
  split
  · exact guarded_ok _
  · exact guarded_error (.addressLength h)

theorem guarded_ofCodeHash {hash : Text} (hlength : hash.size < 2 ^ 64)
    (h : ¬ k <:+: (Value.text hash).literal) : Guarded k r (Address.ofCodeHash (.text hash)) := by
  refine (guarded_hexBytes rfl h).bind fun bytes hbytes => guarded_ofBytes ?_
  rw [List.length_reverse]
  exact (length_hexBytes_le hbytes).trans_lt hlength

theorem guarded_parse {t : Text} (h : ¬ k <:+: (Value.text t).literal) :
    Guarded k r (Address.parse (.text t)) := by
  simp only [Address.parse, Value.text?]
  split
  · rename_i hlength
    refine (guarded_hexBytes rfl h).bind fun bytes hbytes => guarded_ofBytes ?_
    have hle := length_hexBytes_le hbytes
    omega
  · split
    · exact guarded_ok _
    · rw [withLiteral_of_text rfl]
      exact guarded_error (.base58 (conceals_literal h))

theorem guarded_untyped (hk : Secret k) {name : Text} (hname : Conceals k name.shown) {levels : ℕ}
    {v : Value} (h : ¬ k <:+: v.literal) : Guarded k r (Argument.untyped name levels v) := by
  induction levels using Nat.strongRecOn generalizing v with
  | ind levels ih =>
    have hother : Guarded k r
        (.error (.conversion (.unsupported name v.typeName)) : Except Failure Datum) :=
      guarded_error (.unsupported hname (hk.typeName h))
    have hitems {items : List Value} (h : ∀ x ∈ items, ¬ k <:+: x.literal) :
        Guarded k r (Argument.listed name levels items) := by
      cases levels with
      | zero => exact guarded_error .deepArgument
      | succ levels =>
        have hitems := guarded_mapM fun x hx => ih levels (Nat.lt_succ_self levels) (h x hx)
        exact hitems.map Datum.array
    cases v with
    | list items =>
      rw [Argument.untyped_list]
      exact hitems fun x hx hpart => h (hpart.trans (literal_infix_list hx))
    | tuple items =>
      rw [Argument.untyped_tuple]
      exact hitems fun x hx hpart => h (hpart.trans (literal_infix_tuple hx))
    | blob form data =>
      cases form with
      | fixed => exact guarded_ok _
      | mutable => exact guarded_ok _
      | view => exact hother
    | address a => exact guarded_ok _
    | text s => exact guarded_ok _
    | kind a => exact guarded_ok _
    | bool b => exact guarded_ok _
    | int n => exact guarded_ok _
    | _ => exact hother

/-- An argument that withholds the key is refused without it. -/
theorem guarded_datum (hk : Secret k) {levels : ℕ} {a : Argument} (h : a.Withholds k) :
    Guarded k r (a.datum levels) := by
  obtain ⟨name, kind, v⟩ := a
  obtain ⟨hname, -, hvalue⟩ := h
  dsimp only at hname hvalue
  rcases hvalue with hvalue | ⟨rfl, data, rfl⟩
  · have hmistyped (expected : Expected) : Guarded k r
        (.error (.conversion (.mistyped name expected v.typeName)) : Except Failure Datum) :=
      guarded_error (.mistyped expected hname (hk.typeName hvalue))
    cases kind with
    | other => exact guarded_untyped hk hname hvalue
    | byteArray =>
      simp only [Argument.datum]
      split
      · rename_i t ht
        exact (guarded_hexBytes ht hvalue).map Datum.bytes
      · exact hmistyped .hexText
    | intArray | longArray =>
      simp only [Argument.datum]
      split
      · exact guarded_ok _
      · exact guarded_error (.notIntegers hname)
    | _ =>
      simp only [Argument.datum]
      split
      · exact guarded_ok _
      · exact hmistyped _
  · have hdecode : hexBytes (.text (Hex.encode data)) = .ok data :=
      hexBytes_eq_ok_iff.mpr ⟨_, rfl, Hex.decode?_encode data⟩
    simp only [Argument.datum, Value.text?, hdecode]
    exact guarded_ok _

theorem guarded_tag (hk : Secret k) {v : Value} (h : ¬ k <:+: v.literal) :
    Guarded k r (ByteArray.tag v) ∧ ∀ tag content, ByteArray.tag v = .ok (tag, content) →
      ¬ k <:+: content.literal ∨ tag = ByteArray.rawTag ∧ ∃ data, content = .blob .fixed data := by
  unfold ByteArray.tag
  split
  · rename_i tag content
    refine ⟨guarded_ok _, ?_⟩
    rintro _ _ ⟨⟩
    exact .inl fun hpart => h (hpart.trans (literal_infix_tagged tag content))
  · rename_i form data
    refine ⟨guarded_ok _, ?_⟩
    rintro _ _ ⟨⟩
    exact .inr ⟨rfl, data, rfl⟩
  · refine ⟨guarded_ok _, ?_⟩
    rintro _ _ ⟨⟩
    exact .inl h
  · refine ⟨guarded_ok _, ?_⟩
    rintro _ _ ⟨⟩
    exact .inl h
  · exact ⟨guarded_error (.notByteArray (hk.typeName h)), nofun⟩

theorem harmless_withoutOperation (hk : Secret k) {v : Value} (h : ¬ k <:+: v.literal) :
    Failure.Harmless k r (.misuse (v.withoutOperation "hex")) := by
  unfold Value.withoutOperation
  split
  · rename_i type members
    split
    · rename_i member hmember
      refine .notCallable (hk.typeName fun hpart => ?_)
      exact h (hpart.trans (literal_infix_record hmember))
    · exact .noMember (hk.typeName h) (by decide)
  · exact .noMember (hk.typeName h) (by decide)

/-- The text of a byte array is that of bytes or of a number, or it was a text already. -/
theorem guarded_hexText (hk : Secret k) {tag : String} {content : Value}
    (h : ¬ k <:+: content.literal ∨ tag = ByteArray.rawTag ∧ ∃ data, content = .blob .fixed data) :
    Guarded k r (ByteArray.hexText tag content) ∧ ∀ v, ByteArray.hexText tag content = .ok v →
      ¬ k <:+: v.literal ∨ ∃ data, v = .text (Hex.encode data) := by
  unfold ByteArray.hexText
  split
  · split
    · rename_i form data
      refine ⟨guarded_ok _, ?_⟩
      rintro _ ⟨⟩
      exact .inr ⟨data, rfl⟩
    · rename_i x
      refine ⟨guarded_ok _, ?_⟩
      rintro _ ⟨⟩
      obtain ⟨hdigits, hlength⟩ := isNumeral_renderHex x
      refine .inl ?_
      rw [literal_text]
      refine hk.quoteChars hdigits (hk.absent ?_)
      exact List.countP_le_length.trans_lt hlength
    · rename_i a
      refine ⟨guarded_ok _, ?_⟩
      rintro _ ⟨⟩
      exact .inr ⟨a.bytes, rfl⟩
    · rename_i hblob _ _
      have hcontent : ¬ k <:+: content.literal := h.resolve_right fun ⟨_, data, hdata⟩ =>
        hblob _ _ hdata
      exact ⟨guarded_error (harmless_withoutOperation hk hcontent), nofun⟩
  · rename_i htag
    refine ⟨guarded_ok _, ?_⟩
    rintro _ ⟨⟩
    exact .inl (h.resolve_right fun hraw => htag hraw.1)

/-- What becomes of an argument before it is checked: it keeps its name, and byte strings become
hexadecimal text. -/
theorem guarded_argument (hk : Secret k) {p : Abi.Parameter} {v : Value}
    (hname : Conceals k p.name.shown) (hsize : v.literal.length < 2 ^ 64)
    (h : ¬ k <:+: v.literal) :
    Guarded k r (Call.argument p v) ∧ ∀ a, Call.argument p v = .ok a → a.Withholds k := by
  unfold Call.argument
  split
  · rename_i hkind
    obtain ⟨htag, hcontent⟩ := guarded_tag (r := r) hk h
    refine ⟨htag.bind fun (tag, content) heq => ?_, fun a ha => ?_⟩
    · exact (guarded_hexText hk (hcontent tag content heq)).1.bind fun _ _ => guarded_ok _
    · obtain ⟨⟨tag, content⟩, heq, ha⟩ := bind_eq_ok.mp ha
      obtain ⟨value, hvalue, ha⟩ := bind_eq_ok.mp ha
      cases ha
      refine ⟨hname, fun hother => absurd hkind hother, ?_⟩
      rcases (guarded_hexText (r := r) hk (hcontent tag content heq)).2 value hvalue with h | h
      · exact .inl h
      · exact .inr ⟨hkind, h⟩
  · refine ⟨guarded_ok _, fun a ha => ?_⟩
    cases ha
    exact ⟨hname, fun _ => hsize, .inl h⟩

theorem not_infix_defaultGas (hk : Secret k) (gas : Gas) :
    ¬ k <:+: (Value.text (defaultGas gas)).literal := by
  cases gas <;> exact hk.absent (by decide)

/-- The text of a gas option is as harmless as the option. -/
theorem not_infix_gasText (hk : Secret k) {gas : Gas} {given : Option (TextOr Int)} {t : Text}
    (h : ¬ k <:+: (TextOr.toValue? .int given).literal)
    (ht : Options.gasText gas given = .ok t) : ¬ k <:+: (Value.text t).literal := by
  cases given with
  | none =>
    cases ht
    exact not_infix_defaultGas hk gas
  | some given =>
    cases given with
    | text t =>
      rw [Options.gasText] at ht
      cases ht
      split
      · exact not_infix_defaultGas hk gas
      · exact h
    | is n =>
      rw [Options.gasText] at ht
      split_ifs at ht
      · cases ht
        exact not_infix_defaultGas hk gas
      · cases ht
        have hdigits : ∀ c ∈ (toString n).toList, isHexDigit c ∨ c ∈ "-x.p+ni".toList := by
          have hnat : ∀ c ∈ Nat.toDigits 10 n.natAbs, isHexDigit c ∨ c ∈ "-x.p+ni".toList :=
            fun c hc => .inl (isHexDigit_of_isDigit (Json.allDigits_toDigits n.natAbs c hc))
          rw [Json.toList_toString_int]
          split
          · exact List.forall_mem_cons.mpr ⟨.inr (by decide), hnat⟩
          · exact hnat
        rw [literal_text]
        exact hk.quoteChars hdigits h

theorem guarded_gasText (gas : Gas) (given : Option (TextOr Int)) :
    Guarded k r (Options.gasText gas given) := by
  unfold Options.gasText
  split
  · exact guarded_ok _
  · exact guarded_ok _
  · split_ifs
    · exact guarded_ok _
    · exact guarded_error .longInteger
    · exact guarded_ok _

theorem guarded_gasNumber (gas : Gas) {t : Text} (h : ¬ k <:+: (Value.text t).literal) :
    Guarded k r (gasNumber gas (.text t)) := by
  unfold gasNumber
  split
  · rename_i e he
    simp only [Value.toInteger, Value.toInteger.ofOption] at he
    split at he <;> cases he
  · rw [withLiteral_of_text rfl]
    exact guarded_error (.gasText gas (conceals_literal h))
  · split
    · exact guarded_ok _
    · rw [withLiteral_of_text rfl]
      exact guarded_error (.gasRange gas (conceals_literal h))

theorem guarded_payerAddress {o : Options}
    (h : ¬ k <:+: (TextOr.toValue? .address o.payer).literal) : Guarded k r o.payerAddress := by
  unfold Options.payerAddress
  split
  · exact guarded_ok _
  · exact guarded_ok _
  · rename_i s hs
    rw [hs] at h
    exact (guarded_parse h).map some

/-- A text that is no key is shown, which does no harm if what is shown does not hold it. -/
theorem guarded_ofHex {key : String} (hk : KeyText key.toList) (hecho : ¬ Echoed key.toList) :
    Guarded key.toList r (PrivateKey.ofHex (.text key)) := by
  have hbytes : Guarded key.toList r (hexBytes (.text key)) := by
    unfold hexBytes
    split
    · exact guarded_ok _
    · rename_i hnone
      rw [withLiteral_of_text rfl]
      rw [literal_text]
      refine guarded_error (.hex ?_)
      rw [Conceals, String.toList_ofList]
      exact fun hpart => hecho ⟨hnone, hpart⟩
  refine hbytes.bind fun bytes hresult => ?_
  have hlength : bytes.length < 2 ^ 64 := by
    have hle := length_hexBytes_le hresult
    rw [Text.size, ← String.length_toList, hk.length] at hle
    omega
  cases hkey : PrivateKey.ofBytes bytes with
  | ok key => exact guarded_ok _
  | error e =>
    cases e with
    | wrongLength n =>
      have hn : bytes.length = n := by
        unfold PrivateKey.ofBytes at hkey
        split_ifs at hkey
        · dsimp only at hkey
          split_ifs at hkey
          · cases hkey
          · cases hkey
        · exact PrivateKeyError.wrongLength.inj (Except.error.inj hkey)
      exact guarded_error (.keyLength (hn ▸ hlength))
    | zero => exact guarded_error (.keyRange (.inl rfl))
    | tooLarge => exact guarded_error (.keyRange (.inr rfl))

end Steps

structure Options.Withholds (k : List Char) (o : Options) : Prop where
  payer : ¬ k <:+: (TextOr.toValue? .address o.payer).literal
  price : ¬ k <:+: (TextOr.toValue? .int o.gasPrice).literal
  limit : ¬ k <:+: (TextOr.toValue? .int o.gasLimit).literal

/-- The call holds no key: the names in it, and the code hash and the arguments as they are shown.
Its sizes are those that a machine can hold. -/
structure Call.Withholds (k : List Char) (call : Call) : Prop where
  function : Conceals k call.function.shown
  codeHash : ¬ k <:+: (Value.text call.contract.codeHash).literal
  parameters : ∀ f ∈ call.contract.abi.functions, ∀ p ∈ f.parameters, Conceals k p.name.shown
  arguments : ∀ v ∈ call.arguments, ¬ k <:+: v.literal
  functionLength : call.function.size < 2 ^ 64
  hashLength : call.contract.codeHash.size < 2 ^ 64
  argumentLength : ∀ v ∈ call.arguments, v.literal.length < 2 ^ 64
  argumentCount : call.arguments.length < 2 ^ 64
  parameterCount : ∀ f ∈ call.contract.abi.functions, f.parameters.length < 2 ^ 64

section Calls

variable {k : List Char} {r : Report} {levels : ℕ} {call : Call} {o : Options} {nonce : Value}

theorem guarded_options (given : GivenOptions) : Guarded k r given.options := by
  cases given with
  | checked o => exact guarded_ok o
  | value v =>
    intro e he
    cases hcheck : Options.check v with
    | ok o =>
      rw [GivenOptions.options, Options.ofValue, hcheck] at he
      cases he
    | error vs =>
      rw [GivenOptions.options, Options.ofValue, hcheck] at he
      cases he
      obtain ⟨hcount, hall⟩ := finds_check v vs hcheck
      exact .options (hcount.trans_lt (by decide)) hall

theorem mem_of_resolve {f : Abi.Function} (h : call.resolve = .ok f) :
    f ∈ call.contract.abi.functions ∧ f.name = call.function := by
  unfold Call.resolve at h
  split at h
  · rename_i g hg
    cases h
    unfold Abi.function? at hg
    exact ⟨List.mem_of_find?_eq_some hg, by simpa using List.find?_some hg⟩
  · cases h

theorem guarded_resolve (h : call.Withholds k) : Guarded k r call.resolve := by
  unfold Call.resolve
  split
  · exact guarded_ok _
  · exact guarded_error (.unknownFunction h.function)

theorem guarded_arguments? (hk : Secret k) (h : call.Withholds k) {f : Abi.Function}
    (hf : call.resolve = .ok f) :
    Guarded k r (call.arguments? f) ∧
      ∀ arguments, call.arguments? f = .ok arguments → ∀ a ∈ arguments, a.Withholds k := by
  obtain ⟨hmem, hname⟩ := mem_of_resolve hf
  have hpair : ∀ x ∈ f.parameters.zip call.arguments, Guarded k r (Call.argument x.1 x.2) ∧
      ∀ a, Call.argument x.1 x.2 = .ok a → a.Withholds k := fun x hx =>
    guarded_argument hk (h.parameters f hmem x.1 (List.of_mem_zip hx).1)
      (h.argumentLength x.2 (List.of_mem_zip hx).2) (h.arguments x.2 (List.of_mem_zip hx).2)
  unfold Call.arguments?
  split
  · refine ⟨guarded_mapM fun x hx => (hpair x hx).1, fun arguments hresult a ha => ?_⟩
    obtain ⟨x, hx, hax⟩ := exists_of_forall₂ (mapM_eq_ok.mp hresult).flip ha
    exact (hpair x hx).2 a hax
  · refine ⟨guarded_error (.arity ?_ (h.parameterCount f hmem) h.argumentCount), nofun⟩
    rw [hname]
    exact h.function

/-- A text without an encoding is the function of a call, or part of an argument that is shown. -/
theorem harmless_notCallable {function : Text} (hfunction : function.size < 2 ^ 64)
    {arguments : List Argument} (harguments : ∀ a ∈ arguments, a.Withholds k) {data : List Datum}
    (hdata : arguments.mapM (Argument.datum levels) = .ok data) :
    Failure.Harmless k r (.misuse (Transaction.notCallable function data)) := by
  unfold Transaction.notCallable
  split
  · rename_i b hb
    refine .unencodable ?_
    rcases Option.or_eq_some_iff.mp hb with hb | ⟨-, hb⟩
    · obtain ⟨d, hd, hb⟩ := Script.exists_broken? hb
      obtain ⟨a, ha, had⟩ := exists_of_forall₂ (mapM_eq_ok.mp hdata).flip hd
      obtain ⟨hkind, hlength⟩ := Argument.length_le_of_datum had hb
      exact hlength.trans_lt ((harguments a ha).size hkind)
    · cases function with
      | whole s => cases hb
      | broken b' =>
        cases hb
        exact hfunction
  · exact .pushedLength

theorem guarded_invoke (hk : Secret k) {function price limit : Text}
    (hfunction : function.size < 2 ^ 64) {arguments : List Argument}
    (harguments : ∀ a ∈ arguments, a.Withholds k)
    (hprice : ¬ k <:+: (Value.text price).literal) (hlimit : ¬ k <:+: (Value.text limit).literal)
    (contract : Address) (payer : Option Address) :
    Guarded k r (Transaction.invoke levels function arguments contract (.text price) (.text limit)
      payer nonce) := by
  refine (guarded_mapM fun a ha => guarded_datum hk (harguments a ha)).bind fun data hdata => ?_
  refine (guarded_gasNumber .price hprice).bind fun _ _ => ?_
  refine (guarded_gasNumber .limit hlimit).bind fun _ _ => ?_
  split
  · exact guarded_error (harmless_notCallable hfunction harguments hdata)
  · exact guarded_ok _

theorem guarded_transaction (hk : Secret k) (h : call.Withholds k) (ho : o.Withholds k) :
    Guarded k r (call.transaction levels o nonce) := by
  refine (guarded_resolve h).bind fun f hf => ?_
  obtain ⟨harguments, hall⟩ := guarded_arguments? (r := r) hk h hf
  refine harguments.bind fun arguments hresult => ?_
  refine (guarded_gasText .price o.gasPrice).bind fun price hprice => ?_
  refine (guarded_gasText .limit o.gasLimit).bind fun limit hlimit => ?_
  refine (guarded_payerAddress ho.payer).bind fun payer _ => ?_
  refine (guarded_ofCodeHash h.hashLength h.codeHash).bind fun address _ => ?_
  have hfunction : f.name.size < 2 ^ 64 := (mem_of_resolve hf).2 ▸ h.functionLength
  exact guarded_invoke hk hfunction (hall arguments hresult) (not_infix_gasText hk ho.price hprice)
    (not_infix_gasText hk ho.limit hlimit) address payer

end Calls

/-- The failure of the result, if it is one, does not tell the key. -/
def Discreet {α : Type} (k : List Char) (r : Report) (x : Except Failure α) : Prop :=
  ∀ e, x = .error e → Conceals k (e.text r)

theorem Guarded.discreet {α : Type} {k : List Char} {r : Report} (hk : Secret k)
    (hr : r.Brief k) {x : Except Failure α} (h : Guarded k r x) : Discreet k r x :=
  fun e he => (h e he).conceals hk hr

namespace Call

open Activity

variable {levels : ℕ} {call : Call} {given given' : GivenOptions} {client : Option Client}
  {nonce : Value}

/-- The options that are given, if any, hold the key as the text of the key and nowhere else. -/
def HeldAlone (key : String) (given : GivenOptions) : Prop :=
  ∀ o, given.options = .ok o → o.privateKey = .text key ∧ o.Withholds key.toList

/-- What the client that is asked says when it fails does not tell the key. -/
def AskedDiscreetly (k : List Char) (r : Report) (call : Call) (client : Option Client) : Prop :=
  ∀ c, client.or call.contract.client = some c → ∀ request, Discreet k r (c.answer request)

section Failures

variable {key : String} {r : Report}

theorem guarded_build (hk : Secret key.toList) (h : call.Withholds key.toList)
    (hgiven : HeldAlone key given) :
    Guarded key.toList r (call.build levels given nonce).run.1 := by
  rw [(call.local_build levels given nonce).run]
  exact (guarded_options given).bind fun o ho => guarded_transaction hk h (hgiven o ho).2

theorem guarded_sendingWork (hkey : KeyText key.toList) (hecho : ¬ Echoed key.toList)
    (h : call.Withholds key.toList) (hgiven : HeldAlone key given) :
    Guarded key.toList r (call.sendingWork levels given nonce) := by
  refine (guarded_options given).bind fun o ho => ?_
  obtain ⟨htext, hwithholds⟩ := hgiven o ho
  have hchosen : Guarded key.toList r o.signingKey := by
    rw [Options.signingKey, htext]
    exact guarded_ofHex hkey hecho
  refine (guarded_transaction (hkey.secret hecho) h hwithholds).bind fun tx htx => ?_
  obtain ⟨_, _, _, _, _, _, -, -, -, hinvoke⟩ := exists_invoke_of_transaction htx
  have hbytes := Transaction.holdsBytes_of_invoke hinvoke
  refine hchosen.bind fun k _ => ?_
  refine (guarded_field (hbytes.onlyFails_sign k)).bind fun signed hsign => ?_
  have hsigned := hbytes.of_sign (mapError_eq_ok.mp hsign)
  refine (guarded_field hsigned.onlyFails_hash).bind fun _ _ => ?_
  exact (guarded_field hsigned.onlyFails_text).bind fun _ _ => guarded_ok _

/-- Without a client a call is prepared as with one, and then there is nobody to ask. -/
theorem local_send_of_none (h : client.or call.contract.client = none) :
    (call.send levels given client nonce).Local
      (call.sendingWork levels given nonce >>= fun request =>
        .error (.misuse (.noMember "NoneType" request.method))) := by
  unfold sendingWork
  simp only [bind_assoc]
  refine (local_ofExcept _).bind fun options => ?_
  refine (call.local_buildWith levels options nonce).bind fun tx => ?_
  refine (local_ofExcept _).bind fun key => ?_
  refine (local_layout _).bind fun signed => ?_
  refine (local_layout _).bind fun hash => ?_
  refine (local_log _).bind fun _ => ?_
  refine (local_layout _).bind fun text => ?_
  rw [h]
  exact local_ofExcept (.error _)

theorem guarded_send (hkey : KeyText key.toList) (hecho : ¬ Echoed key.toList)
    (h : call.Withholds key.toList) (hgiven : HeldAlone key given)
    (hclient : call.AskedDiscreetly key.toList r client) :
    Guarded key.toList r (call.send levels given client nonce).run.1 := by
  have hwork : Guarded key.toList r (call.sendingWork levels given nonce) :=
    guarded_sendingWork hkey hecho h hgiven
  cases hc : client.or call.contract.client with
  | none =>
    rw [(local_send_of_none hc).run]
    refine hwork.bind fun request hrequest => guarded_error (.noMember ?_ ?_)
    · exact (hkey.secret hecho).conceals (by decide)
    · obtain ⟨text, -, rfl⟩ := map_eq_ok.mp (sendingWork_eq levels call given nonce ▸ hrequest)
      exact List.mem_cons_of_mem _ (List.mem_singleton.mpr rfl)
  | some c =>
    rw [(submits_sendingWork hc).run.1]
    exact hwork.bind fun request _ e he => .answered (hclient c hc request e he)

end Failures

section Logs

theorem exec_ofExcept_bind {α β : Type} {r : Except Failure α} {a : α} (h : r = .ok a)
    (f : α → Activity β) (t : Trace) : (ofExcept r >>= f).exec t = (f a).exec t := by
  rw [h]
  rfl

theorem exec_log_bind {β : Type} (record : LogRecord) (f : Unit → Activity β) (t : Trace) :
    (log record >>= f).exec t = (f ()).exec { t with logs := t.logs ++ [record] } := rfl

/-- What a call has logged when it is submitted: that it was built and that it is submitted. -/
theorem exists_logs_of_requests (h : (call.send levels given client nonce).run.2.requests ≠ []) :
    ∃ o tx address hash, given.options = .ok o ∧ call.transaction levels o nonce = .ok tx ∧
      call.contract.address = .ok address ∧ tx.hash = .ok hash ∧
        (call.send levels given client nonce).run.2.logs =
          [Transaction.builtRecord tx.function address, call.submittingRecord hash] := by
  cases hc : client.or call.contract.client with
  | none => exact absurd (local_send_of_none hc ⟨[], []⟩).2 h
  | some c =>
    have hrequests := (@submits_sendingWork levels call given nonce client c hc).run.2
    cases hwork : call.sendingWork levels given nonce with
    | error e =>
      rw [hwork] at hrequests
      exact absurd hrequests h
    | ok request =>
      obtain ⟨o, ho, hwork⟩ := bind_eq_ok.mp hwork
      obtain ⟨tx, htx, hwork⟩ := bind_eq_ok.mp hwork
      obtain ⟨key, hkey, hwork⟩ := bind_eq_ok.mp hwork
      obtain ⟨signed, hsigned, hwork⟩ := bind_eq_ok.mp hwork
      obtain ⟨hash, hhash, hwork⟩ := bind_eq_ok.mp hwork
      obtain ⟨-, -, hwork⟩ := bind_eq_ok.mp hwork
      obtain ⟨text, htext, -⟩ := bind_eq_ok.mp hwork
      obtain ⟨-, -, address, -, -, -, -, -, haddress, -⟩ := exists_invoke_of_transaction htx
      obtain ⟨head, hhead, rfl⟩ := Transaction.sign_eq_ok_iff.mp (mapError_eq_ok.mp hsigned)
      have hsame := Transaction.sameFields_endorse tx key (Sha256.hashTwice head)
      refine ⟨o, tx, address, hash, ho, htx, haddress, ?_, ?_⟩
      · rw [hsame.hash_eq]
        exact mapError_eq_ok.mp hhash
      · have hbuilt (t : Trace) : (call.buildWith levels o nonce).exec t =
            (.ok tx, { t with
              logs := t.logs ++ [Transaction.builtRecord tx.function address] }) := by
          rw [buildWith, exec_ofExcept_bind htx, exec_ofExcept_bind haddress]
          rfl
        rw [run_eq_exec, send, exec_ofExcept_bind ho, exec_bind, hbuilt]
        dsimp only
        rw [exec_ofExcept_bind hkey, layout, exec_ofExcept_bind hsigned, layout,
          exec_ofExcept_bind hhash, exec_log_bind, layout, exec_ofExcept_bind htext, hc]
        rfl

/-- The key of the options has no part in the transaction, nor in its hash. -/
theorem logs_eq_of_requests {o : Options} {key : TextOr PrivateKey} (ho : given.options = .ok o)
    (ho' : given'.options = .ok { o with privateKey := key })
    (h : (call.send levels given client nonce).run.2.requests ≠ [])
    (h' : (call.send levels given' client nonce).run.2.requests ≠ []) :
    (call.send levels given client nonce).run.2.logs =
      (call.send levels given' client nonce).run.2.logs := by
  obtain ⟨p, tx, address, hash, hp, htx, haddress, hhash, hlogs⟩ := exists_logs_of_requests h
  obtain ⟨q, tx', address', hash', hq, htx', haddress', hhash', hlogs'⟩ :=
    exists_logs_of_requests h'
  obtain rfl : o = p := Except.ok.inj (ho.symm.trans hp)
  obtain rfl : { o with privateKey := key } = q := Except.ok.inj (ho'.symm.trans hq)
  obtain rfl : tx = tx' := Except.ok.inj (htx.symm.trans htx')
  obtain rfl : address = address' := Except.ok.inj (haddress.symm.trans haddress')
  obtain rfl : hash = hash' := Except.ok.inj (hhash.symm.trans hhash')
  rw [hlogs, hlogs']

/-- A request that submits a call is the same to a log, whatever the text that it submits. -/
theorem map_record_requests (h : (call.send levels given client nonce).run.2.requests ≠ [])
    (n : Node.Rest) : (call.send levels given client nonce).run.2.requests.map (Node.record n ·.2) =
      [⟨.debug, .node, "POST " ++ (n.url ++ "/api/v1/transaction")⟩] := by
  cases hc : client.or call.contract.client with
  | none => exact absurd (local_send_of_none hc ⟨[], []⟩).2 h
  | some c =>
    have hrequests := (@submits_sendingWork levels call given nonce client c hc).run.2
    cases hwork : call.sendingWork levels given nonce with
    | error e =>
      rw [hwork] at hrequests
      exact absurd hrequests h
    | ok request =>
      obtain ⟨text, -, rfl⟩ := map_eq_ok.mp (sendingWork_eq levels call given nonce ▸ hwork)
      rw [hrequests, hwork]
      rfl

end Logs

/-- A text that is no key is refused with what is shown of it. -/
theorem exists_ofHex_eq_error {key : String} (h : Echoed key.toList) :
    ∃ e, PrivateKey.ofHex (.text key) = .error (.conversion e) ∧
      key.toList <:+: e.message.toList := by
  obtain ⟨hnone, hpart⟩ := h
  let shown := String.ofList (Text.quoteChars key.toList)
  have hshown : shown.toList = Text.quoteChars key.toList := String.toList_ofList
  have hbytes : hexBytes (.text key) = .error (.conversion (.hex shown)) := by
    have hdecode : Hex.decode? key = none := hnone
    unfold hexBytes
    rw [withLiteral_of_text rfl]
    simp only [Value.text?, Option.bind_some, Text.whole?, hdecode, literal_text, shown]
  refine ⟨.hex shown, ?_, ?_⟩
  · rw [PrivateKey.ofHex, hbytes]
    rfl
  · have hmessage : (ConversionError.hex shown).message = "Invalid hex string: " ++ shown := rfl
    rw [hmessage, String.toList_append, hshown]
    exact hpart.trans (List.suffix_append _ _).isInfix

/-- Reading a key, building a call with it and sending the call keep it to themselves whenever they
fail, unless the key is no key and is shown as it is. What is logged when a call is submitted is the
same for every key. -/
theorem discreet_iff_and_logs_eq (call : Call) (client : Option Client) (nonce : Value) :
    (∀ (key : String) (r : Report) (given : GivenOptions), KeyText key.toList →
      r.Brief key.toList → call.Withholds key.toList → HeldAlone key given →
      call.AskedDiscreetly key.toList r client →
        (Discreet key.toList r (PrivateKey.ofHex (.text key)) ∧
          Discreet key.toList r (call.build levels given nonce).run.1 ∧
          Discreet key.toList r (call.send levels given client nonce).run.1 ↔
            ¬ Echoed key.toList)) ∧
      ∀ (given given' : GivenOptions) (o : Options) (key : TextOr PrivateKey),
        given.options = .ok o → given'.options = .ok { o with privateKey := key } →
        (call.send levels given client nonce).run.2.requests ≠ [] →
        (call.send levels given' client nonce).run.2.requests ≠ [] →
          (call.send levels given client nonce).run.2.logs =
              (call.send levels given' client nonce).run.2.logs ∧
            ∀ n : Node.Rest,
              (call.send levels given client nonce).run.2.requests.map (Node.record n ·.2) =
                (call.send levels given' client nonce).run.2.requests.map (Node.record n ·.2) := by
  constructor
  · intro key r given hkey hr hcall hgiven hclient
    constructor
    · rintro ⟨hread, -, -⟩ hecho
      obtain ⟨e, he, hpart⟩ := exists_ofHex_eq_error hecho
      exact hread _ he hpart
    · intro hecho
      have hk : Secret key.toList := hkey.secret hecho
      exact ⟨(guarded_ofHex hkey hecho).discreet hk hr,
        (guarded_build hk hcall hgiven).discreet hk hr,
        (guarded_send hkey hecho hcall hgiven hclient).discreet hk hr⟩
  · intro given given' o key ho ho' h h'
    refine ⟨logs_eq_of_requests ho ho' h h', fun n => ?_⟩
    rw [map_record_requests h n, map_record_requests h' n]

/-- A client that refuses what it is sent, and the same call with another key. -/
theorem discreet_iff_and_logs_eq_refused :
    let key := "75de8489fcb2dcaf2ef3cd607feffde18789de7da129b5e97c81e001793cb7cf"
    let r : Report := ⟨fun _ => "[]", fun _ => "list", fun _ => "the list of rules"⟩
    let contract : Contract := ⟨
      ⟨"f1d7b2a1c3d4e5f60718293a4b5c6d7e8f901234",
        [⟨"transfer", [⟨"amount", "Integer", []⟩], []⟩], []⟩,
      some ⟨"own", fun _ => .error (.client "SubmissionError" "Transaction submission failed")⟩⟩
    let call : Call := ⟨contract, "transfer", [.int 7]⟩
    let given : GivenOptions := .checked ⟨none, .text key, some (.is 600), none⟩
    let given' : GivenOptions := .checked ⟨none, .is (.ofNat 2), some (.is 600), none⟩
    (KeyText key.toList ∧ ¬ Echoed key.toList ∧ r.Brief key.toList ∧
      call.Withholds key.toList ∧ HeldAlone key given ∧ call.AskedDiscreetly key.toList r none) ∧
    (Discreet key.toList r (PrivateKey.ofHex (.text key)) ∧
      Discreet key.toList r (call.build 960 given (.int 5)).run.1 ∧
      Discreet key.toList r (call.send 960 given none (.int 5)).run.1) ∧
    (call.send 960 given none (.int 5)).run.2.requests ≠ [] ∧
    (call.send 960 given' none (.int 5)).run.2.requests ≠ [] ∧
    (call.send 960 given none (.int 5)).run.2.logs =
      (call.send 960 given' none (.int 5)).run.2.logs := by
  intro key r contract call given given'
  have hkey : KeyText key.toList := by decide +kernel
  have hecho : ¬ Echoed key.toList := by decide +kernel
  have hk : Secret key.toList := hkey.secret hecho
  have hr : r.Brief key.toList :=
    ⟨fun _ => show "[]".toList.length ≤ 52 by decide,
      fun _ => hk.conceals (s := "list") (by decide),
      fun _ => show "the list of rules".toList.length ≤ 52 by decide⟩
  have hcall : call.Withholds key.toList := {
    function := hk.conceals (s := "transfer") (by decide)
    codeHash := hk.absent (by decide)
    parameters := by
      have hname : Conceals key.toList (Text.whole "amount").shown :=
        hk.conceals (s := "amount") (by decide)
      simpa [call, contract] using hname
    arguments := List.forall_mem_singleton.mpr (hk.absent (by decide))
    functionLength := by decide
    hashLength := by decide
    argumentLength := List.forall_mem_singleton.mpr (by decide)
    argumentCount := by decide
    parameterCount := by decide }
  have hgiven : HeldAlone key given := by
    rintro _ ⟨⟩
    exact ⟨rfl, hk.absent (by decide), hk.absent (by decide), hk.absent (by decide)⟩
  have hclient : call.AskedDiscreetly key.toList r none := by
    rintro _ ⟨⟩ request _ ⟨⟩
    exact hk.conceals (s := "Transaction submission failed") (by decide)
  have hsent (given : GivenOptions) {o : Options} {k : PrivateKey} (ho : given.options = .ok o)
      (hchosen : o.signingKey = .ok k)
      (hbuilt : ((call.build 960 given (.int 5)).run.1 >>= fun tx =>
        tx.unsigned.mapError .field).isOk) :
      (call.send 960 given none (.int 5)).run.2.requests ≠ [] := by
    obtain ⟨head, hhead⟩ := exists_eq_ok hbuilt
    obtain ⟨tx, htx, hhead⟩ := bind_eq_ok.mp hhead
    obtain ⟨text, htext⟩ := exists_prepared_eq_ok htx (mapError_eq_ok.mp hhead) ho hchosen
    have hrequests := (@submits_sendingWork 960 call given (.int 5) none _ rfl).run.2
    rw [hrequests, sendingWork_eq, htext]
    exact List.cons_ne_nil _ _
  have hread : (PrivateKey.ofHex (.text key)).isOk := by decide +kernel
  obtain ⟨k, hk⟩ := exists_eq_ok hread
  have hone := hsent given rfl hk (by decide +kernel)
  have htwo := hsent given' rfl rfl (by decide +kernel)
  obtain ⟨hfailures, hlogs⟩ := discreet_iff_and_logs_eq call none (.int 5)
  exact ⟨⟨hkey, hecho, hr, hcall, hgiven, hclient⟩,
    (hfailures key r given hkey hr hcall hgiven hclient).mpr hecho, hone, htwo,
    (hlogs given given' _ _ rfl rfl hone htwo).1⟩

/-- A key with its last digit mistyped is shown where it is refused. -/
theorem ofHex_echoes_mistyped :
    let key := "75de8489fcb2dcaf2ef3cd607feffde18789de7da129b5e97c81e001793cb7cz"
    KeyText key.toList ∧ ∃ e, PrivateKey.ofHex (.text key) = .error (.conversion e) ∧
      key.toList <:+: e.message.toList := by
  intro key
  have hkey : KeyText key.toList := by decide +kernel
  exact ⟨hkey, exists_ofHex_eq_error (hkey.echoed (c := 'z') (by decide +kernel) (by decide))⟩

end Call

end Bindery
