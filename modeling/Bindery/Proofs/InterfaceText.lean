import Bindery.Proofs.DistinctNames
import Bindery.Proofs.JsonText
import Bindery.Proofs.RawInput

/-!
# Interfaces read back from their text

The document of an interface is that of its value, which has the declared members first. Reading it
again finds the declared members where they were written and keeps the others as they are, so that
the interface that is read has the same document, with the halves of characters joined.
-/

namespace Bindery

theorem Value.toJsonItems_map {α : Type} (d : ℕ) (f : α → Value) (xs : List α) :
    Value.toJsonItems d (xs.map f) = xs.mapM fun x => (f x).toJson d := by
  induction xs with
  | nil => rfl
  | cons x xs ih => rw [List.map_cons, Value.toJsonItems, ih, List.mapM_cons]

namespace Abi

theorem extraJson_eq {extra : List (Text × Value)} {d : ℕ}
    (h : ∀ m ∈ extra, m.2.depth ≤ nestingLimit) (hd : nestingLimit ≤ d) :
    extraJson extra = Value.toJsonMembers d extra :=
  have hdepth := Value.depthMembers_le.mpr h
  Value.toJsonMembers_congr extra hdepth (hdepth.trans hd)

theorem Parameter.toJson_eq {p : Parameter} (h : p.KeptWithin nestingLimit) {d : ℕ}
    (hd : nestingLimit ≤ d) : p.toJson = p.toValue.toJson (d + 1) := by
  obtain ⟨d, rfl⟩ := Nat.exists_eq_add_of_le' hd
  rw [Parameter.toJson, extraJson_eq h hd]
  simp only [Parameter.toValue, Value.toJson, Value.toJsonMembers, ok_bind, nestingLimit]
  cases Value.toJsonMembers (d + 255) p.extra <;> rfl

theorem Function.toJson_eq {f : Function} (h : f.KeptWithin nestingLimit) {d : ℕ}
    (hd : nestingLimit ≤ d) : f.toJson = f.toValue.toJson (d + 3) := by
  have hparameters : f.parameters.mapM Parameter.toJson =
      Value.toJsonItems (d + 1) (f.parameters.map Parameter.toValue) := by
    rw [Value.toJsonItems_map]
    exact mapM_congr fun p hp => Parameter.toJson_eq (h.parameters p hp) hd
  rw [Function.toJson, extraJson_eq h.extra (Nat.le_add_right_of_le hd : _ ≤ d + 2), hparameters]
  simp only [Function.toValue, Value.toJson, Value.toJsonMembers, ok_bind]
  cases Value.toJsonItems (d + 1) (f.parameters.map Parameter.toValue) with
  | error e => rfl
  | ok parameters => cases Value.toJsonMembers (d + 2) f.extra <;> rfl

/-- The document of an interface is that of its value, if no kept value goes too deep. -/
theorem toJson_eq {abi : Abi} (h : abi.KeptWithin nestingLimit) {d : ℕ} (hd : nestingLimit ≤ d) :
    abi.toJson = abi.toValue.toJson (d + 5) := by
  have hfunctions : abi.functions.mapM Function.toJson =
      Value.toJsonItems (d + 3) (abi.functions.map Function.toValue) := by
    rw [Value.toJsonItems_map]
    exact mapM_congr fun f hf => Function.toJson_eq (h.functions f hf) hd
  rw [toJson, extraJson_eq h.extra (Nat.le_add_right_of_le hd : _ ≤ d + 4), hfunctions]
  simp only [toValue, Value.toJson, Value.toJsonMembers, ok_bind]
  cases Value.toJsonItems (d + 3) (abi.functions.map Function.toValue) with
  | error e => rfl
  | ok functions => cases Value.toJsonMembers (d + 4) abi.extra <;> rfl

/-- The extra members of a document are those behind the two declared ones. -/
theorem extraOf_ofJsonMembers {a b : Text} {x y : Value} {extra : List (Text × Json)}
    (h : (a :: b :: extra.map Prod.fst).Nodup) :
    extraOf [a, b] ((a, x) :: (b, y) :: Value.ofJsonMembers extra) = Value.ofJsonMembers extra := by
  have hkept : ∀ m ∈ Value.ofJsonMembers extra, m.1 ∉ [a, b] := by
    intro m hm hdeclared
    have hname : m.1 ∈ extra.map Prod.fst :=
      Json.map_fst_ofJsonMembers extra ▸ List.mem_map_of_mem hm
    obtain ⟨ha, hb⟩ := List.nodup_cons.mp h
    rcases List.mem_pair.mp hdeclared with heq | heq
    · exact ha (List.mem_cons_of_mem b (heq ▸ hname))
    · exact (List.nodup_cons.mp hb).1 (heq ▸ hname)
  have hdeclared : extraOf [a, b] ((a, x) :: (b, y) :: Value.ofJsonMembers extra) =
      extraOf [a, b] (Value.ofJsonMembers extra) := by
    simp [extraOf]
  rw [hdeclared]
  exact List.filter_eq_self.mpr fun m hm => decide_eq_true (hkept m hm)

theorem named_ofJsonMembers {α : Type} {place : List Step}
    {check : List (Text × Value) → Checked α} {members : List (Text × Json)}
    (h : ∀ m ∈ members, m.1.isWhole) :
    Checked.named place check (Value.ofJsonMembers members) =
      check (Value.ofJsonMembers members) := by
  refine Checked.named_of_whole fun m hm => ?_
  have hname := Json.map_fst_ofJsonMembers members ▸ List.mem_map_of_mem hm
  obtain ⟨m', hm', heq⟩ := List.mem_map.mp hname
  exact heq ▸ h m' hm'

theorem object_ofJson {α : Type} {place : List Step} {model : String}
    {check : List (Text × Value) → Checked α} {members : List (Text × Json)}
    (h : ∀ m ∈ members, m.1.isWhole) :
    Checked.object place model (.ofJson (.obj members)) (.named place check) =
      check (Value.ofJsonMembers members) := by
  rw [Value.ofJson, Checked.object, named_ofJsonMembers h]

/-- What is written of parameters, functions or interfaces can be checked, and is written of what
the check gives. -/
def Returns {α : Type} (check : List Step → Value → Checked α) (write : α → Except Failure Json) :
    Prop :=
  ∀ x j, write x = .ok j → j.Plain → ∀ place, ∃ y, check place (.ofJson j) = .ok y ∧ write y = .ok j

theorem Returns.all {α : Type} {check : List Step → Value → Checked α}
    {write : α → Except Failure Json} (h : Returns check write) {xs : List α} {js : List Json}
    (hjs : xs.mapM write = .ok js) (hplain : Json.PlainItems js) (place : List Step) (start : ℕ) :
    ∃ ys, Checked.all (fun i => check (place ++ [.index i])) start (Value.ofJsonItems js) = .ok ys ∧
      ys.mapM write = .ok js := by
  induction xs generalizing js start with
  | nil =>
    cases hjs
    exact ⟨[], rfl, rfl⟩
  | cons x xs ih =>
    rw [List.mapM_cons] at hjs
    obtain ⟨j, hj, hjs⟩ := bind_eq_ok.mp hjs
    obtain ⟨rest, hrest, hjs⟩ := bind_eq_ok.mp hjs
    cases hjs
    obtain ⟨y, hcheck, hy⟩ := h x j hj hplain.1 (place ++ [.index start])
    obtain ⟨ys, hchecks, hys⟩ := ih hrest hplain.2 (start + 1)
    refine ⟨y :: ys, ?_, ?_⟩
    · rw [Value.ofJsonItems, Checked.all, hcheck, hchecks]
      rfl
    · rw [List.mapM_cons, hy, hys]
      rfl

/-- What has been written of kept values is written again as it is. -/
theorem extraJson_ofJsonMembers {members : List (Text × Value)} {extra : List (Text × Json)}
    (h : extraJson members = .ok extra) (hplain : Json.PlainMembers extra) :
    extraJson (Value.ofJsonMembers extra) = .ok extra :=
  Value.toJsonMembers_ofJsonMembers extra (Value.isWhole_of_toJsonMembers h) hplain
    (Value.le_of_toJsonMembers members h).2

theorem Parameter.returns : Returns Parameter.check Parameter.toJson := by
  intro p j hj hplain place
  obtain ⟨extra, hwritten, hj⟩ := bind_eq_ok.mp hj
  cases hj
  obtain ⟨hnames, hwhole, -, -, hextra⟩ := hplain
  have hkept := @extraOf_ofJsonMembers "name" "type" (.text p.name) (.text p.type) _ hnames
  refine ⟨⟨p.name, p.type, Value.ofJsonMembers extra⟩, ?_, ?_⟩
  · rw [← hkept]
    rw [Parameter.check, object_ofJson hwhole]
    rfl
  · rw [Parameter.toJson, extraJson_ofJsonMembers hwritten hextra]
    rfl

theorem Function.returns : Returns Function.check Function.toJson := by
  intro f j hj hplain place
  obtain ⟨js, hjs, hj⟩ := bind_eq_ok.mp hj
  obtain ⟨extra, hwritten, hj⟩ := bind_eq_ok.mp hj
  cases hj
  obtain ⟨hnames, hwhole, -, hitems, hextra⟩ := hplain
  have hkept := @extraOf_ofJsonMembers "name" "parameters" (.text f.name)
    (.list (Value.ofJsonItems js)) _ hnames
  obtain ⟨ps, hcheck, hps⟩ := Parameter.returns.all hjs hitems (place ++ [.name "parameters"]) 0
  refine ⟨⟨f.name, ps, Value.ofJsonMembers extra⟩, ?_, ?_⟩
  · have hparts : Function.check place (.ofJson (.obj (("name", .str f.name) ::
        ("parameters", .arr js) :: extra))) =
        (Checked.both (.ok f.name) (Checked.all (fun i => Parameter.check
          (place ++ [.name "parameters"] ++ [.index i])) 0 (Value.ofJsonItems js))).map
          fun p => ⟨p.1, p.2, extraOf ["name", "parameters"]
            (("name", .text f.name) :: ("parameters", .list (Value.ofJsonItems js))
              :: Value.ofJsonMembers extra)⟩ := by
      rw [Function.check, object_ofJson hwhole]
      rfl
    rw [hparts, hcheck, hkept]
    rfl
  · rw [Function.toJson, hps, ok_bind, extraJson_ofJsonMembers hwritten hextra]
    rfl

/-- The document of an interface describes an interface with this document. -/
theorem ofValue_ofJson {abi : Abi} {j : Json} (hj : abi.toJson = .ok j) (hplain : j.Plain) :
    ∃ abi', ofValue (.ofJson j) = .ok abi' ∧ abi'.toJson = .ok j := by
  obtain ⟨js, hjs, hj⟩ := bind_eq_ok.mp hj
  obtain ⟨extra, hwritten, hj⟩ := bind_eq_ok.mp hj
  cases hj
  obtain ⟨hnames, hwhole, -, hitems, hextra⟩ := hplain
  have hkept := @extraOf_ofJsonMembers "hash" "functions" (.text abi.hash)
    (.list (Value.ofJsonItems js)) _ hnames
  obtain ⟨fs, hcheck, hfs⟩ := Function.returns.all hjs hitems [.name "functions"] 0
  refine ⟨⟨abi.hash, fs, Value.ofJsonMembers extra⟩, ?_, ?_⟩
  · have hparts : ofValue (.ofJson (.obj (("hash", .str abi.hash) :: ("functions", .arr js)
        :: extra))) =
        ((Checked.both (.ok abi.hash) (Checked.all (fun i => Function.check
          ([.name "functions"] ++ [.index i])) 0 (Value.ofJsonItems js))).map
          fun p => (⟨p.1, p.2, extraOf ["hash", "functions"]
            (("hash", .text abi.hash) :: ("functions", .list (Value.ofJsonItems js))
              :: Value.ofJsonMembers extra)⟩ : Abi)).mapError
          fun vs => .abi (.invalid vs) := by
      rw [Value.ofJson, ofValue, ofMembers, Abi.check, named_ofJsonMembers hwhole]
      rfl
    rw [hparts, hcheck, hkept]
    rfl
  · rw [toJson, hfs, ok_bind, extraJson_ofJsonMembers hwritten hextra]
    rfl

theorem plain_toJson {abi : Abi} {j : Json} (h : abi.toValue.Distinct) (hj : abi.toJson = .ok j) :
    j.Plain :=
  Value.plain_toJson abi.toValue h ((toJson_eq (keptWithin_of_toJson hj) le_rfl).symm.trans hj)

/-- The levels that the document of any interface takes: those of a kept value, and those of the
interface, a function and a parameter around it. -/
def documentLevels : ℕ := nestingLimit + 5

theorem nesting_toJson_le {abi : Abi} {j : Json} (h : abi.toJson = .ok j) :
    j.nesting ≤ documentLevels := by
  have hvalue := (toJson_eq (keptWithin_of_toJson h) le_rfl).symm.trans h
  exact (Value.nesting_le_depth j).trans (Value.le_of_toJson abi.toValue hvalue).2

theorem extraJson_joinedMembers {members : List (Text × Value)} {extra : List (Text × Json)}
    (h : extraJson members = .ok extra) (hplain : Json.PlainMembers extra) :
    extraJson (Value.ofJsonMembers (Json.joinedMembers extra)) =
      .ok (Json.joinedMembers extra) := by
  have hwhole := Json.isWhole_joinedMembers (Value.isWhole_of_toJsonMembers h)
  have hdepth := (Json.depthMembers_joinedMembers extra).trans_le (Value.le_of_toJsonMembers _ h).2
  exact Value.toJsonMembers_ofJsonMembers _ hwhole
    (Json.plainMembers_joinedMembers extra hplain) hdepth

/-- What is written of parameters, functions or interfaces is also written of others when joined. -/
def Joins {α : Type} (write : α → Except Failure Json) : Prop :=
  ∀ x j, write x = .ok j → j.Plain → ∃ y, write y = .ok j.joined

theorem Joins.mapM {α : Type} {write : α → Except Failure Json} (h : Joins write) {xs : List α}
    {js : List Json} (hjs : xs.mapM write = .ok js) (hplain : Json.PlainItems js) :
    ∃ ys : List α, ys.mapM write = .ok (Json.joinedItems js) := by
  induction xs generalizing js with
  | nil =>
    cases hjs
    exact ⟨[], rfl⟩
  | cons x xs ih =>
    rw [List.mapM_cons] at hjs
    obtain ⟨j, hj, hjs⟩ := bind_eq_ok.mp hjs
    obtain ⟨rest, hrest, hjs⟩ := bind_eq_ok.mp hjs
    cases hjs
    obtain ⟨y, hy⟩ := h x j hj hplain.1
    obtain ⟨ys, hys⟩ := ih hrest hplain.2
    refine ⟨y :: ys, ?_⟩
    rw [List.mapM_cons, hy, hys]
    rfl

theorem Parameter.joins : Joins Parameter.toJson := by
  intro p j hj hplain
  obtain ⟨extra, hwritten, hj⟩ := bind_eq_ok.mp hj
  cases hj
  obtain ⟨-, -, -, -, hextra⟩ := hplain
  refine ⟨⟨Json.joinText p.name, Json.joinText p.type,
    Value.ofJsonMembers (Json.joinedMembers extra)⟩, ?_⟩
  rw [Parameter.toJson, extraJson_joinedMembers hwritten hextra]
  rfl

theorem Function.joins : Joins Function.toJson := by
  intro f j hj hplain
  obtain ⟨js, hjs, hj⟩ := bind_eq_ok.mp hj
  obtain ⟨extra, hwritten, hj⟩ := bind_eq_ok.mp hj
  cases hj
  obtain ⟨-, -, -, hitems, hextra⟩ := hplain
  obtain ⟨ps, hps⟩ := Parameter.joins.mapM hjs hitems
  refine ⟨⟨Json.joinText f.name, ps, Value.ofJsonMembers (Json.joinedMembers extra)⟩, ?_⟩
  rw [Function.toJson, hps, ok_bind, extraJson_joinedMembers hwritten hextra]
  rfl

theorem joins : Joins toJson := by
  intro abi j hj hplain
  obtain ⟨js, hjs, hj⟩ := bind_eq_ok.mp hj
  obtain ⟨extra, hwritten, hj⟩ := bind_eq_ok.mp hj
  cases hj
  obtain ⟨-, -, -, hitems, hextra⟩ := hplain
  obtain ⟨fs, hfs⟩ := Function.joins.mapM hjs hitems
  refine ⟨⟨Json.joinText abi.hash, fs, Value.ofJsonMembers (Json.joinedMembers extra)⟩, ?_⟩
  rw [toJson, hfs, ok_bind, extraJson_joinedMembers hwritten hextra]
  rfl

/-- The text of an interface, in any style, is read as an interface with the same document, joined,
whatever the interface has been made of. -/
theorem ofText_render {levels : ℕ} {v : Value} {abi : Abi} {style : Json.Style} {text : String}
    (hv : v.Distinct) (habi : parse levels v = .ok abi) (htext : abi.render style = .ok text) :
    ∃ document, abi.toJson = .ok document ∧ ∀ levels' ≥ documentLevels,
      ∃ again, ofText levels' text = .ok again ∧ again.toJson = .ok document.joined := by
  obtain ⟨document, hdocument, htext⟩ := bind_eq_ok.mp htext
  have hplain := plain_toJson (distinct_parse hv habi) hdocument
  obtain ⟨joint, hjoint⟩ := joins abi document hdocument hplain
  obtain ⟨again, hagain, hsame⟩ := ofValue_ofJson hjoint (Json.plain_joined document hplain)
  unfold renderJson at htext
  split at htext
  · cases htext
  · rename_i hlong
    cases htext
    refine ⟨document, hdocument, fun levels' hlevels => ⟨again, ?_, hsame⟩⟩
    have hparse := Json.parse_render hplain (Bool.eq_false_of_not_eq_true hlong)
      ((nesting_toJson_le hdocument).trans hlevels) style
    rw [ofText, hparse]
    exact hagain

/-- Levels that suffice for a text all read the same. -/
theorem ofText_congr {levels levels' : ℕ} {t : Text} (h : ¬ Json.GoesDeeper levels t.points)
    (h' : ¬ Json.GoesDeeper levels' t.points) : ofText levels t = ofText levels' t := by
  rw [ofText_eq, ofText_eq]
  cases hpoints : (Raw.text t).points with
  | error e => rfl
  | ok ps =>
    obtain rfl : t.points = ps := Raw.points_text hpoints
    change ofRead _ _ = ofRead _ _
    rw [Json.parsePoints_of_not_goesDeeper h, Json.parsePoints_of_not_goesDeeper h']

theorem not_goesDeeper_of_ofText {levels : ℕ} {t : Text} {abi : Abi}
    (h : ofText levels t = .ok abi) : ¬ Json.GoesDeeper levels t.points := by
  intro hdeep
  obtain ⟨c, hc⟩ := Json.exists_parsePoints_eq_tooDeep_iff.mpr hdeep
  rw [ofText_eq] at h
  obtain ⟨ps, hpoints, h⟩ := bind_eq_ok.mp h
  obtain rfl : t.points = ps := Raw.points_text (mapError_eq_ok.mp hpoints)
  rw [hc] at h
  cases h

def ReadsBack (levels : ℕ) (abi : Abi) (text : String) : Prop :=
  ∃ document again, abi.toJson = .ok document ∧ ofText levels text = .ok again ∧
    again.toJson = .ok document

/-- The text of an interface is read as one with the same document just if the levels suffice and no
text in the document has a high surrogate with a low one right behind it. If the levels suffice, as
some number of them always does, it is read as one whose document has such halves joined. -/
theorem readsBack_iff {levels levels' : ℕ} {v : Value} {abi : Abi} {style : Json.Style}
    {text : String} (hv : v.Distinct) (habi : parse levels v = .ok abi)
    (htext : abi.render style = .ok text) :
    ∃ document, abi.toJson = .ok document ∧
      (ReadsBack levels' abi text ↔
        ¬ Json.GoesDeeper levels' (Text.whole text).points ∧ ¬ document.HasPair) ∧
      (¬ Json.GoesDeeper levels' (Text.whole text).points →
        ∃ again, ofText levels' text = .ok again ∧ again.toJson = .ok document.joined) ∧
      (documentLevels ≤ levels' → ¬ Json.GoesDeeper levels' (Text.whole text).points) := by
  obtain ⟨document, hdocument, hreads⟩ := ofText_render hv habi htext
  have hagain (hlevels : ¬ Json.GoesDeeper levels' (Text.whole text).points) :
      ∃ again, ofText levels' text = .ok again ∧ again.toJson = .ok document.joined := by
    obtain ⟨again, hread, hjoined⟩ := hreads documentLevels le_rfl
    exact ⟨again, (ofText_congr hlevels (not_goesDeeper_of_ofText hread)).trans hread, hjoined⟩
  refine ⟨document, hdocument, ⟨?_, ?_⟩, hagain, fun hlevels => ?_⟩
  · rintro ⟨document', again, hdocument', hread, hsame⟩
    have hlevels := not_goesDeeper_of_ofText hread
    obtain ⟨again', hread', hjoined⟩ := hagain hlevels
    cases hread.symm.trans hread'
    cases hdocument.symm.trans hdocument'
    have heq : document.joined = document := Except.ok.inj (hjoined.symm.trans hsame)
    exact ⟨hlevels, document.joined_eq_iff.mp heq⟩
  · rintro ⟨hlevels, hpair⟩
    obtain ⟨again, hread, hjoined⟩ := hagain hlevels
    rw [document.joined_eq_iff.mpr hpair] at hjoined
    exact ⟨document, again, hdocument, hread, hjoined⟩
  · obtain ⟨again, hread, -⟩ := hreads levels' hlevels
    exact not_goesDeeper_of_ofText hread

/-- Members without a meaning at every level: numbers of either sign, with a fraction and undefined,
texts with marks, a control character and a character of two units, a text longer than a line,
bytes, and empty containers. -/
def mixedDocument : Value :=
  .dict
    [ ("origin", .dict [("empty", .dict []), ("none", .list []), ("flags", .tuple [.bool true])]),
      ("hash", .text "0xAB\t\"'\\é😀"),
      ("note", .text ("one two three four five six seven eight nine ten eleven twelve\n"
        ++ "don't stop at thirteen, go on with fourteen, fifteen, sixteen, seventeen, eighteen, "
        ++ "nineteen and twenty")),
      ("functions", .tuple
        [ .dict
            [ ("name", .blob .fixed [0x63, 0xc3, 0xa9]), ("payable", .bool false),
              ("parameters", .list
                [ .dict
                    [ ("type", .text "Integer"), ("name", .text "amount"),
                      ("limits", .list [.int (-128), .float ⟨0x3fb999999999999a⟩,
                        .float ⟨0x7ff8000000000000⟩, .null]) ] ]) ] ]) ]

theorem distinct_mixedDocument : mixedDocument.Distinct := by
  simp [mixedDocument, Value.Distinct, Value.DistinctItems, Value.DistinctMembers]

theorem readsBack_iff_mixed :
    ∃ abi text, parse 300 mixedDocument = .ok abi ∧ abi.render (.lines 2) = .ok text ∧
      ReadsBack 300 abi text := by
  have hrendered : (parse 300 mixedDocument >>= render (.lines 2)).isOk := by decide +kernel
  obtain ⟨text, htext⟩ := exists_eq_ok hrendered
  obtain ⟨abi, habi, htext⟩ := bind_eq_ok.mp htext
  obtain ⟨document, hdocument, hreads, -, hlevels⟩ :=
    @readsBack_iff 300 300 _ _ _ _ distinct_mixedDocument habi htext
  refine ⟨abi, text, habi, htext, hreads.mpr ⟨hlevels (by decide), ?_⟩⟩
  have hsingle : (parse 300 mixedDocument >>= toJson).toOption.all
      (fun document => ¬ document.HasPair) := by decide +kernel
  rw [habi, ok_bind, hdocument] at hsingle
  exact of_decide_eq_true hsingle

/-- The bytes of an interface with the halves of a character side by side in a kept text. -/
def halves : Bytes :=
  Text.encodeUtf8 "\x7b\"hash\":\"00\",\"functions\":[],\"x\":\"" ++
    [0xed, 0xa0, 0xbd, 0xed, 0xb8, 0x80] ++ Text.encodeUtf8 "\"\x7d"

/-- The halves come back as the character, and the documents differ. -/
theorem not_readsBack_halves :
    ∃ abi text, parse 300 (.blob .fixed halves) = .ok abi ∧ abi.render .line = .ok text ∧
      ¬ ReadsBack 300 abi text := by
  have hrendered : (parse 300 (.blob .fixed halves) >>= render .line).isOk := by decide +kernel
  have hdistinct : (Value.blob .fixed halves).Distinct := trivial
  obtain ⟨text, htext⟩ := exists_eq_ok hrendered
  obtain ⟨abi, habi, htext⟩ := bind_eq_ok.mp htext
  obtain ⟨document, hdocument, hreads, -⟩ := @readsBack_iff 300 300 _ _ _ _ hdistinct habi htext
  have hpair : (parse 300 (.blob .fixed halves) >>= toJson).toOption.any
      (fun document => document.HasPair) := by decide +kernel
  rw [habi, ok_bind, hdocument] at hpair
  exact ⟨abi, text, habi, htext, fun hback => (hreads.mp hback).2 (of_decide_eq_true hpair)⟩

end Abi

end Bindery
