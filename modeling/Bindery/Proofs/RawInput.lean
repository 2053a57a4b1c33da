import Bindery.Abi.Check
import Bindery.Proofs.NestingLevels

/-!
# Interfaces from raw input

An interface is read from a text or from encoded text. Whatever stands in it, there are two ways in
which the reader fails other than by saying that the input is no interface: it comes to an integer
of more digits than are read, or it runs out of levels for the containers that it has open.
-/

namespace Bindery.Abi

inductive Raw
  | text (t : Text)
  | bytes (data : Bytes)

def raw? : Value → Option Raw
  | .text t => some (.text t)
  | .kind k => some (.text k.typeName)
  | .blob .fixed data | .blob .mutable data => some (.bytes data)
  | _ => none

def unmarked : List CodePoint → Except AbiError (List CodePoint)
  | .char '\ufeff' :: _ => .error (.malformed ⟨.byteOrderMark, 1, 1, 0⟩)
  | ps => .ok ps

/-- The code points that the reader of documents is given, or why the input is refused before. -/
def Raw.points : Raw → Except AbiError (List CodePoint)
  | .text t => unmarked t.points
  | .bytes data => (Text.decode data).mapError .undecodable

def ofRead (ps : List CodePoint) (r : Except Json.ReadError Json) : Except Failure Abi := do
  let j ← r.mapError fun e => documentFailure (Json.diagnose ps e)
  ofValue (.ofJson j)

/-- How the reading of an interface ends when it fails in no way but the declared one. -/
inductive EndsTyped (levels : ℕ) (v : Value) : Prop
  | read {abi : Abi} (h : parse levels v = .ok abi)
  | refused {e : AbiError} (h : parse levels v = .error (.abi e))

variable {levels : ℕ} {v : Value} {r : Raw} {ps : List CodePoint}

theorem mapError_documentOfPoints (ps : List CodePoint) :
    ((Json.documentOfPoints levels ps).mapError documentFailure >>= fun j => ofValue (.ofJson j)) =
      ofRead ps (Json.parsePoints levels ps) := by
  rw [ofRead, Json.documentOfPoints]
  cases Json.parsePoints levels ps <;> rfl

theorem unmarked_eq (h : ∀ rest, ps ≠ .char '\ufeff' :: rest) : unmarked ps = .ok ps := by
  unfold unmarked
  split
  · exact absurd rfl (h _)
  · rfl

theorem Raw.points_text {t : Text} (h : (Raw.text t).points = .ok ps) : t.points = ps := by
  rw [Raw.points] at h
  unfold unmarked at h
  split at h
  · cases h
  · exact Except.ok.inj h

theorem ofText_eq (t : Text) :
    ofText levels t =
      (Raw.text t).points.mapError .abi >>= fun ps => ofRead ps (Json.parsePoints levels ps) := by
  rw [ofText, Json.parse, Raw.points]
  split
  · rename_i heq
    rw [heq]
    rfl
  · rename_i hmark
    rw [unmarked_eq hmark]
    exact mapError_documentOfPoints t.points

theorem ofBytes_eq (data : Bytes) :
    ofBytes levels data = (Raw.bytes data).points.mapError .abi >>=
      fun ps => ofRead ps (Json.parsePoints levels ps) := by
  rw [ofBytes, Json.parseBytes, Raw.points]
  cases Text.decode data with
  | error e => rfl
  | ok ps => exact mapError_documentOfPoints ps

/-- Raw input is read point by point, once its code points are known. -/
theorem parse_eq_of_raw? (h : raw? v = some r) :
    parse levels v =
      r.points.mapError .abi >>= fun ps => ofRead ps (Json.parsePoints levels ps) := by
  unfold raw? at h
  split at h <;> cases h
  · exact ofText_eq _
  · exact ofText_eq _
  · exact ofBytes_eq _
  · exact ofBytes_eq _

theorem parse_of_points (hraw : raw? v = some r) (hpoints : r.points = .ok ps) :
    parse levels v = ofRead ps (Json.parsePoints levels ps) := by
  rw [parse_eq_of_raw? hraw, hpoints]
  rfl

/-- What is no object and what does not conform is refused as no interface. -/
theorem ofValue_typed (v : Value) :
    (∃ abi, ofValue v = .ok abi) ∨ ∃ e, ofValue v = .error (.abi e) := by
  unfold ofValue
  split
  · rename_i members
    rw [ofMembers]
    cases check members with
    | error vs => exact .inr ⟨.invalid vs, rfl⟩
    | ok abi => exact .inl ⟨abi, rfl⟩
  · exact .inr ⟨_, rfl⟩

/-- Of the failures of the reader of documents two are passed on as they are: the length of an
integer, and levels that do not suffice. -/
theorem ofRead_typed_iff {r : Except Json.ReadError Json} :
    ((∃ abi, ofRead ps r = .ok abi) ∨ ∃ e, ofRead ps r = .error (.abi e)) ↔
      (∀ n, r ≠ .error (.longInteger n)) ∧ ¬ ∃ c, r = .error (.tooDeep c) := by
  cases r with
  | ok j => exact iff_of_true (ofValue_typed _) ⟨nofun, nofun⟩
  | error e =>
    cases e with
    | malformed problem position => exact iff_of_true (.inr ⟨_, rfl⟩) ⟨nofun, nofun⟩
    | longInteger n =>
      refine iff_of_false ?_ fun h => h.1 n rfl
      rintro (⟨abi, h⟩ | ⟨e, h⟩) <;> cases h
    | tooDeep c =>
      refine iff_of_false ?_ fun h => h.2 ⟨c, rfl⟩
      rintro (⟨abi, h⟩ | ⟨e, h⟩) <;> cases h

theorem endsTyped_iff_parse :
    EndsTyped levels v ↔
      (∃ abi, parse levels v = .ok abi) ∨ ∃ e, parse levels v = .error (.abi e) := by
  constructor
  · rintro (h | h)
    · exact .inl ⟨_, h⟩
    · exact .inr ⟨_, h⟩
  · rintro (⟨abi, h⟩ | ⟨e, h⟩)
    · exact .read h
    · exact .refused h

theorem endsTyped_of_refused {e : AbiError} (hraw : raw? v = some r)
    (hpoints : r.points = .error e) : EndsTyped levels v := by
  refine .refused (e := e) ?_
  rw [parse_eq_of_raw? hraw, hpoints]
  rfl

theorem endsTyped_of_points (hraw : raw? v = some r) (hpoints : r.points = .ok ps) :
    EndsTyped levels v ↔ (∀ n, ¬ Json.MeetsLongInteger ps n) ∧ ¬ Json.GoesDeeper levels ps := by
  rw [endsTyped_iff_parse, parse_of_points hraw hpoints, ofRead_typed_iff,
    Json.exists_parsePoints_eq_tooDeep_iff]
  refine and_congr_left fun hdeep => forall_congr' fun n => not_congr ?_
  rw [Json.parsePoints_eq_longInteger_iff, and_iff_left hdeep]

/-- Raw input is read as an interface or refused as none just when the reader comes to no integer
that is too long and its levels suffice. -/
theorem endsTyped_iff (hraw : raw? v = some r) :
    EndsTyped levels v ↔ ∀ ps, r.points = .ok ps →
      (∀ n, ¬ Json.MeetsLongInteger ps n) ∧ ¬ Json.GoesDeeper levels ps := by
  cases hpoints : r.points with
  | error e => exact iff_of_true (endsTyped_of_refused hraw hpoints) nofun
  | ok ps =>
    rw [endsTyped_of_points hraw hpoints]
    simp only [Except.ok.injEq, forall_eq']

def nested : String := "\x7b\"hash\": \"00\", \"functions\": [\x7b\"name\": \"f\"\x7d]\x7d"

theorem endsTyped_iff_nested :
    raw? (.text nested) = some (.text nested) ∧ EndsTyped 3 (.text nested) := by
  refine ⟨rfl, (endsTyped_iff rfl).mpr fun ps hps => ?_⟩
  have hpoints : (Raw.text nested).points = .ok (Text.whole nested).points := rfl
  cases hpoints.symm.trans hps
  constructor
  · intro n hlong
    have hread : (Json.parseFreely (Text.whole nested).points).isOk := by decide +kernel
    rw [Json.parseFreely_eq_longInteger.mpr hlong] at hread
    cases hread
  · intro hdeep
    have hread : (Json.parsePoints 3 (Text.whole nested).points).isOk := by decide +kernel
    obtain ⟨c, hc⟩ := Json.exists_parsePoints_eq_tooDeep_iff.mpr hdeep
    rw [hc] at hread
    cases hread

def longNumber : List Char :=
  "\x7b\"hash\": \"00\", \"functions\": [], \"n\": ".toList ++ List.replicate 4301 '1' ++
    "\x7d".toList

set_option maxRecDepth 20000 in
theorem meetsLongInteger_longNumber :
    Json.MeetsLongInteger (longNumber.map CodePoint.char) 4301 := by
  have hread : (Json.parseFreely (longNumber.map CodePoint.char)).map (fun _ => ()) =
      .error (.longInteger 4301) := by
    decide +kernel
  exact Json.parseFreely_eq_longInteger.mp (map_eq_error.mp hread)

theorem not_endsTyped_longNumber :
    ¬ ∃ levels, EndsTyped levels (.text (String.ofList longNumber)) := by
  rintro ⟨levels, h⟩
  have hpoints : (Raw.text (String.ofList longNumber)).points = .ok (longNumber.map .char) := by
    rw [Raw.points, Text.points_whole, String.toList_ofList]
    rfl
  exact ((endsTyped_of_points rfl hpoints).mp h).1 4301 meetsLongInteger_longNumber

/-- However many levels there are, one bracket more is no interface and is not refused as none. -/
theorem not_endsTyped_brackets (levels : ℕ) :
    ¬ EndsTyped levels (.text (String.ofList (List.replicate (levels + 1) '['))) := by
  intro h
  have hpoints : (Raw.text (String.ofList (List.replicate (levels + 1) '['))).points =
      .ok (List.replicate (levels + 1) (.char '[')) := by
    rw [Raw.points, Text.points_whole, String.toList_ofList, List.map_replicate]
    exact unmarked_eq nofun
  have hdeep := Json.goesDeeper_replicate levels []
  rw [List.append_nil] at hdeep
  exact ((endsTyped_of_points rfl hpoints).mp h).2 hdeep

end Bindery.Abi
