import Bindery.Proofs.DocumentValue
import Bindery.Proofs.GeneratedFiles
import Bindery.Proofs.RawInput

/-!
# One document, handed over in any way

An interface can be handed over as the decoded object, as its text and as its encoded text, with or
without a byte-order mark. As long as the reader can read the text at all it comes to the decoded
object, so the interface is the same, and what a file is generated from does not depend on the
encoding of the input.
-/

namespace Bindery

namespace Abi

/-- The ways in which the document `ms` with the text `t` can be handed over. -/
inductive Hands (t : String) (ms : List (Text × Json)) : Value → Prop
  | object : Hands t ms (.dict (Value.ofJsonMembers ms))
  | text : Hands t ms (.text t)
  | encoded (codec : Text.Codec) {form : BlobForm} (h : form ≠ .view) :
      Hands t ms (.blob form (Text.encode codec t.toList))
  | marked (codec : Text.Codec) {form : BlobForm} (h : form ≠ .view) :
      Hands t ms (.blob form (Text.encode codec (Text.byteOrderMark :: t.toList)))

/-- All ways give one interface, or all refuse the document as none. -/
inductive Agree (levels : ℕ) (t : String) (ms : List (Text × Json)) : Prop
  | read {abi : Abi} (h : ∀ v, Hands t ms v → parse levels v = .ok abi)
  | refused (h : ∀ v, Hands t ms v → ∃ e, parse levels v = .error (.abi e))

variable {levels : ℕ} {t : String} {ms : List (Text × Json)} {v : Value}

theorem raw?_blob {form : BlobForm} (h : form ≠ .view) (data : Bytes) :
    raw? (.blob form data) = some (.bytes data) := by
  cases form with
  | view => exact absurd rfl h
  | _ => rfl

/-- However a document is handed over, the reader is given its text. -/
theorem Hands.points (hdenotes : Json.Denotes (Text.whole t).points (.obj ms)) (h : Hands t ms v) :
    v = .dict (Value.ofJsonMembers ms) ∨
      ∃ r, raw? v = some r ∧ r.points = .ok (Text.whole t).points := by
  obtain ⟨c, d, rest, hstart, hc, hd⟩ := Json.exists_isBasic_of_denotes hdenotes
  have htext : t.toList = c :: d :: rest.map CodePoint.shown := by
    rw [← CodePoint.map_shown_map_char t.toList, ← Text.points_whole, hstart]
    rfl
  cases h with
  | object => exact .inl rfl
  | text =>
    refine .inr ⟨.text t, rfl, unmarked_eq fun rest' hmark => ?_⟩
    obtain ⟨hc', -⟩ := List.cons_eq_cons.mp (hstart.symm.trans hmark)
    rw [CodePoint.char.inj hc'] at hc
    exact absurd hc (by decide)
  | encoded codec hform =>
    have hdecode := @Text.decode_encode codec c d (rest.map CodePoint.shown) hc hd
    refine .inr ⟨_, raw?_blob hform _, ?_⟩
    rw [Raw.points, htext, hdecode, Text.points_whole, htext]
    rfl
  | marked codec hform =>
    have hdecode := @Text.decode_encode_mark codec c (d :: rest.map CodePoint.shown) hc
    refine .inr ⟨_, raw?_blob hform _, ?_⟩
    rw [Raw.points, htext, hdecode, Text.points_whole, htext]
    rfl

/-- What can be read at all is read as the object that the text is. -/
theorem Hands.parse_eq (hdenotes : Json.Denotes (Text.whole t).points (.obj ms))
    (hlong : ∀ n, ¬ Json.MeetsLongInteger (Text.whole t).points n)
    (hlevels : ¬ Json.GoesDeeper levels (Text.whole t).points) (h : Hands t ms v) :
    parse levels v = parse levels (.dict (Value.ofJsonMembers ms)) := by
  rcases h.points hdenotes with rfl | ⟨r, hraw, hpoints⟩
  · rfl
  have hread : Json.parsePoints levels (Text.whole t).points = .ok (.obj ms) := by
    rw [Json.parsePoints_of_not_goesDeeper hlevels]
    rcases Json.parseFreely_of_denotes hdenotes with hread | ⟨n, hstop⟩
    · exact hread
    · exact absurd (Json.parseFreely_eq_longInteger.mp hstop) (hlong n)
  rw [parse_of_points hraw hpoints, hread]
  rfl

/-- All ways of handing over a document agree just when the reader comes to no integer that is too
long and its levels suffice. -/
theorem agree_iff (hdenotes : Json.Denotes (Text.whole t).points (.obj ms)) :
    Agree levels t ms ↔
      (∀ n, ¬ Json.MeetsLongInteger (Text.whole t).points n) ∧
        ¬ Json.GoesDeeper levels (Text.whole t).points := by
  constructor
  · intro h
    have htext : Hands t ms (.text t) := .text
    have htyped : EndsTyped levels (.text t) := by
      rcases h with ⟨h⟩ | h
      · exact .read (h _ htext)
      · obtain ⟨e, he⟩ := h _ htext
        exact .refused he
    rcases htext.points hdenotes with heq | ⟨r, hraw, hpoints⟩
    · cases heq
    · exact (endsTyped_of_points hraw hpoints).mp htyped
  · rintro ⟨hlong, hlevels⟩
    have hall (v : Value) (hv : Hands t ms v) :
        parse levels v = ofValue (.dict (Value.ofJsonMembers ms)) :=
      hv.parse_eq hdenotes hlong hlevels
    rcases ofValue_typed (.dict (Value.ofJsonMembers ms)) with ⟨abi, habi⟩ | ⟨e, he⟩
    · exact .read fun v hv => (hall v hv).trans habi
    · exact .refused fun v hv => ⟨e, (hall v hv).trans he⟩

end Abi

namespace Binding

def Holds (levels : ℕ) (u : FileTree) (out input : Path) (document : Value) : Prop :=
  ∃ abi text, Abi.parse levels document = .ok abi ∧ source input.stem runtimeModule abi = .ok text ∧
    u.file? (targetOf out input) = some (Text.encodeUtf8 text)

/-- What a generation that succeeds has made of an input, it would have made of the document. -/
theorem Bound.holds {levels : ℕ} {tree u : FileTree} {out input : Path} {content : Bytes}
    {t : String} {ms : List (Text × Json)} (h : Bound levels tree u out input)
    (hcontent : tree.file? input = some content)
    (hdenotes : Json.Denotes (Text.whole t).points (.obj ms))
    (hhands : Abi.Hands t ms (.blob .fixed content)) :
    Holds levels u out input (.dict (Value.ofJsonMembers ms)) := by
  obtain ⟨_, abi, text, hfile, habi, htext, htarget⟩ := h
  cases hcontent.symm.trans hfile
  rcases hhands.points hdenotes with heq | ⟨r, hraw, hpoints⟩
  · cases heq
  obtain ⟨hlong, hlevels⟩ := (Abi.endsTyped_of_points hraw hpoints).mp (.read habi)
  exact ⟨abi, text, (hhands.parse_eq hdenotes hlong hlevels).symm.trans habi, htext, htarget⟩

/-- All ways of handing over a document agree just when the reader comes to no integer that is too
long and its levels suffice. A generation that succeeds makes of every input in which the document
is encoded the binding for the decoded object. -/
theorem agree_iff_and_holds {levels : ℕ} {t : String} {ms : List (Text × Json)}
    (hdenotes : Json.Denotes (Text.whole t).points (.obj ms)) :
    (Abi.Agree levels t ms ↔
      (∀ n, ¬ Json.MeetsLongInteger (Text.whole t).points n) ∧
        ¬ Json.GoesDeeper levels (Text.whole t).points) ∧
    ∀ (tree : FileTree) (pattern folder : Option String) (force : Bool) (paths : List Path)
      (w : Workspace), (generate levels pattern folder force).run tree = (.ok paths, w) →
        ∃ out inputs, folder = some out ∧ Glob.files tree (pattern.getD "") = .ok inputs ∧
          ∀ input ∈ inputs, ∀ content, tree.file? input = some content →
            Abi.Hands t ms (.blob .fixed content) →
              Holds levels w.tree (.ofText out) input (.dict (Value.ofJsonMembers ms)) := by
  refine ⟨Abi.agree_iff hdenotes, fun tree pattern folder force paths w hrun => ?_⟩
  obtain ⟨out, inputs, hfolder, hinputs, -, hleaves⟩ := leaves_of_generate hrun
  refine ⟨out, inputs, hfolder, hinputs, fun input hinput content hcontent hhands => ?_⟩
  exact (hleaves.bindings input hinput).holds hcontent hdenotes hhands

/-- The text of an interface, in sixteen-bit units behind a mark. -/
def wideInput : FileTree :=
  ⟨[(["T.json"], .file (Text.encode .utf16LE (Text.byteOrderMark :: Abi.nested.toList)))], []⟩

theorem agree_iff_and_holds_nested :
    ∃ ms, Json.Denotes (Text.whole Abi.nested).points (.obj ms) ∧ Abi.Agree 3 Abi.nested ms ∧
      ∃ paths w, (generate 3 (some "T.json") (some "out") false).run wideInput = (.ok paths, w) ∧
        Holds 3 w.tree (.ofText "out") (.ofText "T.json") (.dict (Value.ofJsonMembers ms)) := by
  have hobject : (Json.objectOf? (Text.whole Abi.nested).points).isSome := by decide +kernel
  obtain ⟨ms, hms⟩ := Option.isSome_iff_exists.mp hobject
  have hdenotes := Json.denotes_of_objectOf? hms
  have hok : ((generate 3 (some "T.json") (some "out") false).run wideInput).1.isOk := by
    decide +kernel
  have hfiles : Glob.files wideInput "T.json" = .ok [.ofText "T.json"] := by decide +kernel
  have hread : (Json.parsePoints 3 (Text.whole Abi.nested).points).isOk := by decide +kernel
  obtain ⟨paths, hpaths⟩ := exists_eq_ok hok
  obtain ⟨hagree, hgenerate⟩ := @agree_iff_and_holds 3 Abi.nested ms hdenotes
  have hlevels : ¬ Json.GoesDeeper 3 (Text.whole Abi.nested).points := by
    rw [← Json.exists_parsePoints_eq_tooDeep_iff]
    rintro ⟨c, hc⟩
    rw [hc] at hread
    cases hread
  refine ⟨ms, hdenotes, hagree.mpr ⟨fun n hlong => ?_, hlevels⟩, paths, _, Prod.ext hpaths rfl, ?_⟩
  · rw [Json.parsePoints_eq_longInteger_iff.mpr ⟨hlong, hlevels⟩] at hread
    cases hread
  · obtain ⟨out, inputs, hfolder, hinputs, hholds⟩ :=
      hgenerate wideInput _ _ _ paths _ (Prod.ext hpaths rfl)
    cases hfolder
    cases hfiles.symm.trans hinputs
    exact hholds _ List.mem_cons_self _ rfl (.marked .utf16LE nofun)

end Binding

namespace Abi

set_option maxRecDepth 20000 in
/-- The decoded object with an integer of 4301 digits is an interface; its text is neither read nor
refused as none. -/
theorem not_agree_longNumber :
    ∃ ms, Json.Denotes (longNumber.map .char) (.obj ms) ∧
      (parse 0 (.dict (Value.ofJsonMembers ms))).isOk ∧
      ¬ ∃ levels, Agree levels (String.ofList longNumber) ms := by
  have hobject : (Json.objectOf? (longNumber.map .char)).any fun ms =>
      (parse 0 (.dict (Value.ofJsonMembers ms))).isOk := by decide +kernel
  obtain ⟨ms, hms, hok⟩ : ∃ ms, Json.objectOf? (longNumber.map .char) = some ms ∧
      (parse 0 (.dict (Value.ofJsonMembers ms))).isOk := by
    cases hms : Json.objectOf? (longNumber.map .char) with
    | none =>
      rw [hms] at hobject
      cases hobject
    | some ms =>
      rw [hms] at hobject
      exact ⟨ms, rfl, hobject⟩
  have hdenotes := Json.denotes_of_objectOf? hms
  refine ⟨ms, hdenotes, hok, ?_⟩
  rintro ⟨levels, h⟩
  have hpoints : (Text.whole (String.ofList longNumber)).points = longNumber.map .char := by
    rw [Text.points_whole, String.toList_ofList]
  rw [← hpoints] at hdenotes
  have hlong := ((agree_iff hdenotes).mp h).1 4301
  rw [hpoints] at hlong
  exact hlong meetsLongInteger_longNumber

end Abi

end Bindery
