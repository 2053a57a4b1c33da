import Bindery.Contract.Call
import Bindery.Proofs.CodePoints
import Bindery.Proofs.Results

/-!
# Conversions

What a caller gives as a text, an address, a number or an argument is converted or is refused as
what cannot be converted. `Converts` holds of a result that is no other failure; the steps that turn
given values into bytes, addresses, numbers and data all have such results.
-/

namespace Bindery

def Failure.IsConversion (e : Failure) : Prop := ∃ cause, e = .conversion cause

abbrev Converts {α : Type} (r : Except Failure α) : Prop := OnlyFails Failure.IsConversion r

theorem converts_error {α : Type} (cause : ConversionError) :
    Converts (.error (.conversion cause) : Except Failure α) := onlyFails_error ⟨cause, rfl⟩

theorem Converts.not_failsWith {α : Type} {r : Except Failure α} {p : Failure → Prop}
    (h : Converts r) (hconversion : ∀ cause, ¬ p (.conversion cause)) : ¬ FailsWith p r := by
  rintro ⟨e, he, hp⟩
  obtain ⟨cause, rfl⟩ := h e he
  exact hconversion cause hp

/-- A text can always be shown. -/
theorem withLiteral_of_text {α : Type} {v : Value} {t : Text} (h : v.text? = some t)
    (k : String → Except Failure α) : withLiteral v k = k (String.ofList v.literal) := by
  cases v <;> cases h <;> rfl

/-- Only a text gives bytes, and only one that can be encoded. -/
theorem hexBytes_eq_ok_iff {v : Value} {b : Bytes} :
    hexBytes v = .ok b ↔ ∃ s, v.text? = some (.whole s) ∧ Hex.decode? s = some b := by
  have hread : (v.text?.bind Text.whole?).bind Hex.decode? = some b ↔
      ∃ s, v.text? = some (.whole s) ∧ Hex.decode? s = some b := by
    simp [Option.bind_eq_some_iff, Text.whole?_eq_some_iff]
  rw [← hread, hexBytes]
  cases (v.text?.bind Text.whole?).bind Hex.decode? with
  | some data => simp
  | none =>
    refine iff_of_false (fun h => ?_) nofun
    dsimp only [withLiteral] at h
    split at h <;> cases h

theorem converts_hexBytes {v : Value} {t : Text} (h : v.text? = some t) :
    Converts (hexBytes v) := by
  unfold hexBytes
  split
  · exact onlyFails_ok _
  · rw [withLiteral_of_text h]
    exact converts_error _

theorem converts_ofBytes (b : Bytes) : Converts (Address.ofBytes b) := by
  unfold Address.ofBytes
  split
  · exact onlyFails_ok _
  · exact converts_error _

theorem converts_parse (t : Text) : Converts (Address.parse (.text t)) := by
  simp only [Address.parse, Value.text?]
  split
  · exact (converts_hexBytes rfl).bind fun b _ => converts_ofBytes b
  · split
    · exact onlyFails_ok _
    · rw [withLiteral_of_text rfl]
      exact converts_error _

/-- The text of a gas value is a number of 64 bits or is refused as what cannot be converted. -/
theorem converts_gasNumber (gas : Gas) (t : Text) : Converts (gasNumber gas (.text t)) := by
  unfold gasNumber
  split
  · rename_i e he
    simp only [Value.toInteger, Value.toInteger.ofOption] at he
    split at he <;> cases he
  · rw [withLiteral_of_text rfl]
    exact converts_error _
  · split
    · exact onlyFails_ok _
    · rw [withLiteral_of_text rfl]
      exact converts_error _

end Bindery
