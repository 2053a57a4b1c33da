import Bindery.Text.CodePoint
import Mathlib.Data.List.Basic

/-!
# Texts as code points

A text is known by its code points, and every run of code points is a text. A text of characters is
the run of these characters.
-/

namespace Bindery

namespace CodePoint

@[simp] theorem all_isChar_map (cs : List Char) : (cs.map char).all isChar = true := by
  simp [isChar]

@[simp] theorem map_shown_map_char (cs : List Char) : (cs.map char).map shown = cs := by
  simp [Function.comp_def, shown]

theorem map_char_map_shown {ps : List CodePoint} (h : ps.all isChar = true) :
    (ps.map shown).map char = ps := by
  induction ps with
  | nil => rfl
  | cons p ps ih =>
    rw [List.all_cons, Bool.and_eq_true] at h
    cases p with
    | char c => rw [List.map_cons, List.map_cons, ih h.2, shown]
    | surrogate n => cases h.1

theorem ofNat_toNat (c : Char) : ofNat c.toNat = .char c := by
  have hvalid : ¬ isSurrogate c.toNat := by
    have h : c.toNat < 0xd800 ∨ 0xdfff < c.toNat := c.valid.imp id And.left
    simp only [isSurrogate, Bool.and_eq_true, decide_eq_true_eq]
    omega
  rw [ofNat, if_neg hvalid, Char.ofNat_toNat]

theorem ofNat_surrogate (n : Fin 0x800) : ofNat (0xd800 + n) = .surrogate n := by
  have hn := n.isLt
  have hsurrogate : isSurrogate (0xd800 + n) := by
    simp only [isSurrogate, Bool.and_eq_true, decide_eq_true_eq]
    omega
  rw [ofNat, if_pos hsurrogate, Nat.add_sub_cancel_left, Fin.ofNat_val_eq_self]

theorem ofNat_value (p : CodePoint) : ofNat p.value = p := by
  cases p with
  | char c => exact ofNat_toNat c
  | surrogate n => exact ofNat_surrogate n

theorem value_lt (p : CodePoint) : p.value < 0x110000 := by
  cases p with
  | char c =>
    have hvalid := c.valid
    simp only [UInt32.isValidChar, Nat.isValidChar] at hvalid
    simp only [value, Char.toNat]
    omega
  | surrogate n =>
    have hn := n.isLt
    simp only [value]
    omega

end CodePoint

namespace Text

theorem points_whole (s : String) : (whole s).points = s.toList.map .char := rfl

theorem ofPoints_map_char (cs : List Char) :
    ofPoints (cs.map .char) = whole (String.ofList cs) := by
  rw [ofPoints, dif_neg (by rw [CodePoint.all_isChar_map]; decide), CodePoint.map_shown_map_char]

@[simp] theorem points_ofPoints (ps : List CodePoint) : (ofPoints ps).points = ps := by
  unfold ofPoints
  split
  · rfl
  · rename_i h
    rw [points_whole, String.toList_ofList]
    exact CodePoint.map_char_map_shown ((Bool.not_eq_false _).mp h)

@[simp] theorem ofPoints_points (t : Text) : ofPoints t.points = t := by
  cases t with
  | whole s => rw [points_whole, ofPoints_map_char, String.ofList_toList]
  | broken b => exact dif_pos b.broken

theorem whole?_eq_some_iff {t : Text} {s : String} : t.whole? = some s ↔ t = whole s := by
  cases t <;> simp [whole?]

theorem isEmpty_iff {t : Text} : t.isEmpty ↔ t.points = [] := by
  cases t with
  | whole s => rw [isEmpty, String.isEmpty_iff, points_whole, List.map_eq_nil_iff,
      String.toList_eq_nil_iff]
  | broken b =>
    refine iff_of_false Bool.false_ne_true fun hnil => ?_
    have hbroken := b.broken
    rw [show b.points = [] from hnil] at hbroken
    cases hbroken

/-- Where a broken text is shown, its surrogates stand out. -/
theorem replacement_mem_shown (b : Broken) : '\ufffd' ∈ (broken b).shown.toList := by
  have hbroken := b.broken
  rw [List.all_eq_false] at hbroken
  obtain ⟨p, hp, hchar⟩ := hbroken
  rw [shown, String.toList_ofList]
  cases p with
  | char c => exact absurd rfl hchar
  | surrogate n => exact List.mem_map_of_mem (f := CodePoint.shown) hp

theorem points_injective : Function.Injective points :=
  Function.LeftInverse.injective ofPoints_points

end Text

end Bindery
