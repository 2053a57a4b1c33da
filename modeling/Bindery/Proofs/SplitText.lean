import Bindery.Text.Split
import Mathlib.Data.List.Basic

/-!
# Parts of a text

No part of a text holds a mark, and what stands behind a mark is split by itself.
-/

namespace Bindery.Text

variable {isMark : Char → Bool}

theorem split_ne_nil (isMark : Char → Bool) (cs : List Char) : split isMark cs ≠ [] := by
  cases cs with
  | nil => exact List.cons_ne_nil [] []
  | cons c cs =>
    unfold split
    split
    · exact List.cons_ne_nil _ _
    · split <;> exact List.cons_ne_nil _ _

theorem split_append_mark {mark : Char} (hmark : isMark mark) (xs ys : List Char) :
    split isMark (xs ++ mark :: ys) = split isMark xs ++ split isMark ys := by
  induction xs with
  | nil => simp [split, hmark]
  | cons c xs ih =>
    rw [List.cons_append, split, split, ih]
    by_cases hc : isMark c
    · rw [if_pos hc, if_pos hc, List.cons_append]
    · rw [if_neg hc, if_neg hc]
      cases hparts : split isMark xs with
      | nil => exact absurd hparts (split_ne_nil isMark xs)
      | cons part parts => rfl

theorem split_of_not_mem {mark : Char} {cs : List Char} (h : mark ∉ cs) :
    split (· = mark) cs = [cs] := by
  induction cs with
  | nil => rfl
  | cons c cs ih =>
    obtain ⟨hc, hcs⟩ := List.ne_and_not_mem_of_not_mem_cons h
    rw [split, ih hcs]
    simp [Ne.symm hc]

theorem not_isMark_of_mem_split {cs part : List Char} (h : part ∈ split isMark cs) {c : Char}
    (hc : c ∈ part) : ¬ isMark c := by
  induction cs generalizing part with
  | nil =>
    obtain rfl := List.mem_singleton.mp h
    cases hc
  | cons d cs ih =>
    rw [split] at h
    by_cases hd : isMark d
    · rw [if_pos hd] at h
      rcases List.mem_cons.mp h with rfl | h
      · cases hc
      · exact ih h hc
    rw [if_neg hd] at h
    cases hparts : split isMark cs with
    | nil => exact absurd hparts (split_ne_nil isMark cs)
    | cons first parts =>
      rw [hparts] at h ih
      rcases List.mem_cons.mp h with rfl | h
      · rcases List.mem_cons.mp hc with rfl | hc
        · exact hd
        · exact ih List.mem_cons_self hc
      · exact ih (List.mem_cons_of_mem _ h) hc

end Bindery.Text
