import Bindery.Proofs.ReadDocuments

/-!
# How deep a document may go

The reader holds a level of its interpreter's stack for every container that it has open, and there
are only so many levels. It gives up where a step opens one container too many, and does as with any
number of levels otherwise. However many levels there are, there is a text that goes deeper.
-/

namespace Bindery.Json

/-- From `s` on, the tokens follow the grammar up to a place where more than `levels` containers are
open. -/
def Deepens (levels : ℕ) (s : State) (ls : List Located) : Prop :=
  ∃ before after s', ls = before ++ after ∧
    before.foldlM (fun (s : State) l => step s.1 s.2 l) s = .ok s' ∧ levels < opened s'.1 s'.2

def GoesDeeper (levels : ℕ) (ps : List CodePoint) : Prop := Deepens levels ([], .value) (tokens ps)

variable {levels length : ℕ} {s s' : State} {l : Located} {ls : List Located}

theorem deepens_nil : Deepens levels s [] ↔ levels < opened s.1 s.2 := by
  constructor
  · rintro ⟨before, after, s', hsplit, hbefore, h⟩
    obtain ⟨rfl, -⟩ := List.append_eq_nil_iff.mp hsplit.symm
    cases hbefore
    exact h
  · exact fun h => ⟨[], [], s, rfl, rfl, h⟩

theorem deepens_cons : Deepens levels s (l :: ls) ↔
    levels < opened s.1 s.2 ∨ ∃ s', step s.1 s.2 l = .ok s' ∧ Deepens levels s' ls := by
  constructor
  · rintro ⟨before, after, s', hsplit, hbefore, h⟩
    cases before with
    | nil =>
      cases hbefore
      exact .inl h
    | cons first before =>
      obtain ⟨rfl, hrest⟩ := List.cons_eq_cons.mp hsplit
      rw [List.foldlM_cons] at hbefore
      obtain ⟨next, hstep, hbefore⟩ := bind_eq_ok.mp hbefore
      exact .inr ⟨next, hstep, before, after, s', hrest, hbefore, h⟩
  · rintro (h | ⟨next, hstep, before, after, s', rfl, hbefore, h⟩)
    · exact ⟨[], l :: ls, s, rfl, rfl, h⟩
    · refine ⟨l :: before, after, s', rfl, ?_, h⟩
      rwa [List.foldlM_cons, hstep]

/-- Within its levels the machine does as with any number of them. -/
theorem run_of_not_deepens (h : ¬ Deepens levels s ls) :
    run levels length s.1 s.2 ls = runFreely length s ls := by
  induction ls generalizing s with
  | nil => rfl
  | cons l rest ih =>
    rw [deepens_cons, not_or] at h
    rw [run, runFreely]
    cases hstep : step s.1 s.2 l with
    | error e => rfl
    | ok next =>
      have hnext : ¬ Deepens levels next rest := fun hdeep => h.2 ⟨next, hstep, hdeep⟩
      have hopen : ¬ levels < opened next.1 next.2 :=
        fun hlt => hnext ⟨[], rest, next, rfl, rfl, hlt⟩
      dsimp only
      rw [if_neg hopen]
      exact ih hnext

theorem run_of_deepens (hs : opened s.1 s.2 ≤ levels) (h : Deepens levels s ls) :
    ∃ c, run levels length s.1 s.2 ls = .error (.tooDeep c) := by
  induction ls generalizing s with
  | nil => exact absurd (deepens_nil.mp h) (Nat.not_lt.mpr hs)
  | cons l rest ih =>
    rcases deepens_cons.mp h with h | ⟨next, hstep, hnext⟩
    · exact absurd h (Nat.not_lt.mpr hs)
    rw [run, hstep]
    dsimp only
    by_cases hopen : levels < opened next.1 next.2
    · rw [if_pos hopen]
      exact ⟨_, rfl⟩
    · rw [if_neg hopen]
      exact ih (Nat.not_lt.mp hopen) hnext

theorem startValue_ne_tooDeep {stack : List Frame} {c : Container} :
    startValue stack l ≠ .error (.tooDeep c) := by
  unfold startValue
  split
  case h_2 => split <;> nofun
  all_goals nofun

theorem startName_ne_tooDeep {done : List (Text × Json)} {c : Container} :
    startName done l ≠ .error (.tooDeep c) := by
  unfold startName
  split <;> nofun

/-- No step by itself runs out of levels. -/
theorem step_ne_tooDeep {c : Container} : step s.1 s.2 l ≠ .error (.tooDeep c) := by
  intro h
  unfold step at h
  split at h
  case h_2 => exact startValue_ne_tooDeep h
  case h_3 => exact startValue_ne_tooDeep h
  case h_5 => exact startName_ne_tooDeep (map_eq_error.mp h)
  case h_6 => exact startName_ne_tooDeep (map_eq_error.mp h)
  all_goals cases h

theorem result_ne_tooDeep {awaited : Awaited} {c : Container} :
    awaited.result length ≠ .error (.tooDeep c) := by
  cases awaited <;> simp [Awaited.result]

theorem runFreely_ne_tooDeep {c : Container} : runFreely length s ls ≠ .error (.tooDeep c) := by
  induction ls generalizing s with
  | nil =>
    exact result_ne_tooDeep
  | cons l rest ih =>
    rw [runFreely]
    cases hstep : step s.1 s.2 l with
    | error e =>
      rintro h
      cases h
      exact step_ne_tooDeep hstep
    | ok next => exact ih

theorem parsePoints_of_not_goesDeeper {ps : List CodePoint} (h : ¬ GoesDeeper levels ps) :
    parsePoints levels ps = parseFreely ps :=
  run_of_not_deepens h

/-- The reader gives up just where the text goes deeper. -/
theorem exists_parsePoints_eq_tooDeep_iff {ps : List CodePoint} :
    (∃ c, parsePoints levels ps = .error (.tooDeep c)) ↔ GoesDeeper levels ps := by
  constructor
  · rintro ⟨c, h⟩
    by_contra hnot
    rw [parsePoints_of_not_goesDeeper hnot] at h
    exact runFreely_ne_tooDeep h
  · exact run_of_deepens (Nat.zero_le levels)

/-- The two ways in which the reader stops other than at what the grammar forbids. -/
theorem parsePoints_eq_longInteger_iff {ps : List CodePoint} {n : ℕ} :
    parsePoints levels ps = .error (.longInteger n) ↔
      MeetsLongInteger ps n ∧ ¬ GoesDeeper levels ps := by
  by_cases hdeep : GoesDeeper levels ps
  · obtain ⟨c, hc⟩ := exists_parsePoints_eq_tooDeep_iff.mpr hdeep
    refine iff_of_false ?_ fun h => h.2 hdeep
    rw [hc]
    nofun
  · rw [parsePoints_of_not_goesDeeper hdeep, parseFreely_eq_longInteger, and_iff_left hdeep]

/-- Brackets that are opened and not closed again open one container each. -/
theorem deepens_cut_replicate (n position : ℕ) (rest : List CodePoint)
    (hs : s.2 = .value ∨ s.2 = .firstItem) (hlevels : levels < s.1.length + n) :
    Deepens levels s (cut (fun p => isBlank p.shown) scanPoint 0 position
      (List.replicate n (.char '[') ++ rest)) := by
  induction n generalizing s position with
  | zero => exact ⟨[], _, s, rfl, rfl, Nat.lt_of_lt_of_le hlevels (Nat.le_add_right _ _)⟩
  | succ n ih =>
    have hcut : cut (fun p => isBlank p.shown) scanPoint 0 position
          (List.replicate (n + 1) (.char '[') ++ rest) =
        ⟨.openArray, position⟩ :: cut (fun p => isBlank p.shown) scanPoint 0 (position + 1)
          (List.replicate n (.char '[') ++ rest) := rfl
    have hstep : step s.1 s.2 ⟨.openArray, position⟩ = .ok (.array [] :: s.1, .firstItem) := by
      rcases hs with hs | hs <;> rw [hs] <;> rfl
    rw [hcut]
    refine deepens_cons.mpr (.inr ⟨_, hstep, ih (position + 1) (.inr rfl) ?_⟩)
    rw [List.length_cons]
    omega

/-- However many levels there are, one bracket more goes deeper, whatever follows. -/
theorem goesDeeper_replicate (levels : ℕ) (rest : List CodePoint) :
    GoesDeeper levels (List.replicate (levels + 1) (.char '[') ++ rest) :=
  deepens_cut_replicate (levels + 1) 0 rest (.inl rfl) (by simp)

end Bindery.Json
