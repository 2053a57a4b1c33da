import Bindery.Proofs.EncodedText
import Bindery.Proofs.ReadDocuments

/-!
# The document that a text is

A text is a document whatever the length of its integers; the reader, which takes no integer of more
than 4300 digits, either gives that document or stops at such an integer. A text that is an object
starts with two characters of ASCII other than NUL, be it a blank or a bracket and what may follow
it, and so its encoding can be told from its first bytes.
-/

namespace Bindery.Json

open Text (IsBasic)

/-- A token with an integer as the number that it spells. -/
def Located.settled (l : Located) : Located :=
  match l.token with
  | .integer negative digits => ⟨.scalar (.int (integerOf negative digits)), l.position⟩
  | _ => l

/-- The document that a text is, with integers of any length. -/
def valueOf (ps : List CodePoint) : Except ReadError Json :=
  runFreely ps.length ([], .value) ((tokens ps).map Located.settled)

def Denotes (ps : List CodePoint) (j : Json) : Prop := valueOf ps = .ok j

def objectOf? (ps : List CodePoint) : Option (List (Text × Json)) :=
  match valueOf ps with
  | .ok (.obj ms) => some ms
  | _ => none

theorem denotes_of_objectOf? {ps : List CodePoint} {ms : List (Text × Json)}
    (h : objectOf? ps = some ms) : Denotes ps (.obj ms) := by
  unfold objectOf? at h
  split at h <;> cases h
  assumption

section Settling

variable {s : State} {l : Located} {ls : List Located} {length : ℕ} {ps : List CodePoint} {j : Json}

/-- Only its length can make a difference between an integer and the number that it spells. -/
theorem step_settled (s : State) (l : Located) :
    step s.1 s.2 l.settled = step s.1 s.2 l ∨ ∃ n, step s.1 s.2 l = .error (.longInteger n) := by
  obtain ⟨stack, awaited⟩ := s
  obtain ⟨token, position⟩ := l
  cases token with
  | integer negative digits =>
    have hvalue : startValue stack ⟨.scalar (.int (integerOf negative digits)), position⟩ =
        startValue stack ⟨.integer negative digits, position⟩ ∨
          ∃ n, startValue stack ⟨.integer negative digits, position⟩ = .error (.longInteger n) := by
      by_cases hlong : digitLimit < digits.length
      · exact .inr ⟨digits.length, if_pos hlong⟩
      · exact .inl (if_neg hlong).symm
    cases awaited with
    | value => exact hvalue
    | firstItem => exact hvalue
    | separator => exact .inl (by cases stack with | nil => rfl | cons f rest => cases f <;> rfl)
    | _ => exact .inl rfl
  | _ => exact .inl rfl

theorem runFreely_settled (length : ℕ) (s : State) (ls : List Located) :
    runFreely length s (ls.map Located.settled) = runFreely length s ls ∨
      ∃ n, runFreely length s ls = .error (.longInteger n) := by
  induction ls generalizing s with
  | nil => exact .inl rfl
  | cons l ls ih =>
    rw [List.map_cons, runFreely, runFreely]
    rcases step_settled s l with heq | ⟨n, hlong⟩
    · rw [heq]
      cases step s.1 s.2 l with
      | error e => exact .inl rfl
      | ok next => exact ih next
    · rw [hlong]
      exact .inr ⟨n, rfl⟩

/-- A document is read as it is, unless an integer in it is too long. -/
theorem parseFreely_of_denotes (h : Denotes ps j) :
    parseFreely ps = .ok j ∨ ∃ n, parseFreely ps = .error (.longInteger n) :=
  (runFreely_settled ps.length ([], .value) (tokens ps)).imp_left fun heq => heq.symm.trans h

end Settling

section Start

variable {c : Char} {rest cs : List Char} {p : CodePoint} {ps : List CodePoint} {t : Token}
  {width : ℕ}

/-- No surrogate is shown as a character of ASCII. -/
theorem exists_char_of_isBasic (h : IsBasic p.shown) : ∃ c, p = .char c ∧ IsBasic c := by
  cases p with
  | char c => exact ⟨c, rfl, h⟩
  | surrogate n =>
    have hnot : ¬ IsBasic '\ufffd' := by decide
    exact absurd h hnot

theorem isBasic_of_isBlank (h : isBlank c) : IsBasic c := by
  simp only [isBlank, Bool.or_eq_true, decide_eq_true_eq] at h
  rcases h with ((rfl | rfl) | rfl) | rfl <;> decide

theorem isBasic_of_isDigit (h : isDigit c) : IsBasic c := by
  obtain ⟨hzero, hnine⟩ := Bool.and_eq_true_iff.mp h
  have hlow : 48 ≤ c.toNat := Char.le_def.mp (of_decide_eq_true hzero)
  have hhigh : c.toNat ≤ 57 := Char.le_def.mp (of_decide_eq_true hnine)
  exact ⟨by omega, by omega⟩

theorem isBasic_of_scanWord (h : scanWord (c :: rest) = some (t, width)) : IsBasic c := by
  obtain ⟨w, hw, -⟩ := Option.map_eq_some_iff.mp h
  have hmem := List.mem_of_find?_eq_some hw
  have hfirst := List.find?_some (p := fun w : List Char × Json => w.1.isPrefixOf (c :: rest)) hw
  have hall : ∀ w ∈ words, ∃ d ds, w.1 = d :: ds ∧ IsBasic d := by
    simp only [words, List.forall_mem_cons]
    exact ⟨⟨_, _, rfl, by decide⟩, ⟨_, _, rfl, by decide⟩, ⟨_, _, rfl, by decide⟩,
      ⟨_, _, rfl, by decide⟩, ⟨_, _, rfl, by decide⟩, ⟨_, _, rfl, by decide⟩, List.forall_mem_nil _⟩
  obtain ⟨d, ds, hd, hbasic⟩ := hall w hmem
  rw [hd, List.isPrefixOf_cons_cons] at hfirst
  obtain ⟨hc, -⟩ := Bool.and_eq_true_iff.mp hfirst
  rwa [← eq_of_beq hc]

theorem isBasic_of_scanNumber {negative : Bool}
    (h : scanNumber negative (c :: rest) = some (t, width)) : IsBasic c := by
  have hwhole : wholeOf (c :: rest) ≠ [] := by
    intro hempty
    rw [scanNumber, hempty] at h
    cases h
  unfold wholeOf at hwhole
  split at hwhole
  · rename_i heq
    cases heq
    decide
  · by_cases hdigit : isDigit c
    · exact isBasic_of_isDigit hdigit
    · rw [List.takeWhile_cons_of_neg hdigit] at hwhole
      exact absurd rfl hwhole

/-- Every token starts with a character of ASCII. -/
theorem isBasic_of_scanPoint (h : scanPoint p ps = some (t, width)) : IsBasic p.shown := by
  have hmarks : ∀ m ∈ marks, IsBasic m.1 := by decide +kernel
  have hquote : IsBasic '"' := by decide
  have hminus : IsBasic '-' := by decide
  rcases scanPoint_cases h with ⟨hmark, -⟩ | ⟨hp, -⟩ | hword |
    ⟨negative, cs, width', hscan, hp | rfl⟩
  · exact hmarks _ hmark
  · exact hp ▸ hquote
  · exact isBasic_of_scanWord hword
  · exact hp ▸ hminus
  · exact isBasic_of_scanNumber hscan

theorem scalar_or_integer_of_scanNumber {negative : Bool}
    (h : scanNumber negative cs = some (t, width)) :
    (∃ v, t = .scalar v) ∨ ∃ digits, t = .integer negative digits := by
  unfold scanNumber at h
  dsimp only at h
  split_ifs at h <;> cases h
  · exact .inr ⟨_, rfl⟩
  · exact .inl ⟨_, rfl⟩

/-- A token that opens a container is one character wide. -/
theorem width_of_scanPoint (h : scanPoint p ps = some (t, width))
    (ht : t = .openArray ∨ t = .openObject) : width = 1 := by
  rcases scanPoint_cases h with ⟨-, hwidth⟩ | ⟨-, ⟨s, rfl⟩ | ⟨problem, offset, rfl⟩⟩ | hword |
    ⟨negative, cs, width', hscan, -⟩
  · exact hwidth
  · rcases ht with ht | ht <;> cases ht
  · rcases ht with ht | ht <;> cases ht
  · obtain ⟨w, -, heq⟩ := Option.map_eq_some_iff.mp hword
    cases heq
    rcases ht with ht | ht <;> cases ht
  · rcases scalar_or_integer_of_scanNumber hscan with ⟨v, rfl⟩ | ⟨digits, rfl⟩ <;>
      rcases ht with ht | ht <;> cases ht

variable {s : State} {l : Located} {ls : List Located} {length position : ℕ} {j v : Json}
  {ms : List (Text × Json)}

/-- A character that starts no token is the end of the run. -/
theorem runFreely_stray (ls : List Located) (position : ℕ) :
    runFreely length s (⟨.stray, position⟩ :: ls) ≠ .ok j := by
  have hstep : ∃ e, step s.1 s.2 ⟨.stray, position⟩ = .error e := by
    obtain ⟨stack, awaited⟩ := s
    cases awaited with
    | separator =>
      cases stack with
      | nil => exact ⟨_, rfl⟩
      | cons f rest => cases f <;> exact ⟨_, rfl⟩
    | _ => exact ⟨_, rfl⟩
  obtain ⟨e, he⟩ := hstep
  intro h
  rw [runFreely, he] at h
  cases h

/-- Nothing may follow a document. -/
theorem eq_of_runFreely_nothing {stack : List Frame}
    (h : runFreely length (stack, .nothing v) ls = .ok j) : j = v := by
  cases ls with
  | nil =>
    cases h
    rfl
  | cons l ls => cases h

/-- Where the machine awaits more, the rest of a document starts with a character of ASCII. -/
theorem exists_isBasic_of_runFreely (hs : ∀ v, s.2 ≠ .nothing v)
    (h : runFreely length s
      ((cut (fun p => isBlank p.shown) scanPoint 0 position ps).map Located.settled) = .ok j) :
    ∃ p rest, ps = p :: rest ∧ IsBasic p.shown := by
  cases ps with
  | nil =>
    rw [cut, List.map_nil, runFreely] at h
    exact absurd (result_eq_ok.mp h) (hs j)
  | cons p rest =>
    refine ⟨p, rest, rfl, ?_⟩
    by_cases hblank : isBlank p.shown
    · exact isBasic_of_isBlank hblank
    cases hscan : scanPoint p rest with
    | some token =>
      obtain ⟨t, width⟩ := token
      exact isBasic_of_scanPoint hscan
    | none =>
      rw [cut, if_neg hblank, hscan] at h
      exact absurd h (runFreely_stray [] position)

/-- A document that is an object starts with no value by itself. -/
theorem opens_of_runFreely (hl : l.token.Sound)
    (h : runFreely length ([], .value) (l.settled :: ls) = .ok (.obj ms)) :
    (l.token = .openArray ∨ l.token = .openObject) ∧
      ∃ s' : State, (∀ v, s'.2 ≠ .nothing v) ∧ runFreely length s' ls = .ok (.obj ms) := by
  obtain ⟨token, position⟩ := l
  cases token with
  | openArray => exact ⟨.inl rfl, ([.array []], .firstItem), nofun, h⟩
  | openObject => exact ⟨.inr rfl, ([], .firstName), nofun, h⟩
  | scalar v =>
    have hrun : runFreely length ([], .nothing v) ls = .ok (.obj ms) := h
    rw [← eq_of_runFreely_nothing hrun] at hl
    exact absurd hl id
  | integer negative digits =>
    have hrun :
        runFreely length ([], .nothing (.int (integerOf negative digits))) ls = .ok (.obj ms) := h
    cases eq_of_runFreely_nothing hrun
  | string s =>
    have hrun : runFreely length ([], .nothing (.str (.ofPoints s))) ls = .ok (.obj ms) := h
    cases eq_of_runFreely_nothing hrun
  | _ => cases h

/-- A text that is an object starts with two characters of ASCII. -/
theorem exists_isBasic_of_denotes (h : Denotes ps (.obj ms)) :
    ∃ c d rest, ps = .char c :: .char d :: rest ∧ IsBasic c ∧ IsBasic d := by
  obtain ⟨p, rest, rfl, hp⟩ := exists_isBasic_of_runFreely (s := ([], .value)) nofun h
  have hrest : ∃ q more, rest = q :: more ∧ IsBasic q.shown := by
    rw [Denotes, valueOf, tokens, cut] at h
    by_cases hblank : isBlank p.shown
    · rw [if_pos hblank] at h
      exact exists_isBasic_of_runFreely (s := ([], .value)) nofun h
    rw [if_neg hblank] at h
    split at h
    · exact absurd h (runFreely_stray (s := ([], .value)) [] 0)
    · cases h
    · rename_i t width hdamaged hscan
      obtain ⟨hopens, s', hs', hrun⟩ := opens_of_runFreely (sound_scanPoint hscan) h
      rw [width_of_scanPoint hscan hopens] at hrun
      exact exists_isBasic_of_runFreely hs' hrun
  obtain ⟨q, more, rfl, hq⟩ := hrest
  obtain ⟨c, rfl, hc⟩ := exists_char_of_isBasic hp
  obtain ⟨d, rfl, hd⟩ := exists_char_of_isBasic hq
  exact ⟨c, d, more, rfl, hc, hd⟩

end Start

end Bindery.Json
