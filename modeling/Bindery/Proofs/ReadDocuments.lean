import Bindery.Proofs.Documents
import Bindery.Proofs.Results

/-!
# Documents that are read

What the reader can make of a text. A property that comes with the parts of a document holds of all
documents that are read, if it holds of the values by themselves: the machine keeps it on its stack
from token to token. An integer that is too long to be written is no part of them: it stops the
reader where a value may stand.
-/

namespace Bindery.Json

theorem map_fst_setMember {α : Type} (name : Text) (value : α) (members : List (Text × α)) :
    (setMember name value members).map Prod.fst =
      if name ∈ members.map Prod.fst then members.map Prod.fst
      else members.map Prod.fst ++ [name] := by
  induction members with
  | nil => rfl
  | cons m rest ih =>
    unfold setMember
    by_cases hname : m.1 = name
    · simp [hname]
    · rw [if_neg hname, List.map_cons, ih, List.map_cons]
      by_cases hrest : name ∈ rest.map Prod.fst
      · rw [if_pos hrest, if_pos (List.mem_cons_of_mem _ hrest)]
      · rw [if_neg hrest, if_neg (by simpa [Ne.symm hname] using hrest), List.cons_append]

theorem nodup_setMember {α : Type} {members : List (Text × α)}
    (h : (members.map Prod.fst).Nodup) (name : Text) (value : α) :
    ((setMember name value members).map Prod.fst).Nodup := by
  rw [map_fst_setMember]
  split
  · exact h
  · rename_i hname
    exact List.nodup_append.mpr ⟨h, List.nodup_singleton name, fun a ha b hb => by
      rintro rfl
      exact hname (List.mem_singleton.mp hb ▸ ha)⟩

theorem mem_setMember {α : Type} {name : Text} {value : α} {members : List (Text × α)}
    {m : Text × α} (h : m ∈ setMember name value members) : m = (name, value) ∨ m ∈ members := by
  induction members with
  | nil => exact .inl (List.mem_singleton.mp h)
  | cons m' rest ih =>
    unfold setMember at h
    split at h
    · exact (List.mem_cons.mp h).imp_right (List.mem_cons_of_mem m')
    · rcases List.mem_cons.mp h with rfl | h
      · exact .inr List.mem_cons_self
      · exact (ih h).imp_right (List.mem_cons_of_mem m')

theorem member?_setMember_self {α : Type} (name : Text) (x : α) (members : List (Text × α)) :
    member? name (setMember name x members) = some x := by
  induction members with
  | nil => simp [setMember, member?]
  | cons m rest ih =>
    unfold setMember
    by_cases hname : m.1 = name
    · simp [hname, member?]
    · rw [if_neg hname]
      simpa [member?, hname] using ih

theorem member?_setMember_of_ne {α : Type} {name other : Text} (h : other ≠ name) (x : α)
    (members : List (Text × α)) :
    member? other (setMember name x members) = member? other members := by
  induction members with
  | nil => simp [setMember, member?, h.symm]
  | cons m rest ih =>
    unfold setMember
    by_cases hname : m.1 = name
    · simp [hname, member?, h.symm]
    · rw [if_neg hname]
      by_cases hother : m.1 = other
      · simp [member?, hother]
      · simpa [member?, hother] using ih

/-- Joined members have distinct names, and each is one of those that were joined. -/
theorem joinMembers_spec {α : Type} (members : List (Text × α)) :
    ((joinMembers members).map Prod.fst).Nodup ∧ ∀ m ∈ joinMembers members, m ∈ members := by
  have hfold (done members : List (Text × α)) (h : (done.map Prod.fst).Nodup) :
      ((members.foldl (fun done m => setMember m.1 m.2 done) done).map Prod.fst).Nodup ∧
        ∀ m ∈ members.foldl (fun done m => setMember m.1 m.2 done) done,
          m ∈ done ∨ m ∈ members := by
    induction members generalizing done with
    | nil => exact ⟨h, fun m hm => .inl hm⟩
    | cons m rest ih =>
      obtain ⟨hnodup, hmem⟩ := ih _ (nodup_setMember h m.1 m.2)
      refine ⟨hnodup, fun m' hm' => ?_⟩
      rcases hmem m' hm' with hset | hrest
      · rcases mem_setMember hset with rfl | hdone
        · exact .inr List.mem_cons_self
        · exact .inl hdone
      · exact .inr (List.mem_cons_of_mem m hrest)
  obtain ⟨hnodup, hmem⟩ := hfold [] members List.nodup_nil
  exact ⟨hnodup, fun m hm => (hmem m hm).resolve_left List.not_mem_nil⟩

def IsWord : Json → Prop
  | .null | .bool _ | .float _ => True
  | _ => False

/-- A property of documents that comes with their parts; of the integers only those count that can
be written. -/
structure Composed (P : Json → Prop) : Prop where
  word : ∀ v, v.IsWord → P v
  int : ∀ n, isLong n = false → P (.int n)
  str : ∀ s, P (.str s)
  arr : ∀ items, (∀ x ∈ items, P x) → P (.arr items)
  obj : ∀ members, (members.map Prod.fst).Nodup → (∀ m ∈ members, P m.2) → P (.obj members)

/-- A token as the scanner makes it: the digits of an integer are digits, and what else is a value
by itself is neither a text nor a container. -/
def Token.Sound : Token → Prop
  | .scalar v => v.IsWord
  | .integer _ digits => AllDigits digits
  | _ => True

theorem natOfDigits_singleton_lt {d : Char} (h : isDigit d) : natOfDigits [d] < 10 := by
  obtain ⟨-, hnine⟩ := Bool.and_eq_true_iff.mp h
  have hle : d.toNat ≤ '9'.toNat := Char.le_def.mp (of_decide_eq_true hnine)
  have hvalue : natOfDigits [d] = d.toNat - 48 := by simp [natOfDigits]
  have hbound : '9'.toNat = 57 := rfl
  omega

theorem natOfDigits_lt {ds : List Char} (h : AllDigits ds) {k : ℕ} (hk : ds.length ≤ k) :
    natOfDigits ds < Nat.pow 10 k := by
  suffices h : natOfDigits ds < 10 ^ ds.length from h.trans_le (Nat.pow_le_pow_right (by decide) hk)
  clear hk
  induction ds with
  | nil => exact Nat.one_pos
  | cons d ds ih =>
    obtain ⟨hd, hds⟩ := List.forall_mem_cons.mp h
    have happend := natOfDigits_append [d] ds
    rw [List.singleton_append] at happend
    rw [happend, List.length_cons, pow_succ']
    have hfirst := natOfDigits_singleton_lt hd
    have hrest := ih hds
    nlinarith

theorem not_isLong_integerOf {negative : Bool} {digits : List Char} (h : AllDigits digits)
    (hlength : digits.length ≤ digitLimit) : isLong (integerOf negative digits) = false := by
  have hlt : natOfDigits digits < longMagnitude := longMagnitude_eq ▸ natOfDigits_lt h hlength
  have habs : (integerOf negative digits).natAbs = natOfDigits digits := by
    unfold integerOf
    split <;> simp
  unfold isLong
  rw [habs]
  exact decide_eq_false (not_le.mpr hlt)

section Machine

variable {P : Json → Prop}

def Frame.All (P : Json → Prop) : Frame → Prop
  | .array done => ∀ x ∈ done, P x
  | .object done _ => ∀ m ∈ done, P m.2

def Awaited.All (P : Json → Prop) : Awaited → Prop
  | .name done | .colon done _ => ∀ m ∈ done, P m.2
  | .nothing v => P v
  | _ => True

def StateAll (P : Json → Prop) (s : State) : Prop := (∀ f ∈ s.1, f.All P) ∧ s.2.All P

theorem all_finish {v : Json} {stack : List Frame} (hv : P v) (h : ∀ f ∈ stack, f.All P) :
    StateAll P (finish v stack) := by
  cases stack with
  | nil => exact ⟨List.forall_mem_nil _, hv⟩
  | cons f rest =>
    obtain ⟨hf, hrest⟩ := List.forall_mem_cons.mp h
    cases f with
    | array done =>
      exact ⟨List.forall_mem_cons.mpr ⟨List.forall_mem_cons.mpr ⟨hv, hf⟩, hrest⟩, trivial⟩
    | object done name =>
      exact ⟨List.forall_mem_cons.mpr ⟨List.forall_mem_cons.mpr ⟨hv, hf⟩, hrest⟩, trivial⟩

theorem all_startName {done : List (Text × Json)} {l : Located} {a : Awaited}
    (hdone : ∀ m ∈ done, P m.2) (h : startName done l = .ok a) : a.All P := by
  unfold startName at h
  split at h
  · cases h
    exact hdone
  · cases h
  · cases h

namespace Composed

theorem closeObject (hP : Composed P) {done : List (Text × Json)} (h : ∀ m ∈ done, P m.2) :
    P (closeObject done) := by
  obtain ⟨hnodup, hmem⟩ := joinMembers_spec done.reverse
  exact hP.obj _ hnodup fun m hm => h m (List.mem_reverse.mp (hmem m hm))

theorem startValue (hP : Composed P) {stack : List Frame} {l : Located} {s : State}
    (hstack : ∀ f ∈ stack, f.All P) (hl : l.token.Sound) (h : startValue stack l = .ok s) :
    StateAll P s := by
  unfold Json.startValue at h
  split at h
  · rename_i v heq
    cases h
    rw [heq] at hl
    exact all_finish (hP.word v hl) hstack
  · rename_i negative digits heq
    rw [heq] at hl
    split at h
    · cases h
    · rename_i hlength
      cases h
      exact all_finish (hP.int _ (not_isLong_integerOf hl (not_lt.mp hlength))) hstack
  · cases h
    exact all_finish (hP.str _) hstack
  · cases h
    exact ⟨List.forall_mem_cons.mpr ⟨List.forall_mem_nil _, hstack⟩, trivial⟩
  · cases h
    exact ⟨hstack, trivial⟩
  · cases h
  · cases h

/-- A step of the machine keeps the property. -/
theorem step (hP : Composed P) {s s' : State} {l : Located} (hs : StateAll P s)
    (hl : l.token.Sound) (h : step s.1 s.2 l = .ok s') : StateAll P s' := by
  obtain ⟨stack, awaited⟩ := s
  obtain ⟨hstack, hawaited⟩ := hs
  dsimp only at *
  -- One case per line of the step, in its order; only a closing bracket makes a new container.
  unfold Json.step at h
  split at h
  · cases h
    exact all_finish (hP.arr _ (List.forall_mem_nil _)) (List.forall_mem_cons.mp hstack).2
  · exact hP.startValue hstack hl h
  · exact hP.startValue hstack hl h
  · cases h
    exact all_finish (hP.obj _ List.nodup_nil (List.forall_mem_nil _)) hstack
  · obtain ⟨a, ha, rfl⟩ := map_eq_ok.mp h
    exact ⟨hstack, all_startName (List.forall_mem_nil _) ha⟩
  · obtain ⟨a, ha, rfl⟩ := map_eq_ok.mp h
    exact ⟨hstack, all_startName hawaited ha⟩
  · cases h
    exact ⟨List.forall_mem_cons.mpr ⟨hawaited, hstack⟩, trivial⟩
  · cases h
    exact ⟨hstack, trivial⟩
  · cases h
    obtain ⟨hdone, hrest⟩ := List.forall_mem_cons.mp hstack
    exact all_finish (hP.arr _ fun x hx => hdone x (List.mem_reverse.mp hx)) hrest
  · cases h
    obtain ⟨hdone, hrest⟩ := List.forall_mem_cons.mp hstack
    exact ⟨hrest, hdone⟩
  · cases h
    obtain ⟨hdone, hrest⟩ := List.forall_mem_cons.mp hstack
    exact all_finish (hP.closeObject hdone) hrest
  · cases h

theorem run (hP : Composed P) {levels length : ℕ} {s : State} {ls : List Located} {j : Json}
    (hs : StateAll P s) (hls : ∀ l ∈ ls, l.token.Sound)
    (h : run levels length s.1 s.2 ls = .ok j) : P j := by
  induction ls generalizing s with
  | nil =>
    have hawaited := hs.2
    rwa [result_eq_ok.mp h] at hawaited
  | cons l rest ih =>
    obtain ⟨hl, hrest⟩ := List.forall_mem_cons.mp hls
    unfold Json.run at h
    split at h
    · cases h
    · rename_i hstep
      split at h
      · cases h
      · exact ih (hP.step hs hl hstep) hrest h

end Composed

end Machine

theorem allDigits_wholeOf (cs : List Char) : AllDigits (wholeOf cs) := by
  unfold wholeOf
  split
  · exact List.forall_mem_singleton.mpr rfl
  · exact fun c hc => List.all_eq_true.mp List.all_takeWhile c hc

theorem sound_scanNumber {negative : Bool} {cs : List Char} {t : Token} {width : ℕ}
    (h : scanNumber negative cs = some (t, width)) : t.Sound := by
  unfold scanNumber at h
  dsimp only at h
  split_ifs at h
  · cases h
    exact allDigits_wholeOf cs
  · cases h
    trivial

theorem sound_scanWord {cs : List Char} {t : Token} {width : ℕ}
    (h : scanWord cs = some (t, width)) : t.Sound := by
  obtain ⟨w, hw, heq⟩ := Option.map_eq_some_iff.mp h
  cases heq
  have hmem := List.mem_of_find?_eq_some hw
  have hall : ∀ w ∈ words, w.2.IsWord := by simp [words, IsWord]
  exact hall w hmem

def marks : List (Char × Token) :=
  [('[', .openArray), (']', .closeArray), ('\x7b', .openObject), ('\x7d', .closeObject),
    (',', .comma), (':', .colon)]

/-- How a token comes about: a mark, a string, a word or a number. -/
theorem scanPoint_cases {p : CodePoint} {rest : List CodePoint} {t : Token} {width : ℕ}
    (h : scanPoint p rest = some (t, width)) :
    (p.shown, t) ∈ marks ∧ width = 1 ∨
      p.shown = '"' ∧ ((∃ s, t = .string s) ∨ ∃ problem offset, t = .damaged problem offset) ∨
        scanWord ((p :: rest).map CodePoint.shown) = some (t, width) ∨
          ∃ negative cs width', scanNumber negative cs = some (t, width') ∧
            (p.shown = '-' ∨ cs = (p :: rest).map CodePoint.shown) := by
  rw [List.map_cons]
  unfold scanPoint at h
  generalize p.shown = c at h ⊢
  generalize rest.map CodePoint.shown = cs at h ⊢
  split at h
  iterate 6
    cases h
    exact .inl ⟨by simp [marks], rfl⟩
  · refine .inr (.inl ⟨rfl, ?_⟩)
    split at h <;> cases h
    · exact .inl ⟨_, rfl⟩
    · exact .inr ⟨_, _, rfl⟩
  · refine .inr (.inr ?_)
    dsimp only at h
    cases hword : scanWord (c :: cs) with
    | some word =>
      rw [hword] at h
      exact .inl h
    | none =>
      rw [hword, Option.orElse] at h
      refine .inr ?_
      split at h
      · rename_i hminus
        obtain ⟨⟨t', width'⟩, hscan, heq⟩ := Option.map_eq_some_iff.mp h
        cases heq
        exact ⟨true, cs, width', hscan, .inl hminus⟩
      · exact ⟨false, c :: cs, width, h, .inr rfl⟩

theorem sound_scanPoint {p : CodePoint} {ps : List CodePoint} {t : Token} {width : ℕ}
    (h : scanPoint p ps = some (t, width)) : t.Sound := by
  have hmarks : ∀ m ∈ marks, m.2.Sound := by simp [marks, Token.Sound]
  rcases scanPoint_cases h with
    ⟨hmark, -⟩ | ⟨-, ⟨s, rfl⟩ | ⟨problem, offset, rfl⟩⟩ | hword | hnumber
  · exact hmarks _ hmark
  · trivial
  · trivial
  · exact sound_scanWord hword
  · obtain ⟨negative, digits, width', hscan, -⟩ := hnumber
    exact sound_scanNumber hscan

theorem sound_cut (isBlank : CodePoint → Bool) (skip position : ℕ) (ps : List CodePoint) :
    ∀ l ∈ cut isBlank scanPoint skip position ps, l.token.Sound := by
  induction ps generalizing skip position with
  | nil => exact fun l hl => absurd hl List.not_mem_nil
  | cons p ps ih =>
    unfold cut
    split
    · exact ih _ _
    · split
      · exact ih _ _
      · split
        · simp [Token.Sound]
        · simp [Token.Sound]
        · rename_i hscan
          exact List.forall_mem_cons.mpr ⟨sound_scanPoint hscan, ih _ _⟩

/-- A property that comes with the parts of documents holds of every document that is read. -/
theorem Composed.documentOfPoints {P : Json → Prop} (hP : Composed P) {levels : ℕ}
    {ps : List CodePoint} {j : Json} (h : documentOfPoints levels ps = .ok j) : P j :=
  hP.run (s := ([], .value)) ⟨List.forall_mem_nil _, trivial⟩ (sound_cut _ 0 0 ps)
    (mapError_eq_ok.mp h)

/-- The text follows the grammar up to a place where a value may stand, and an integer of `n` digits
stands there, which are too many. -/
def MeetsLongInteger (ps : List CodePoint) (n : Nat) : Prop :=
  ∃ before after position negative digits stack awaited,
    tokens ps = before ++ ⟨.integer negative digits, position⟩ :: after ∧
      before.foldlM (fun (s : State) l => step s.1 s.2 l) ([], .value) = .ok (stack, awaited) ∧
        (awaited = .value ∨ awaited = .firstItem) ∧ digits.length = n ∧ digitLimit < n

theorem startValue_eq_longInteger {stack : List Frame} {l : Located} {n : ℕ} :
    startValue stack l = .error (.longInteger n) ↔
      ∃ negative digits, l.token = .integer negative digits ∧ digits.length = n ∧
        digitLimit < n := by
  obtain ⟨token, position⟩ := l
  unfold startValue
  cases token with
  | integer negative digits =>
    dsimp only
    by_cases hlong : digitLimit < digits.length
    · rw [if_pos hlong]
      constructor
      · intro h
        cases h
        exact ⟨negative, digits, rfl, rfl, hlong⟩
      · rintro ⟨_, _, ⟨⟩, rfl, -⟩
        rfl
    · rw [if_neg hlong]
      refine iff_of_false nofun ?_
      rintro ⟨_, _, ⟨⟩, rfl, h⟩
      exact hlong h
  | _ => exact iff_of_false nofun (by rintro ⟨_, _, ⟨⟩, -⟩)

theorem startName_ne_longInteger {done : List (Text × Json)} {l : Located} {n : ℕ} :
    startName done l ≠ .error (.longInteger n) := by
  unfold startName
  split <;> nofun

/-- The one way in which a step is stopped by the length of an integer. -/
theorem step_eq_longInteger {s : State} {l : Located} {n : ℕ} :
    step s.1 s.2 l = .error (.longInteger n) ↔ (s.2 = .value ∨ s.2 = .firstItem) ∧
      ∃ negative digits, l.token = .integer negative digits ∧ digits.length = n ∧
        digitLimit < n := by
  obtain ⟨stack, awaited⟩ := s
  dsimp only
  constructor
  · intro h
    unfold step at h
    split at h
    case h_2 => exact ⟨.inl rfl, startValue_eq_longInteger.mp h⟩
    case h_3 => exact ⟨.inr rfl, startValue_eq_longInteger.mp h⟩
    case h_5 => exact absurd (map_eq_error.mp h) startName_ne_longInteger
    case h_6 => exact absurd (map_eq_error.mp h) startName_ne_longInteger
    all_goals cases h
  · rintro ⟨rfl | rfl, h⟩
    · exact startValue_eq_longInteger.mpr h
    · obtain ⟨negative, digits, htoken, -⟩ := id h
      rw [step_firstItem (by rw [htoken]; nofun)]
      exact startValue_eq_longInteger.mpr h

/-- The machine goes from token to token until one stops it. -/
theorem runFreely_eq_longInteger {length n : ℕ} {s : State} {ls : List Located} :
    runFreely length s ls = .error (.longInteger n) ↔
      ∃ before l after s', ls = before ++ l :: after ∧
        before.foldlM (fun (s : State) l => step s.1 s.2 l) s = .ok s' ∧
          step s'.1 s'.2 l = .error (.longInteger n) := by
  induction ls generalizing s with
  | nil =>
    refine iff_of_false ?_ ?_
    · exact result_ne_longInteger
    · rintro ⟨before, l, after, -, h, -⟩
      simp at h
  | cons l rest ih =>
    rw [runFreely]
    cases hstep : step s.1 s.2 l with
    | error e =>
      constructor
      · intro h
        cases h
        exact ⟨[], l, rest, s, rfl, rfl, hstep⟩
      · rintro ⟨before, l', after, s', hsplit, hbefore, h⟩
        cases before with
        | nil =>
          cases hsplit
          cases hbefore
          rw [hstep] at h
          cases h
          rfl
        | cons first before =>
          obtain ⟨rfl, -⟩ := List.cons_eq_cons.mp hsplit
          rw [List.foldlM_cons, hstep] at hbefore
          cases hbefore
    | ok next =>
      refine ih.trans ⟨?_, ?_⟩
      · rintro ⟨before, l', after, s', rfl, hbefore, h⟩
        exact ⟨l :: before, l', after, s', rfl, by rwa [List.foldlM_cons, hstep], h⟩
      · rintro ⟨before, l', after, s', hsplit, hbefore, h⟩
        cases before with
        | nil =>
          cases hsplit
          cases hbefore
          rw [hstep] at h
          cases h
        | cons first before =>
          obtain ⟨rfl, hrest⟩ := List.cons_eq_cons.mp hsplit
          rw [List.foldlM_cons, hstep] at hbefore
          exact ⟨before, l', after, s', hrest, hbefore, h⟩

theorem parseFreely_eq_longInteger {ps : List CodePoint} {n : ℕ} :
    parseFreely ps = .error (.longInteger n) ↔ MeetsLongInteger ps n := by
  rw [parseFreely, runFreely_eq_longInteger]
  constructor
  · rintro ⟨before, ⟨token, position⟩, after, ⟨stack, awaited⟩, hsplit, hbefore, h⟩
    obtain ⟨hawaited, negative, digits, rfl, hlength⟩ := step_eq_longInteger.mp h
    exact ⟨before, after, position, negative, digits, stack, awaited, hsplit, hbefore, hawaited,
      hlength⟩
  · rintro ⟨before, after, position, negative, digits, stack, awaited, hsplit, hbefore, hawaited,
      hlength⟩
    exact ⟨before, _, after, (stack, awaited), hsplit, hbefore,
      step_eq_longInteger.mpr ⟨hawaited, negative, digits, rfl, hlength⟩⟩

end Bindery.Json
