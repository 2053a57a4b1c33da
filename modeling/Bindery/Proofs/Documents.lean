import Bindery.Proofs.CodePoints
import Bindery.Proofs.NumberText

/-!
# Documents as tokens

The tokens that spell a document, and the run of the machine over them. `Moves` says that the
machine comes from one state to another by tokens of the given kinds, wherever they stand and
whatever follows, so that runs are put together like the tokens. A document is plain if no object of
it repeats a name and no number is infinite or undefined; the machine makes it of its tokens again
if it has a level for each container of the document that is open at one time.

`Cuts` says that a text in front of some rest is cut into tokens of the given kinds. What is left to
show for a way of writing documents is that it cuts into the tokens of the document. `Lexis` holds
what all ways have in common.
-/

namespace Bindery.Json

mutual

/-- No object of the document repeats a name, all names are whole, and all numbers are finite. -/
def Plain : Json → Prop
  | .float x => x.isFinite
  | .arr items => PlainItems items
  | .obj members =>
    (members.map Prod.fst).Nodup ∧ (∀ m ∈ members, m.1.isWhole) ∧ PlainMembers members
  | _ => True

def PlainItems : List Json → Prop
  | [] => True
  | x :: rest => Plain x ∧ PlainItems rest

def PlainMembers : List (Text × Json) → Prop
  | [] => True
  | (_, x) :: rest => Plain x ∧ PlainMembers rest

end

mutual

def nesting : Json → ℕ
  | .arr items => nestingItems items + 1
  | .obj members => nestingMembers members + 1
  | _ => 0

def nestingItems : List Json → ℕ
  | [] => 0
  | x :: rest => max (nesting x) (nestingItems rest)

def nestingMembers : List (Text × Json) → ℕ
  | [] => 0
  | (_, x) :: rest => max (nesting x) (nestingMembers rest)

end

def nameTokens (name : Text) : List Token := [.string name.points, .colon]

mutual

def tokensOf : Json → List Token
  | .int n => [integerToken n]
  | .str t => [.string t.points]
  | .arr [] => [.openArray, .closeArray]
  | .arr (x :: rest) => [.openArray] ++ tokensOf x ++ itemTokens rest ++ [.closeArray]
  | .obj [] => [.openObject, .closeObject]
  | .obj ((name, x) :: rest) =>
    [.openObject] ++ nameTokens name ++ tokensOf x ++ memberTokens rest ++ [.closeObject]
  | v => [.scalar v]

def itemTokens : List Json → List Token
  | [] => []
  | x :: rest => [.comma] ++ tokensOf x ++ itemTokens rest

def memberTokens : List (Text × Json) → List Token
  | [] => []
  | (name, x) :: rest => [.comma] ++ nameTokens name ++ tokensOf x ++ memberTokens rest

end

abbrev State := List Frame × Awaited

def runFreely (length : ℕ) (s : State) : List Located → Except ReadError Json
  | [] => s.2.result length
  | t :: rest =>
    match step s.1 s.2 t with
    | .error e => .error e
    | .ok next => runFreely length next rest

def parseFreely (ps : List CodePoint) : Except ReadError Json :=
  runFreely ps.length ([], .value) (tokens ps)

theorem result_eq_ok {awaited : Awaited} {length : ℕ} {j : Json} :
    awaited.result length = .ok j ↔ awaited = .nothing j := by
  cases awaited <;> simp [Awaited.result]

theorem result_ne_longInteger {awaited : Awaited} {length n : ℕ} :
    awaited.result length ≠ .error (.longInteger n) := by
  cases awaited <;> simp [Awaited.result]

/-- Where a document is read, it is read with any levels more. -/
theorem runFreely_of_run {levels length : ℕ} {s : State} {ls : List Located} {j : Json}
    (h : run levels length s.1 s.2 ls = .ok j) : runFreely length s ls = .ok j := by
  induction ls generalizing s with
  | nil => exact h
  | cons t rest ih =>
    rw [run] at h
    rw [runFreely]
    cases hstep : step s.1 s.2 t with
    | error e =>
      rw [hstep] at h
      cases h
    | ok next =>
      rw [hstep] at h
      dsimp only at h
      split at h
      · cases h
      · exact ih h

/-- With these levels, tokens of these kinds bring the machine from one state to another, whatever
follows. -/
def Moves (levels : ℕ) (s : State) (ts : List Token) (s' : State) : Prop :=
  ∀ ls : List Located, ls.map Located.token = ts → ∀ length rest,
    run levels length s.1 s.2 (ls ++ rest) = run levels length s'.1 s'.2 rest

variable {levels : ℕ} {s s' s'' : State} {t : Token} {ts us : List Token}

theorem Moves.single (h : ∀ position, step s.1 s.2 ⟨t, position⟩ = .ok s')
    (hs : opened s'.1 s'.2 ≤ levels) : Moves levels s [t] s' := by
  intro ls hls length rest
  obtain ⟨⟨_, position⟩, rfl, rfl⟩ := List.map_eq_singleton_iff.mp hls
  rw [List.singleton_append, run, h position]
  exact if_neg (Nat.not_lt.mpr hs)

theorem Moves.trans (h : Moves levels s ts s') (h' : Moves levels s' us s'') :
    Moves levels s (ts ++ us) s'' := by
  intro ls hls length rest
  obtain ⟨first, second, rfl, hfirst, hsecond⟩ := List.map_eq_append_iff.mp hls
  rw [List.append_assoc, h first hfirst, h' second hsecond]

theorem step_value (stack : List Frame) (l : Located) :
    step stack .value l = startValue stack l := rfl

theorem step_firstItem {l : Located} (h : l.token ≠ .closeArray) (stack : List Frame) :
    step stack .firstItem l = startValue stack l := by
  obtain ⟨token, position⟩ := l
  cases token with
  | closeArray => exact absurd rfl h
  | _ => rfl

/-- A value may stand where the first item of an array is awaited. -/
theorem Moves.firstItem {stack : List Frame} (h : Moves levels (stack, .value) (t :: ts) s')
    (ht : t ≠ .closeArray) : Moves levels (stack, .firstItem) (t :: ts) s' := by
  intro ls hls length rest
  obtain ⟨l, ls, rfl, rfl, -⟩ := List.map_eq_cons_iff.mp hls
  rw [← h _ hls, List.cons_append, run, run, step_value, step_firstItem ht]

theorem setMember_of_not_mem {α : Type} {name : Text} {members : List (Text × α)}
    (h : name ∉ members.map Prod.fst) (value : α) :
    setMember name value members = members ++ [(name, value)] := by
  induction members with
  | nil => rfl
  | cons m rest ih =>
    rw [List.map_cons, List.mem_cons, not_or] at h
    rw [setMember, if_neg (Ne.symm h.1), ih h.2, List.cons_append]

/-- Members whose names are distinct are joined as they are. -/
theorem joinMembers_of_nodup {α : Type} {members : List (Text × α)}
    (h : (members.map Prod.fst).Nodup) : joinMembers members = members := by
  have hfold (done members : List (Text × α)) (h : ((done ++ members).map Prod.fst).Nodup) :
      members.foldl (fun done m => setMember m.1 m.2 done) done = done ++ members := by
    induction members generalizing done with
    | nil => rw [List.foldl_nil, List.append_nil]
    | cons m rest ih =>
      rw [List.append_cons] at h
      have hname : m.1 ∉ done.map Prod.fst := by
        intro hmem
        rw [List.map_append, List.map_append, List.nodup_append, List.nodup_append] at h
        exact h.1.2.2 m.1 hmem m.1 List.mem_cons_self rfl
      rw [List.foldl_cons, setMember_of_not_mem hname, ih _ h, ← List.append_cons]
  exact hfold [] members h

/-- The first token of a document opens it or is the whole of it. -/
theorem exists_tokensOf_eq_cons (j : Json) : ∃ t ts, tokensOf j = t :: ts ∧ t ≠ .closeArray := by
  cases j with
  | arr items => cases items <;> exact ⟨_, _, rfl, by simp⟩
  | obj members =>
    cases members with
    | nil => exact ⟨_, _, rfl, by simp⟩
    | cons m rest => exact ⟨_, _, rfl, by simp⟩
  | _ => exact ⟨_, _, rfl, by simp [integerToken]⟩

theorem opened_finish (v : Json) (stack : List Frame) :
    opened (finish v stack).1 (finish v stack).2 = stack.length := by
  cases stack with
  | nil => rfl
  | cons f rest => cases f <;> rfl

/-- A value that is finished leaves only what is open around it. -/
theorem Moves.finish {v : Json} {stack : List Frame}
    (h : ∀ position, step s.1 s.2 ⟨t, position⟩ = .ok (Json.finish v stack))
    (hstack : stack.length ≤ levels) : Moves levels s [t] (Json.finish v stack) :=
  .single h ((opened_finish v stack).trans_le hstack)

section Inside

variable {stack : List Frame}

theorem moves_comma_item (h : stack.length < levels) (done : List Json) :
    Moves levels (.array done :: stack, .separator) [.comma] (.array done :: stack, .value) :=
  .single (fun _ => rfl) h

theorem moves_closeArray (h : stack.length < levels) (done : List Json) :
    Moves levels (.array done :: stack, .separator) [.closeArray]
      (finish (.arr done.reverse) stack) :=
  .finish (fun _ => rfl) h.le

theorem moves_comma_member (h : stack.length < levels) (done : List (Text × Json))
    (name : Text) :
    Moves levels (.object done name :: stack, .separator) [.comma] (stack, .name done) :=
  .single (fun _ => rfl) h

theorem startName_string (done : List (Text × Json)) (name : Text) (position : ℕ) :
    startName done ⟨.string name.points, position⟩ = .ok (.colon done name) := by
  have hstart : startName done ⟨.string name.points, position⟩ =
      .ok (.colon done (.ofPoints name.points)) := rfl
  rw [hstart, Text.ofPoints_points]

theorem moves_colon (h : stack.length < levels) (done : List (Text × Json)) (name : Text) :
    Moves levels (stack, .colon done name) [.colon] (.object done name :: stack, .value) :=
  .single (fun _ => rfl) h

theorem moves_name (h : stack.length < levels) (done : List (Text × Json)) (name : Text) :
    Moves levels (stack, .name done) (nameTokens name) (.object done name :: stack, .value) := by
  have hname : Moves levels (stack, .name done) [.string name.points] (stack, .colon done name) :=
    .single (fun position =>
      congrArg (·.map fun a => (stack, a)) (startName_string done name position)) h
  exact hname.trans (moves_colon h done name)

theorem moves_firstName (h : stack.length < levels) (name : Text) :
    Moves levels (stack, .firstName) (nameTokens name) (.object [] name :: stack, .value) := by
  have hname : Moves levels (stack, .firstName) [.string name.points] (stack, .colon [] name) :=
    .single (fun position =>
      congrArg (·.map fun a => (stack, a)) (startName_string [] name position)) h
  exact hname.trans (moves_colon h [] name)

theorem moves_closeObject (h : stack.length < levels) {done : List (Text × Json)}
    (hdone : (done.reverse.map Prod.fst).Nodup) (name : Text) :
    Moves levels (.object done name :: stack, .separator) [.closeObject]
      (finish (.obj done.reverse) stack) := by
  refine .finish (fun position => ?_) h.le
  have hstep : step (.object done name :: stack) .separator ⟨.closeObject, position⟩ =
      .ok (finish (closeObject done) stack) := rfl
  rw [hstep, closeObject, joinMembers_of_nodup hdone]

theorem moves_scalar (h : stack.length ≤ levels) (v : Json) :
    Moves levels (stack, .value) [.scalar v] (finish v stack) :=
  .finish (fun _ => rfl) h

theorem moves_integer (h : stack.length ≤ levels) {n : ℤ} (hlong : isLong n = false) :
    Moves levels (stack, .value) [integerToken n] (finish (.int n) stack) := by
  refine .finish (fun position => ?_) h
  have hdigits := length_toDigits_of_not_isLong hlong
  rw [step_value, startValue, integerToken]
  dsimp only
  rw [if_neg (by omega), integerOf_toDigits]

theorem moves_string (h : stack.length ≤ levels) (s : Text) :
    Moves levels (stack, .value) [.string s.points] (finish (.str s) stack) := by
  refine .finish (fun position => ?_) h
  have hstep : step stack .value ⟨.string s.points, position⟩ =
      .ok (finish (.str (.ofPoints s.points)) stack) := rfl
  rw [hstep, Text.ofPoints_points]

theorem moves_openArray (h : stack.length < levels) :
    Moves levels (stack, .value) [.openArray] (.array [] :: stack, .firstItem) :=
  .single (fun _ => rfl) h

theorem moves_openObject (h : stack.length < levels) :
    Moves levels (stack, .value) [.openObject] (stack, .firstName) :=
  .single (fun _ => rfl) h

theorem moves_emptyArray (h : stack.length < levels) :
    Moves levels (.array [] :: stack, .firstItem) [.closeArray] (finish (.arr []) stack) :=
  .finish (fun _ => rfl) h.le

theorem moves_emptyObject (h : stack.length < levels) :
    Moves levels (stack, .firstName) [.closeObject] (finish (.obj []) stack) :=
  .finish (fun _ => rfl) h.le

end Inside

mutual

/-- The machine makes a document of its tokens, if it has levels enough. -/
theorem moves_tokensOf (j : Json) (hplain : j.Plain) (hlong : j.hasLongInteger = false)
    (stack : List Frame) (h : stack.length + j.nesting ≤ levels) :
    Moves levels (stack, .value) (tokensOf j) (finish j stack) := by
  cases j with
  | null => exact moves_scalar h _
  | bool b => exact moves_scalar h _
  | int n => exact moves_integer h hlong
  | float x => exact moves_scalar h _
  | str s => exact moves_string h s
  | arr items =>
    have hstack : stack.length < levels := by rw [nesting] at h; omega
    cases items with
    | nil => exact (moves_openArray hstack).trans (moves_emptyArray hstack)
    | cons x rest =>
      obtain ⟨hx, hrest⟩ := hplain
      obtain ⟨hlongx, hlongrest⟩ := Bool.or_eq_false_iff.mp hlong
      rw [nesting, nestingItems] at h
      have hfirst : Moves levels (.array [] :: stack, .firstItem) (tokensOf x)
          (.array [x] :: stack, .separator) := by
        have hvalue := moves_tokensOf x hx hlongx (.array [] :: stack)
          (by rw [List.length_cons]; omega)
        obtain ⟨t, ts, hts, ht⟩ := exists_tokensOf_eq_cons x
        rw [hts] at hvalue ⊢
        exact hvalue.firstItem ht
      have hall := (((moves_openArray hstack).trans hfirst).trans
        (moves_itemTokens rest hrest hlongrest [x] stack (by omega))).trans
        (moves_closeArray hstack _)
      rwa [List.reverse_append, List.reverse_reverse] at hall
  | obj members =>
    have hstack : stack.length < levels := by rw [nesting] at h; omega
    cases members with
    | nil => exact (moves_openObject hstack).trans (moves_emptyObject hstack)
    | cons m rest =>
      obtain ⟨name, x⟩ := m
      obtain ⟨hnames, -, hx, hrest⟩ := hplain
      obtain ⟨hlongx, hlongrest⟩ := Bool.or_eq_false_iff.mp hlong
      rw [nesting, nestingMembers] at h
      obtain ⟨last, hmembers⟩ := moves_memberTokens rest hrest hlongrest [(name, x)] name stack
        (by omega)
      have hall : (rest.reverse ++ [(name, x)]).reverse = (name, x) :: rest := by
        rw [List.reverse_append, List.reverse_reverse]
        rfl
      have hdistinct : ((rest.reverse ++ [(name, x)]).reverse.map Prod.fst).Nodup := by
        rw [hall]
        exact hnames
      have hclose := moves_closeObject hstack hdistinct last
      rw [hall] at hclose
      have hvalue := moves_tokensOf x hx hlongx (.object [] name :: stack)
        (by rw [List.length_cons]; omega)
      exact ((((moves_openObject hstack).trans (moves_firstName hstack name)).trans hvalue).trans
        hmembers).trans hclose

theorem moves_itemTokens (xs : List Json) (hplain : PlainItems xs)
    (hlong : anyLongInteger xs = false) (done : List Json) (stack : List Frame)
    (h : stack.length + (nestingItems xs + 1) ≤ levels) :
    Moves levels (.array done :: stack, .separator) (itemTokens xs)
      (.array (xs.reverse ++ done) :: stack, .separator) := by
  cases xs with
  | nil => exact fun ls hls length rest => by rw [List.map_eq_nil_iff.mp hls]; rfl
  | cons x rest =>
    obtain ⟨hx, hrest⟩ := hplain
    obtain ⟨hlongx, hlongrest⟩ := Bool.or_eq_false_iff.mp hlong
    rw [nestingItems] at h
    have hvalue := moves_tokensOf x hx hlongx (.array done :: stack)
      (by rw [List.length_cons]; omega)
    have hall := ((moves_comma_item (by omega) done).trans hvalue).trans
      (moves_itemTokens rest hrest hlongrest (x :: done) stack (by omega))
    rwa [List.reverse_cons, List.append_assoc]

/-- An object keeps the name of its last member until it is closed. -/
theorem moves_memberTokens (ms : List (Text × Json)) (hplain : PlainMembers ms)
    (hlong : anyLongMember ms = false) (done : List (Text × Json)) (name : Text)
    (stack : List Frame) (h : stack.length + (nestingMembers ms + 1) ≤ levels) :
    ∃ last, Moves levels (.object done name :: stack, .separator) (memberTokens ms)
      (.object (ms.reverse ++ done) last :: stack, .separator) := by
  cases ms with
  | nil => exact ⟨name, fun ls hls length rest => by rw [List.map_eq_nil_iff.mp hls]; rfl⟩
  | cons m rest =>
    obtain ⟨next, x⟩ := m
    obtain ⟨hx, hrest⟩ := hplain
    obtain ⟨hlongx, hlongrest⟩ := Bool.or_eq_false_iff.mp hlong
    rw [nestingMembers] at h
    have hstack : stack.length < levels := by omega
    obtain ⟨last, hmembers⟩ := moves_memberTokens rest hrest hlongrest ((next, x) :: done) next
      stack (by omega)
    have hvalue := moves_tokensOf x hx hlongx (.object done next :: stack)
      (by rw [List.length_cons]; omega)
    have hall := (((moves_comma_member hstack done name).trans
      (moves_name hstack done next)).trans hvalue).trans hmembers
    refine ⟨last, ?_⟩
    rwa [List.reverse_cons, List.append_assoc]

end

/-- The tokens of a plain document without long integers are read as the document. -/
theorem run_of_map_token {j : Json} (hplain : j.Plain) (hlong : j.hasLongInteger = false)
    (hlevels : j.nesting ≤ levels) {ls : List Located} (h : ls.map Located.token = tokensOf j)
    (length : Nat) : run levels length [] .value ls = .ok j := by
  have hmoves : Moves levels ([], .value) (tokensOf j) (finish j []) :=
    moves_tokensOf j hplain hlong [] ((Nat.zero_add _).trans_le hlevels)
  have hrun := hmoves ls h length []
  rw [List.append_nil] at hrun
  exact hrun

section

variable {isBlank : Char → Bool} {scan : Char → List Char → Option (Token × Nat)}
  {rest cs ds : List Char}

theorem cut_map {α β : Type} (f : α → β) (isBlank : β → Bool)
    (scan : β → List β → Option (Token × Nat)) (skip position : ℕ) (cs : List α) :
    cut isBlank scan skip position (cs.map f) =
      cut (fun c => isBlank (f c)) (fun c rest => scan (f c) (rest.map f)) skip position cs := by
  induction cs generalizing skip position with
  | nil => rfl
  | cons c cs ih =>
    cases skip with
    | succ skip => exact ih skip (position + 1)
    | zero =>
      rw [List.map_cons, cut, cut]
      simp only [ih]

theorem cut_skip (skip position : ℕ) (cs : List Char) :
    cut isBlank scan skip position cs = cut isBlank scan 0 (position + skip) (cs.drop skip) := by
  induction cs generalizing skip position with
  | nil => cases skip <;> rfl
  | cons c cs ih =>
    cases skip with
    | zero => rfl
    | succ skip =>
      rw [cut, ih, List.drop_succ_cons, add_assoc, add_comm 1 skip]

/-- In front of `rest`, the text is cut into tokens of these kinds. -/
def Cuts (isBlank : Char → Bool) (scan : Char → List Char → Option (Token × Nat))
    (rest cs : List Char) (ts : List Token) : Prop :=
  ∀ position, ∃ ls : List Located, ls.map Located.token = ts ∧
    cut isBlank scan 0 position (cs ++ rest) =
      ls ++ cut isBlank scan 0 (position + cs.length) rest

theorem Cuts.nil : Cuts isBlank scan rest [] [] := fun _ => ⟨[], rfl, rfl⟩

theorem Cuts.append (h : Cuts isBlank scan (ds ++ rest) cs ts) (h' : Cuts isBlank scan rest ds us) :
    Cuts isBlank scan rest (cs ++ ds) (ts ++ us) := by
  intro position
  obtain ⟨first, hfirst, hcut⟩ := h position
  obtain ⟨second, hsecond, hcut'⟩ := h' (position + cs.length)
  refine ⟨first ++ second, by rw [List.map_append, hfirst, hsecond], ?_⟩
  rw [List.append_assoc, hcut, hcut', List.append_assoc, List.length_append, add_assoc]

theorem Cuts.blanks (h : ∀ c ∈ cs, isBlank c = true) : Cuts isBlank scan rest cs [] := by
  induction cs with
  | nil => exact .nil
  | cons c cs ih =>
    obtain ⟨hc, hcs⟩ := List.forall_mem_cons.mp h
    intro position
    obtain ⟨ls, hls, hcut⟩ := ih hcs (position + 1)
    refine ⟨ls, hls, ?_⟩
    rw [List.cons_append, cut, if_pos hc, hcut, List.length_cons, add_assoc, add_comm 1]

/-- A single token and the text that it takes. -/
theorem Cuts.token {c : Char} (hc : isBlank c = false)
    (hscan : scan c (cs ++ rest) = some (t, cs.length + 1))
    (ht : ∀ problem offset, t ≠ .damaged problem offset) :
    Cuts isBlank scan rest (c :: cs) [t] := by
  intro position
  refine ⟨[⟨t, position⟩], rfl, ?_⟩
  rw [List.cons_append, cut, hc, hscan]
  simp only [Bool.false_eq_true, if_false]
  rw [cut_skip, Nat.add_sub_cancel, List.drop_left, List.length_cons, List.singleton_append,
    add_assoc, add_comm 1]

def punctuation : List (Char × Token) :=
  [ ('[', .openArray), (']', .closeArray), ('\x7b', .openObject), ('\x7d', .closeObject),
    (',', .comma), (':', .colon) ]

/-- What all ways of writing documents have in common: brackets, separators, numbers, and blanks
between them. -/
structure Lexis (isBlank : Char → Bool) (scan : Char → List Char → Option (Token × Nat)) :
    Prop where
  space : isBlank ' ' = true
  newline : isBlank '\n' = true
  mark : ∀ m ∈ punctuation, isBlank m.1 = false ∧ ∀ rest, scan m.1 rest = some (m.2, 1)
  digit : ∀ c, isDigit c = true →
    isBlank c = false ∧ ∀ rest, scan c rest = scanNumber false (c :: rest)
  minus : isBlank '-' = false ∧ ∀ c, isDigit c = true → ∀ rest,
    scan '-' (c :: rest) = (scanNumber true (c :: rest)).map fun (t, width) => (t, width + 1)

theorem Lexis.cuts_space (h : Lexis isBlank scan) : Cuts isBlank scan rest [' '] [] :=
  .blanks (List.forall_mem_singleton.mpr h.space)

/-- A line end and the blanks that indent the next line. -/
theorem Lexis.isBlank_indent (h : Lexis isBlank scan) (column : ℕ) :
    ∀ c ∈ '\n' :: List.replicate column ' ', isBlank c = true := by
  refine List.forall_mem_cons.mpr ⟨h.newline, fun c hc => ?_⟩
  rw [List.eq_of_mem_replicate hc]
  exact h.space

theorem Lexis.cuts_mark (h : Lexis isBlank scan) {c : Char} (hmark : (c, t) ∈ punctuation) :
    Cuts isBlank scan rest [c] [t] := by
  obtain ⟨hblank, hscan⟩ := h.mark (c, t) hmark
  have hdamaged : ∀ problem offset, t ≠ .damaged problem offset := by
    rintro problem offset rfl
    simp [punctuation] at hmark
  exact Cuts.token hblank (hscan rest) hdamaged

theorem Lexis.cuts_numeral (h : Lexis isBlank scan) (hcs : Numeral cs t) (hrest : Stops rest)
    (ht : ∀ problem offset, t ≠ .damaged problem offset) : Cuts isBlank scan rest cs [t] := by
  obtain ⟨negative, c, body, rfl, hc, hscan⟩ := hcs
  cases negative with
  | false =>
    obtain ⟨hblank, hdigit⟩ := h.digit c hc
    exact Cuts.token hblank ((hdigit _).trans (hscan rest hrest)) ht
  | true =>
    obtain ⟨hblank, hminus⟩ := h.minus
    refine Cuts.token hblank ?_ ht
    rw [List.cons_append, hminus c hc, hscan rest hrest]
    rfl

theorem Lexis.cuts_int (h : Lexis isBlank scan) (n : ℤ) (hrest : Stops rest) :
    Cuts isBlank scan rest (toString n).toList [integerToken n] :=
  h.cuts_numeral (numeral_int n) hrest (by simp [integerToken])

theorem Lexis.cuts_float (h : Lexis isBlank scan) {x : Binary64} (hx : x.isFinite)
    (hrest : Stops rest) : Cuts isBlank scan rest x.render.toList [.scalar (.float x)] :=
  h.cuts_numeral (numeral_float hx) hrest (by simp)

theorem Lexis.cuts_emptyArray (h : Lexis isBlank scan) :
    Cuts isBlank scan rest ['[', ']'] (tokensOf (.arr [])) := by
  have hopen : Cuts isBlank scan (']' :: rest) ['['] [.openArray] :=
    h.cuts_mark (by simp [punctuation])
  have hclose : Cuts isBlank scan rest [']'] [.closeArray] := h.cuts_mark (by simp [punctuation])
  exact hopen.append hclose

theorem Lexis.cuts_emptyObject (h : Lexis isBlank scan) :
    Cuts isBlank scan rest ['\x7b', '\x7d'] (tokensOf (.obj [])) := by
  have hopen : Cuts isBlank scan ('\x7d' :: rest) ['\x7b'] [.openObject] :=
    h.cuts_mark (by simp [punctuation])
  have hclose : Cuts isBlank scan rest ['\x7d'] [.closeObject] :=
    h.cuts_mark (by simp [punctuation])
  exact hopen.append hclose

/-- What is cut into the tokens of a plain document without long integers is read as the document.
-/
theorem run_of_cuts {j : Json} (hplain : j.Plain) (hlong : j.hasLongInteger = false)
    (hlevels : j.nesting ≤ levels) (h : Cuts isBlank scan [] cs (tokensOf j)) (length : ℕ) :
    run levels length [] .value (cut isBlank scan 0 0 cs) = .ok j := by
  obtain ⟨ls, hls, hcut⟩ := h 0
  rw [List.append_nil] at hcut
  rw [hcut, cut, List.append_nil]
  exact run_of_map_token hplain hlong hlevels hls length

end

end Bindery.Json
