import Bindery.Proofs.InterfaceText

/-!
# What an interface keeps of its document

The document of an interface that has been read is the one that was read: every member of every
object is there with its value, the declared ones first and the others in their order. The one thing
that is new is an empty list of parameters in a function that lists none. An interface that keeps a
value which goes too deep has no document.

`Listed` says this of the members of one object. `ParameterKept`, `FunctionKept` and `Kept` put it
together along the three levels of an interface; below them nothing is touched.
-/

namespace Bindery

/-- The same members, those under the declared names first and in the order of their declaration,
and all others in the order that they had. -/
def Listed (declared : List Text) (before after : List (Text × Json)) : Prop :=
  after.Perm before ∧ ∃ first, first.map Prod.fst = declared ∧
    after = first ++ before.filter fun m => m.1 ∉ declared

namespace Json

theorem plainMembers_iff {members : List (Text × Json)} :
    PlainMembers members ↔ ∀ m ∈ members, m.2.Plain := by
  induction members with
  | nil => simp [PlainMembers]
  | cons m rest ih => rw [PlainMembers, ih, List.forall_mem_cons]

theorem plainMembers_filter {members : List (Text × Json)} (h : PlainMembers members)
    (p : Text × Json → Bool) : PlainMembers (members.filter p) :=
  plainMembers_iff.mpr fun m hm => plainMembers_iff.mp h m (List.mem_filter.mp hm).1

theorem plain_of_member? {name : Text} {members : List (Text × Json)} {x : Json}
    (hmembers : PlainMembers members) (h : member? name members = some x) : x.Plain := by
  obtain ⟨m, hm, rfl⟩ := Option.map_eq_some_iff.mp h
  exact plainMembers_iff.mp hmembers m (List.mem_of_find?_eq_some hm)

/-- Where a declared member is set, the others are as they were. -/
theorem filter_setMember {name : Text} {declared : List Text} (h : name ∈ declared) (x : Json)
    (members : List (Text × Json)) :
    (setMember name x members).filter (fun m => m.1 ∉ declared) =
      members.filter fun m => m.1 ∉ declared := by
  induction members with
  | nil => simp [setMember, h]
  | cons m rest ih =>
    unfold setMember
    by_cases hname : m.1 = name
    · simp [hname, h]
    · rw [if_neg hname, List.filter_cons, List.filter_cons, ih]

theorem filter_ne_of_not_mem {name : Text} {members : List (Text × Json)}
    (h : name ∉ members.map Prod.fst) : (members.filter fun m => m.1 ≠ name) = members :=
  List.filter_eq_self.mpr fun _ hm => decide_eq_true fun heq => h (heq ▸ List.mem_map_of_mem hm)

/-- An object consists of a member of it and of the members under other names. -/
theorem perm_cons_filter {name : Text} {members : List (Text × Json)} {x : Json}
    (hnames : (members.map Prod.fst).Nodup) (h : member? name members = some x) :
    ((name, x) :: members.filter fun m => m.1 ≠ name).Perm members := by
  induction members with
  | nil => cases h
  | cons m rest ih =>
    obtain ⟨hm, hrest⟩ := List.nodup_cons.mp hnames
    by_cases hname : m.1 = name
    · obtain rfl : m.2 = x := by simpa [member?, hname] using h
      subst hname
      rw [List.filter_cons_of_neg (by simp), filter_ne_of_not_mem hm]
    · have hother : member? name rest = some x := by simpa [member?, hname] using h
      rw [List.filter_cons_of_pos (by simpa using hname)]
      exact (List.Perm.swap m (name, x) _).trans ((ih hrest hother).cons m)

theorem member?_filter_ne {name other : Text} (h : other ≠ name)
    (members : List (Text × Json)) :
    member? other (members.filter fun m => m.1 ≠ name) = member? other members := by
  rw [member?, member?, List.find?_filter]
  congr 2
  funext m
  by_cases hother : m.1 = other
  · simp [hother, h]
  · simp [hother]

end Json

/-- Two declared members and the others behind them. -/
theorem listed_pair {a b : Text} {members : List (Text × Json)} {x y : Json} (hab : a ≠ b)
    (hnames : (members.map Prod.fst).Nodup) (hx : Json.member? a members = some x)
    (hy : Json.member? b members = some y) :
    Listed [a, b] members ((a, x) :: (b, y) :: members.filter fun m => m.1 ∉ [a, b]) := by
  refine ⟨?_, [(a, x), (b, y)], rfl, rfl⟩
  let others := members.filter fun m => m.1 ≠ a
  have hothers : (others.map Prod.fst).Nodup :=
    (List.filter_sublist.map Prod.fst).nodup hnames
  have hsecond : Json.member? b others = some y :=
    (Json.member?_filter_ne hab.symm members).trans hy
  have hrest : (others.filter fun m => m.1 ≠ b) = members.filter fun m => m.1 ∉ [a, b] := by
    rw [List.filter_filter]
    congr 1
    funext m
    simp [Bool.and_comm]
  have hperm := Json.perm_cons_filter hothers hsecond
  rw [hrest] at hperm
  exact (hperm.cons (a, x)).trans (Json.perm_cons_filter hnames hx)

theorem Value.member?_ofJsonMembers (name : Text) (members : List (Text × Json)) :
    Json.member? name (ofJsonMembers members) = (Json.member? name members).map ofJson := by
  induction members with
  | nil => rfl
  | cons m rest ih =>
    obtain ⟨other, x⟩ := m
    by_cases hname : other = name
    · simp [ofJsonMembers, Json.member?, hname]
    · simpa [ofJsonMembers, Json.member?, hname] using ih

namespace Checked

variable {α : Type}

/-- What a document holds where a text is due. -/
theorem text_ofJson_eq_ok {place : List Step} {j : Json} {t : Text}
    (h : text place (.ofJson j) = .ok t) : j = .str t := by
  cases j with
  | str t => cases h; rfl
  | null | bool _ | int _ | float _ | arr _ | obj _ => cases h

theorem object_ofJson_eq_ok {place : List Step} {model : String} {j : Json}
    {check : List (Text × Value) → Checked α} {x : α}
    (h : object place model (.ofJson j) (.named place check) = .ok x) :
    ∃ members, j = .obj members ∧ check (Value.ofJsonMembers members) = .ok x := by
  cases j with
  | obj members => exact ⟨members, rfl, (named_eq_ok h).2⟩
  | null | bool _ | int _ | float _ | str _ | arr _ => cases h

theorem items_ofJson_eq_ok {place : List Step} {check : List Step → Value → Checked α} {j : Json}
    {xs : List α} (h : items place check (.ofJson j) = .ok xs) :
    ∃ js, j = .arr js ∧
      all (fun i => check (place ++ [.index i])) 0 (Value.ofJsonItems js) = .ok xs := by
  cases j with
  | arr js => exact ⟨js, rfl, h⟩
  | null | bool _ | int _ | float _ | str _ | obj _ => cases h

theorem member_ofJson_eq_ok {place : List Step} {name : String}
    {check : List Step → Value → Checked α} {members : List (Text × Json)} {x : α}
    (h : member place name check (Value.ofJsonMembers members) = .ok x) :
    ∃ j, Json.member? name members = some j ∧
      check (place ++ [.name name]) (.ofJson j) = .ok x := by
  rw [member, Value.member?_ofJsonMembers] at h
  cases hj : Json.member? name members with
  | none => simp [hj, violation] at h
  | some j => exact ⟨j, rfl, by simpa [hj] using h⟩

theorem memberD_ofJson_eq_ok {place : List Step} {name : String}
    {check : List Step → Value → Checked α} {default : α} {members : List (Text × Json)} {x : α}
    (h : memberD place name check default (Value.ofJsonMembers members) = .ok x) :
    Json.member? name members = none ∧ x = default ∨
      ∃ j, Json.member? name members = some j ∧
        check (place ++ [.name name]) (.ofJson j) = .ok x := by
  rw [memberD, Value.member?_ofJsonMembers] at h
  cases hj : Json.member? name members with
  | none =>
    rw [hj] at h
    cases h
    exact .inl ⟨rfl, rfl⟩
  | some j => exact .inr ⟨j, rfl, by simpa [hj] using h⟩

end Checked

namespace Abi

theorem extraOf_ofJson (declared : List Text) (members : List (Text × Json)) :
    extraOf declared (Value.ofJsonMembers members) =
      Value.ofJsonMembers (members.filter fun m => m.1 ∉ declared) := by
  induction members with
  | nil => rfl
  | cons m rest ih =>
    rw [extraOf] at ih ⊢
    rw [Value.ofJsonMembers, List.filter_cons, List.filter_cons, ih]
    by_cases hm : m.1 ∈ declared
    · simp [hm]
    · simp [hm, Value.ofJsonMembers]

/-- The members that are kept are written as they were, if they do not go too deep. -/
theorem extraJson_extraOf {declared : List Text} {members : List (Text × Json)}
    (hwhole : ∀ m ∈ members, m.1.isWhole) (h : Json.PlainMembers members)
    (hkept : ∀ m ∈ extraOf declared (Value.ofJsonMembers members), m.2.depth ≤ nestingLimit) :
    extraJson (extraOf declared (Value.ofJsonMembers members)) =
      .ok (members.filter fun m => m.1 ∉ declared) := by
  rw [extraOf_ofJson] at hkept ⊢
  exact Value.toJsonMembers_ofJsonMembers _ (fun m hm => hwhole m (List.mem_filter.mp hm).1)
    (Json.plainMembers_filter h _) (Value.depthMembers_le.mpr hkept)

inductive ParameterKept : Json → Json → Prop
  | members {before after : List (Text × Json)} (h : Listed ["name", "type"] before after) :
    ParameterKept (.obj before) (.obj after)

/-- The document of a function, with its name and its parameters in front. Where no parameters are
listed, an empty list is. -/
inductive FunctionKept : Json → Json → Prop
  | members {before after : List (Text × Json)} {parameters kept : List Json}
    (hparameters : (Json.member? "parameters" before).getD (.arr []) = .arr parameters)
    (hkept : List.Forall₂ ParameterKept parameters kept)
    (h : Listed ["name", "parameters"] (Json.setMember "parameters" (.arr kept) before) after) :
    FunctionKept (.obj before) (.obj after)

inductive Kept : Json → Json → Prop
  | members {before after : List (Text × Json)} {functions kept : List Json}
    (hfunctions : Json.member? "functions" before = some (.arr functions))
    (hkept : List.Forall₂ FunctionKept functions kept)
    (h : Listed ["hash", "functions"] (Json.setMember "functions" (.arr kept) before) after) :
    Kept (.obj before) (.obj after)

/-- What passes the check and keeps no value that goes too deep is written, and what is written is
what the document becomes. -/
def Keeps {α : Type} (check : List Step → Value → Checked α) (within : α → Prop)
    (write : α → Except Failure Json) (kept : Json → Json → Prop) : Prop :=
  ∀ place d x, d.Plain → check place (.ofJson d) = .ok x → within x →
    ∃ j, write x = .ok j ∧ kept d j

theorem Keeps.all {α : Type} {check : List Step → Value → Checked α} {within : α → Prop}
    {write : α → Except Failure Json} {kept : Json → Json → Prop}
    (h : Keeps check within write kept) {place : List Step} {start : ℕ} {ds : List Json}
    {xs : List α} (hplain : Json.PlainItems ds)
    (hxs : Checked.all (fun i => check (place ++ [.index i])) start (Value.ofJsonItems ds)
      = .ok xs) (hwithin : ∀ x ∈ xs, within x) :
    ∃ js, xs.mapM write = .ok js ∧ List.Forall₂ kept ds js := by
  induction ds generalizing start xs with
  | nil =>
    cases hxs
    exact ⟨[], rfl, .nil⟩
  | cons d ds ih =>
    obtain ⟨⟨x, rest⟩, hboth, rfl⟩ := map_eq_ok.mp hxs
    obtain ⟨hx, hrest⟩ := Checked.both_eq_ok.mp hboth
    obtain ⟨hfirst, hwithin⟩ := List.forall_mem_cons.mp hwithin
    obtain ⟨j, hj, hkept⟩ := h _ d x hplain.1 hx hfirst
    obtain ⟨js, hjs, hall⟩ := ih hplain.2 hrest hwithin
    refine ⟨j :: js, ?_, .cons hkept hall⟩
    rw [List.mapM_cons, hj, hjs]
    rfl

theorem Parameter.keeps :
    Keeps Parameter.check (KeptWithin nestingLimit) Parameter.toJson ParameterKept := by
  intro place d p hplain hp hwithin
  rw [Parameter.check] at hp
  obtain ⟨members, rfl, hmembers⟩ := Checked.object_ofJson_eq_ok hp
  obtain ⟨⟨name, type⟩, hboth, rfl⟩ := map_eq_ok.mp hmembers
  obtain ⟨hname, htype⟩ := Checked.both_eq_ok.mp hboth
  obtain ⟨jname, hjname, hname⟩ := Checked.member_ofJson_eq_ok hname
  obtain ⟨jtype, hjtype, htype⟩ := Checked.member_ofJson_eq_ok htype
  obtain rfl := Checked.text_ofJson_eq_ok hname
  obtain rfl := Checked.text_ofJson_eq_ok htype
  refine ⟨_, ?_, .members (listed_pair (by decide) hplain.1 hjname hjtype)⟩
  rw [Parameter.toJson, extraJson_extraOf hplain.2.1 hplain.2.2 hwithin]
  rfl

/-- The second declared member is written anew, the first one as it is. -/
theorem listed_setMember {a b : Text} {members : List (Text × Json)} {x y : Json}
    (hab : a ≠ b) (hnames : (members.map Prod.fst).Nodup)
    (hx : Json.member? a members = some x) :
    Listed [a, b] (Json.setMember b y members)
      ((a, x) :: (b, y) :: members.filter fun m => m.1 ∉ [a, b]) := by
  have hfilter := Json.filter_setMember (show b ∈ [a, b] by simp) y members
  have hlisted := listed_pair hab (Json.nodup_setMember hnames b y)
    ((Json.member?_setMember_of_ne hab y members).trans hx)
    (Json.member?_setMember_self b y members)
  rwa [hfilter] at hlisted

theorem Function.keeps :
    Keeps Function.check (KeptWithin nestingLimit) Function.toJson FunctionKept := by
  intro place d f hplain hf hwithin
  rw [Function.check] at hf
  obtain ⟨members, rfl, hmembers⟩ := Checked.object_ofJson_eq_ok hf
  obtain ⟨⟨name, parameters⟩, hboth, rfl⟩ := map_eq_ok.mp hmembers
  obtain ⟨hname, hparameters⟩ := Checked.both_eq_ok.mp hboth
  obtain ⟨jname, hjname, hname⟩ := Checked.member_ofJson_eq_ok hname
  obtain rfl := Checked.text_ofJson_eq_ok hname
  have hread : ∃ ds, (Json.member? "parameters" members).getD (.arr []) = .arr ds ∧
      ∃ js, parameters.mapM Parameter.toJson = .ok js ∧ List.Forall₂ ParameterKept ds js := by
    rcases Checked.memberD_ofJson_eq_ok hparameters with ⟨hnone, rfl⟩ | ⟨j, hj, hitems⟩
    · exact ⟨[], by rw [hnone]; rfl, [], rfl, .nil⟩
    · obtain ⟨ds, rfl, hall⟩ := Checked.items_ofJson_eq_ok hitems
      have hds : Json.PlainItems ds := Json.plain_of_member? hplain.2.2 hj
      exact ⟨ds, by rw [hj]; rfl, Parameter.keeps.all hds hall hwithin.parameters⟩
  obtain ⟨ds, hds, js, hjs, hkept⟩ := hread
  refine ⟨_, ?_, .members hds hkept (listed_setMember (by decide) hplain.1 hjname)⟩
  rw [Function.toJson, hjs, ok_bind, extraJson_extraOf hplain.2.1 hplain.2.2 hwithin.extra]
  rfl

theorem exists_toJson_kept {d : Json} {abi : Abi} (hplain : d.Plain)
    (h : ofValue (.ofJson d) = .ok abi) (hwithin : abi.KeptWithin nestingLimit) :
    ∃ j, abi.toJson = .ok j ∧ Kept d j := by
  cases d with
  | null | bool _ | int _ | float _ | str _ | arr _ => cases h
  | obj members =>
    obtain ⟨-, h⟩ := Checked.named_eq_ok (mapError_eq_ok.mp h)
    obtain ⟨⟨hash, functions⟩, hboth, rfl⟩ := map_eq_ok.mp h
    obtain ⟨hhash, hfunctions⟩ := Checked.both_eq_ok.mp hboth
    obtain ⟨jhash, hjhash, hhash⟩ := Checked.member_ofJson_eq_ok hhash
    obtain rfl := Checked.text_ofJson_eq_ok hhash
    obtain ⟨jfunctions, hjfunctions, hitems⟩ := Checked.member_ofJson_eq_ok hfunctions
    obtain ⟨ds, rfl, hall⟩ := Checked.items_ofJson_eq_ok hitems
    obtain ⟨js, hjs, hkept⟩ :=
      Function.keeps.all (Json.plain_of_member? hplain.2.2 hjfunctions) hall hwithin.functions
    refine ⟨_, ?_, .members hjfunctions hkept (listed_setMember (by decide) hplain.1 hjhash)⟩
    rw [toJson, hjs, ok_bind, extraJson_extraOf hplain.2.1 hplain.2.2 hwithin.extra]
    rfl

/-- An interface that has been read is written as the document that was read: no member is lost,
altered or new, but for an empty list of parameters where a function lists none; declared members
stand in front, and all others in their order. It is written just if no value that it keeps goes too
deep. -/
theorem toJson_kept {d : Json} {abi : Abi} (hplain : d.Plain)
    (h : ofValue (.ofJson d) = .ok abi) :
    (∀ j, abi.toJson = .ok j → Kept d j) ∧
      ((∃ j, abi.toJson = .ok j) ↔ abi.KeptWithin nestingLimit) := by
  have hwritten (hwithin : abi.KeptWithin nestingLimit) := exists_toJson_kept hplain h hwithin
  constructor
  · intro j hj
    obtain ⟨j', hj', hkept⟩ := hwritten (keptWithin_of_toJson hj)
    cases hj.symm.trans hj'
    exact hkept
  · constructor
    · rintro ⟨j, hj⟩
      exact keptWithin_of_toJson hj
    · intro hwithin
      obtain ⟨j, hj, -⟩ := hwritten hwithin
      exact ⟨j, hj⟩

/-- Declared members behind others, names that mean something elsewhere, and a function without
parameters. -/
def scatteredDocument : Json :=
  .obj
    [ ("code_hash", .null),
      ("functions", .arr
        [ .obj [("kind", .str "Int"), ("name", .str "Ping")],
          .obj
            [ ("parameters", .arr
                [ .obj [("type", .str "Hash160"), ("parameters", .obj []), ("name", .str "owner")],
                  .obj
                    [ ("name", .str "owner"),
                      ("hash", .arr [.int (-1), .float ⟨0x3ff8000000000000⟩]),
                      ("type", .str "Integer") ] ]),
              ("to_dict", .obj [("b", .bool true), ("a", .obj [("name", .str "")])]),
              ("name", .str "") ] ]),
      ("name", .str "hash"), ("hash", .str "0x00") ]

theorem toJson_kept_scattered :
    scatteredDocument.Plain ∧ ∃ abi, ofValue (.ofJson scatteredDocument) = .ok abi ∧
      ∃ j, abi.toJson = .ok j ∧ Kept scatteredDocument j ∧ abi.KeptWithin nestingLimit := by
  have hplain : scatteredDocument.Plain := by
    simp [scatteredDocument, Json.Plain, Json.PlainItems, Json.PlainMembers]
    decide
  have hread : (ofValue (.ofJson scatteredDocument) >>= toJson).isOk := by decide +kernel
  obtain ⟨j, hj⟩ := exists_eq_ok hread
  obtain ⟨abi, habi, hj⟩ := bind_eq_ok.mp hj
  obtain ⟨hkept, hwithin⟩ := toJson_kept hplain habi
  exact ⟨hplain, abi, habi, j, hj, hkept j hj, hwithin.mp ⟨j, hj⟩⟩

end Abi

end Bindery
