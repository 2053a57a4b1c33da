import Bindery.Binding.Source
import Bindery.Proofs.Building

/-!
# Which function a method stands for

A binding defines one method per function, and a later definition replaces an earlier one of the
same method name. The call that a method records is resolved by the function's own name, and there
the first function of that name is taken. The two agree as long as the first function of a name has
the parameters of the one whose method stays.
-/

namespace Bindery

namespace Abi

def FirstNamed (abi : Abi) (name : Text) (f : Function) : Prop :=
  ∃ before after, abi.functions = before ++ f :: after ∧ f.name = name ∧
    ∀ g ∈ before, g.name ≠ name

theorem function?_eq_some_iff {abi : Abi} {name : Text} {f : Function} :
    abi.function? name = some f ↔ abi.FirstNamed name f := by
  simp only [function?, FirstNamed, List.find?_eq_some_iff_append, decide_eq_true_eq,
    Bool.not_eq_true', decide_eq_false_iff_not]
  constructor
  · rintro ⟨hname, before, after, hsplit, hbefore⟩
    exact ⟨before, after, hsplit, hname, hbefore⟩
  · rintro ⟨before, after, hsplit, hname, hbefore⟩
    exact ⟨hname, before, after, hsplit, hbefore⟩

theorem exists_firstNamed {abi : Abi} {f : Function} (h : f ∈ abi.functions) :
    ∃ g, abi.FirstNamed f.name g := by
  have hfound : (abi.function? f.name).isSome :=
    List.find?_isSome.mpr ⟨f, h, decide_eq_true rfl⟩
  obtain ⟨g, hg⟩ := Option.isSome_iff_exists.mp hfound
  exact ⟨g, function?_eq_some_iff.mp hg⟩

theorem FirstNamed.name_eq {abi : Abi} {name : Text} {f : Function}
    (h : abi.FirstNamed name f) : f.name = name := by
  obtain ⟨_, _, _, hname, _⟩ := h
  exact hname

end Abi

namespace Binding

/-- The definition of a method, which replaces what was defined under its name. -/
def define (methods : String → Option Abi.Function) (f : Abi.Function) :
    String → Option Abi.Function :=
  fun name => if name = methodName f.name then some f else methods name

def methods (abi : Abi) : String → Option Abi.Function :=
  abi.functions.foldl define fun _ => none

theorem foldl_define_of_ne {fs : List Abi.Function} {name : String}
    (h : ∀ f ∈ fs, methodName f.name ≠ name) (ms : String → Option Abi.Function) :
    fs.foldl define ms name = ms name := by
  induction fs generalizing ms with
  | nil => rfl
  | cons f fs ih =>
    obtain ⟨hf, hfs⟩ := List.forall_mem_cons.mp h
    rw [List.foldl_cons, ih hfs, define, if_neg (Ne.symm hf)]

theorem methods_of_last {abi : Abi} {f : Abi.Function} {before after : List Abi.Function}
    (hsplit : abi.functions = before ++ f :: after)
    (hlast : ∀ g ∈ after, methodName g.name ≠ methodName f.name) :
    methods abi (methodName f.name) = some f := by
  rw [methods, hsplit, List.foldl_append, List.foldl_cons, foldl_define_of_ne hlast, define,
    if_pos rfl]

/-- The call that a method of the binding of a contract records. -/
def recorded? (c : Contract) (method : String) (arguments : List Value) : Option Call :=
  (methods c.abi method).map fun f => ⟨c, f.name, arguments⟩

end Binding

namespace Call

theorem resolve_eq_ok_iff {call : Call} {f : Abi.Function} :
    call.resolve = .ok f ↔ call.contract.abi.FirstNamed call.function f := by
  rw [← Abi.function?_eq_some_iff, resolve]
  cases call.contract.abi.function? call.function <;> simp

theorem argument_congr {p q : Abi.Parameter} (hname : p.name = q.name) (hkind : p.kind = q.kind)
    (v : Value) : argument p v = argument q v := by
  rw [argument, argument, hname, hkind]

def argumentsFor (ps : List Abi.Parameter) (vs : List Value) : Except Failure (List Argument) :=
  (ps.zip vs).mapM fun (p, v) => argument p v

theorem argumentsFor_cons (p : Abi.Parameter) (ps : List Abi.Parameter) (v : Value)
    (vs : List Value) :
    argumentsFor (p :: ps) (v :: vs) = do
      let a ← argument p v
      return a :: (← argumentsFor ps vs) := by
  rw [argumentsFor, List.zip_cons_cons, List.mapM_cons]
  rfl

theorem argumentsFor_congr {ps qs : List Abi.Parameter}
    (h : ps.map (fun p => (p.name, p.kind)) = qs.map (fun p => (p.name, p.kind)))
    (vs : List Value) : argumentsFor ps vs = argumentsFor qs vs := by
  induction ps generalizing qs vs with
  | nil =>
    cases qs with
    | nil => rfl
    | cons q qs => simp at h
  | cons p ps ih =>
    cases qs with
    | nil => simp at h
    | cons q qs =>
      simp only [List.map_cons, List.cons.injEq, Prod.mk.injEq] at h
      obtain ⟨⟨hname, hkind⟩, hrest⟩ := h
      cases vs with
      | nil => rfl
      | cons v vs =>
        rw [argumentsFor_cons, argumentsFor_cons, ih hrest, argument_congr hname hkind]

theorem arguments?_of_length_eq {call : Call} {f : Abi.Function}
    (h : call.arguments.length = f.parameters.length) :
    call.arguments? f = argumentsFor f.parameters call.arguments := if_pos h

theorem arguments?_of_length_ne {call : Call} {f : Abi.Function}
    (h : call.arguments.length ≠ f.parameters.length) :
    call.arguments? f =
      .error (.parameter (.arity f.name f.parameters.length call.arguments.length)) := if_neg h

theorem argument_eq_ok {p : Abi.Parameter} {v : Value} {a : Argument}
    (h : argument p v = .ok a) : a.name = p.name ∧ a.kind = p.kind := by
  unfold argument at h
  split at h
  · obtain ⟨⟨tag, content⟩, -, h⟩ := bind_eq_ok.mp h
    obtain ⟨text, -, h⟩ := bind_eq_ok.mp h
    cases h
    exact ⟨rfl, rfl⟩
  · cases h
    exact ⟨rfl, rfl⟩

theorem argument_ne_parameter_error (p : Abi.Parameter) (v : Value) (e : ParameterError) :
    argument p v ≠ .error (.parameter e) := by
  intro h
  unfold argument at h
  split at h
  · rcases bind_eq_error.mp h with htag | ⟨⟨tag, content⟩, -, h⟩
    · unfold ByteArray.tag at htag
      split at htag <;> cases htag
    rcases bind_eq_error.mp h with htext | ⟨text, -, h⟩
    · unfold ByteArray.hexText at htext
      split at htext
      · split at htext <;> cases htext
      · cases htext
    · cases h
  · cases h

theorem argumentsFor_ne_parameter_error (ps : List Abi.Parameter) (vs : List Value)
    (e : ParameterError) : argumentsFor ps vs ≠ .error (.parameter e) := by
  intro h
  obtain ⟨⟨p, v⟩, -, hargument⟩ := exists_of_mapM_eq_error h
  exact argument_ne_parameter_error p v e hargument

theorem argumentsFor_eq_ok {ps : List Abi.Parameter} {vs : List Value} {arguments : List Argument}
    (hlength : vs.length = ps.length) (h : argumentsFor ps vs = .ok arguments) :
    arguments.map (fun a => (a.name, a.kind)) = ps.map fun p => (p.name, p.kind) := by
  induction ps generalizing vs arguments with
  | nil =>
    cases h
    rfl
  | cons p ps ih =>
    cases vs with
    | nil => simp at hlength
    | cons v vs =>
      rw [argumentsFor_cons] at h
      obtain ⟨a, ha, h⟩ := bind_eq_ok.mp h
      obtain ⟨rest, hrest, h⟩ := bind_eq_ok.mp h
      cases h
      obtain ⟨hname, hkind⟩ := argument_eq_ok ha
      rw [List.map_cons, List.map_cons, ih (Nat.succ.inj hlength) hrest, hname, hkind]

/-- A call whose values are read by parameters of the names and kinds of those of `f`, in order:
they are never refused for their number, and in a transaction each has conformed to its kind. -/
structure ReadAs (call : Call) (f : Abi.Function) : Prop where
  resolves : ∃ g, call.resolve = .ok g ∧ g.signature = f.signature ∧
    call.arguments? g = argumentsFor f.parameters call.arguments
  counted : ∀ g e, call.resolve = .ok g → call.arguments? g ≠ .error (.parameter e)
  conforms : ∀ levels options nonce tx, call.transaction levels options nonce = .ok tx →
    tx.function = f.name ∧ tx.arguments.map (fun a => (a.name, a.kind)) = f.signature ∧
      ∃ data, tx.arguments.mapM (Argument.datum levels) = .ok data

theorem readAs_of_resolve {call : Call} {f g : Abi.Function} (hg : call.resolve = .ok g)
    (hname : g.name = f.name) (hsignature : g.signature = f.signature)
    (hlength : call.arguments.length = f.parameters.length) : call.ReadAs f := by
  have hlength' : call.arguments.length = g.parameters.length := by
    rw [hlength]
    simpa [Abi.Function.signature] using (congrArg List.length hsignature).symm
  have harguments : call.arguments? g = argumentsFor f.parameters call.arguments :=
    (arguments?_of_length_eq hlength').trans (argumentsFor_congr hsignature _)
  refine ⟨⟨g, hg, hsignature, harguments⟩, fun g' e hg' => ?_,
    fun levels options nonce tx htx => ?_⟩
  · obtain rfl : g = g' := Except.ok.inj (hg.symm.trans hg')
    rw [harguments]
    exact argumentsFor_ne_parameter_error _ _ e
  · obtain ⟨g', arguments, hg', hread, hfunction, rfl, hdata⟩ := transaction_eq_ok htx
    obtain rfl : g = g' := Except.ok.inj (hg.symm.trans hg')
    rw [harguments] at hread
    exact ⟨hfunction.trans hname, argumentsFor_eq_ok hlength hread, hdata⟩

theorem transaction_of_length_ne {call : Call} {g : Abi.Function} (hg : call.resolve = .ok g)
    (h : call.arguments.length ≠ g.parameters.length) (levels : ℕ) (options : Options)
    (nonce : Value) : call.transaction levels options nonce =
      .error (.parameter (.arity g.name g.parameters.length call.arguments.length)) := by
  have hread := arguments?_of_length_ne h
  rw [transaction, hg]
  change (call.arguments? g >>= _) = _
  rw [hread]
  rfl

end Call

namespace Binding

/-- The call of a method that stays is resolved to the first function of its own function's name,
and is read by the method's parameters just when that one has their names and kinds. If it has
another number of parameters, every such call is refused. -/
theorem recorded_readAs_iff {c : Contract} {f : Abi.Function} {before after : List Abi.Function}
    {vs : List Value} (hsplit : c.abi.functions = before ++ f :: after)
    (hlast : ∀ h ∈ after, methodName h.name ≠ methodName f.name)
    (hlength : vs.length = f.parameters.length) :
    recorded? c (methodName f.name) vs = some ⟨c, f.name, vs⟩ ∧
      ∃ g, c.abi.FirstNamed f.name g ∧ Call.resolve ⟨c, f.name, vs⟩ = .ok g ∧
        (Call.ReadAs ⟨c, f.name, vs⟩ f ↔ g.signature = f.signature) ∧
        (g.parameters.length ≠ f.parameters.length → ∀ levels options nonce,
          Call.transaction levels ⟨c, f.name, vs⟩ options nonce = .error (.parameter
            (.arity f.name g.parameters.length f.parameters.length))) := by
  have hmem : f ∈ c.abi.functions := by
    rw [hsplit]
    exact List.mem_append_right before List.mem_cons_self
  obtain ⟨g, hfirst⟩ := Abi.exists_firstNamed hmem
  have hresolve : Call.resolve ⟨c, f.name, vs⟩ = .ok g := Call.resolve_eq_ok_iff.mpr hfirst
  have hrecorded : recorded? c (methodName f.name) vs = some ⟨c, f.name, vs⟩ := by
    rw [recorded?, methods_of_last hsplit hlast, Option.map_some]
  refine ⟨hrecorded, g, hfirst, hresolve, ⟨fun hread => ?_, fun hsignature => ?_⟩, ?_⟩
  · obtain ⟨g', hg', hsignature, -⟩ := hread.resolves
    obtain rfl : g = g' := Except.ok.inj (hresolve.symm.trans hg')
    exact hsignature
  · exact Call.readAs_of_resolve hresolve hfirst.name_eq hsignature hlength
  · intro hcount levels options nonce
    have hrefused := Call.transaction_of_length_ne hresolve (hlength.trans_ne hcount.symm) levels
      options nonce
    rw [hrefused, hfirst.name_eq, hlength]

/-- Names that differ and give one method name: the method of the second function stays, and is read
by its own parameters. -/
theorem recorded_readAs_colliding_names :
    let f : Abi.Function := ⟨"a_b", [⟨"x", "Int", []⟩], []⟩
    let c : Contract := ⟨⟨"00", [⟨"a-b", [], []⟩, f], []⟩, none⟩
    recorded? c "a_bTx" [.int 1] = some ⟨c, "a_b", [.int 1]⟩ ∧
      Call.ReadAs ⟨c, "a_b", [.int 1]⟩ f := by
  intro f c
  have hmethod : methodName "a_b" = "a_bTx" := by decide +kernel
  obtain ⟨hrecorded, g, -, hresolve, hread, -⟩ := @recorded_readAs_iff c f [⟨"a-b", [], []⟩] []
    [.int 1] rfl (fun _ h => absurd h List.not_mem_nil) rfl
  have hown : Call.resolve ⟨c, "a_b", [.int 1]⟩ = .ok f := rfl
  obtain rfl : f = g := Except.ok.inj (hown.symm.trans hresolve)
  exact ⟨hmethod ▸ hrecorded, hread.mpr rfl⟩

/-- A name that is repeated with other parameters: the method of the second function stays, and its
calls are refused because the first function takes another number of arguments. -/
theorem recorded_refused_repeated_name :
    let document := Value.dict
      [ ("hash", .text "00"),
        ("functions", .list
          [ .dict [("name", .text "Query"), ("parameters", .list
              [.dict [("name", .text "a"), ("type", .text "String")]])],
            .dict [("name", .text "Query"), ("parameters", .list [])] ]) ]
    let f : Abi.Function := ⟨"Query", [], []⟩
    let g : Abi.Function := ⟨"Query", [⟨"a", "String", []⟩], []⟩
    let c : Contract := ⟨⟨"00", [g, f], []⟩, none⟩
    Abi.parse 960 document = .ok c.abi ∧ methods c.abi (methodName f.name) = some f ∧
      recorded? c (methodName f.name) [] = some ⟨c, f.name, []⟩ ∧
      Call.resolve ⟨c, f.name, []⟩ = .ok g ∧ g.signature ≠ f.signature ∧
      Call.arguments? ⟨c, f.name, []⟩ g = .error (.parameter (.arity "Query" 1 0)) := by
  intro document f g c
  have hmethods : methods c.abi (methodName f.name) = some f :=
    methods_of_last (show c.abi.functions = [g] ++ f :: [] from rfl)
      fun _ h => absurd h List.not_mem_nil
  refine ⟨rfl, hmethods, ?_, rfl, List.cons_ne_nil _ _, rfl⟩
  rw [recorded?, hmethods, Option.map_some]

end Binding

end Bindery
