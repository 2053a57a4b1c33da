import Bindery.Node.Session
import Bindery.Proofs.NestingLevels
import Bindery.Proofs.NodeAddress

/-!
# Outcomes of requests to a node

A request to a node with a well-formed address is sent once and its outcome is classified, at any
place in a session: the document of a response is returned, and anything else is an error of
submission for a transaction and of the network for a query. The exceptions are a request whose
address is refused, be it for a hash that has no encoding, which is not sent at all, and a response
of success that goes too deep to be read.
-/

namespace Bindery.Node

def Answers (levels : ℕ) (o : Outcome) (j : Json) : Prop :=
  ∃ status body, o = .response status body ∧ 200 ≤ status ∧ status < 300 ∧
    Json.parseBytes levels body = .ok j

/-- The body of a response of success has more containers open at one time than there are levels. -/
def Overdeep (levels : ℕ) (o : Outcome) : Prop :=
  ∃ status body ps, o = .response status body ∧ 200 ≤ status ∧ status < 300 ∧
    Text.decode body = .ok ps ∧ Json.GoesDeeper levels ps

variable {levels : ℕ}

theorem Answers.unique {o : Outcome} {j k : Json} (hj : Answers levels o j)
    (hk : Answers levels o k) : j = k := by
  obtain ⟨status, body, rfl, -, -, hj⟩ := hj
  obtain ⟨_, _, heq, -, -, hk⟩ := hk
  cases heq
  rw [hj] at hk
  exact Except.ok.inj hk

theorem parseBytes_of_goesDeeper {body : Bytes} {ps : List CodePoint}
    (hps : Text.decode body = .ok ps) (h : Json.GoesDeeper levels ps) :
    ∃ c, Json.parseBytes levels body = .error (.tooDeep c) := by
  obtain ⟨c, hc⟩ := Json.exists_parsePoints_eq_tooDeep_iff.mpr h
  refine ⟨c, ?_⟩
  rw [Json.parseBytes, hps]
  dsimp only
  rw [Json.documentOfPoints, hc]
  rfl

theorem exists_goesDeeper_of_parseBytes {body : Bytes} {c : Json.Container}
    (h : Json.parseBytes levels body = .error (.tooDeep c)) :
    ∃ ps, Text.decode body = .ok ps ∧ Json.GoesDeeper levels ps := by
  unfold Json.parseBytes at h
  split at h
  · cases h
  · rename_i ps hps
    rw [Json.documentOfPoints] at h
    cases hread : Json.parsePoints levels ps with
    | ok j =>
      rw [hread] at h
      cases h
    | error e =>
      rw [hread] at h
      cases e with
      | tooDeep c => exact ⟨ps, hps, Json.exists_parsePoints_eq_tooDeep_iff.mp ⟨c, hread⟩⟩
      | malformed problem position => cases h
      | longInteger n => cases h

structure Classified (levels : ℕ) (r : Request) (o : Outcome) (e : Exchange) : Prop where
  sent : ∃ m, e.sent = [m]
  answered : ∀ j, e.answer = .ok j ↔ Answers levels o j
  /-- An answer that is an error is one of submission or of the network, as the request is. -/
  failed : ∀ error, e.answer = .error error →
    (isSubmission r → ∃ x, error = .submission x) ∧
    (¬ isSubmission r → ∃ path x, error = .network path x)

inductive Refused (b : Base) (n : Rest) (r : Request) : Prop
  | long (h : Url.lengthLimit < (address n r).toList.length)
  | authority (h : ¬ b.authority.Accepted)
  | part {u : Url} (hquery : query? r ≠ none) (h : Url.parse (address n r) = .ok u)
    (hlong : u.HasLongPart)
  | hash (h : brokenHash? r ≠ none)

section Addresses

variable {b : Base}

def Base.at (b : Base) (path : List Char) : Base :=
  { b with rest := (b.rest.reverse.dropWhile (· = '/')).reverse ++ path }

theorem IsHost.ne_nil {cs : List Char} (h : IsHost cs) : cs ≠ [] := by
  cases h with
  | name hne _ => exact hne
  | literal _ _ => exact List.cons_ne_nil _ _

theorem Authority.WellFormed.text_ne_nil {a : Authority} (h : a.WellFormed) : a.text ≠ [] := by
  simp [Authority.text, Authority.place, h.host.ne_nil]

/-- Slashes end at the authority, which does not end in one. -/
theorem trimSlashes_text (h : b.WellFormed) :
    trimSlashes (String.ofList b.text) = String.ofList (b.at []).text := by
  let front := b.scheme ++ ':' :: '/' :: '/' :: b.authority.text
  have hfront : front.reverse.dropWhile (· = '/') = front.reverse := by
    obtain ⟨c, cs, hlast⟩ := List.exists_cons_of_ne_nil (mt List.reverse_eq_nil_iff.mp
      h.authority.text_ne_nil)
    have hc : c ∈ b.authority.text := List.mem_reverse.mp (by rw [hlast]; exact List.mem_cons_self)
    have hslash : c ≠ '/' := by
      rintro rfl
      exact (h.authority.forall_mem_text '/' hc).2 (by decide)
    have hreverse : front.reverse =
        c :: (cs ++ (b.scheme ++ [':', '/', '/']).reverse) := by
      have hparts : front = (b.scheme ++ [':', '/', '/']) ++ b.authority.text := by simp [front]
      rw [hparts, List.reverse_append, hlast, List.cons_append]
    rw [hreverse, List.dropWhile_cons_of_neg (by simp [hslash])]
  have htrimmed : (front ++ b.rest).reverse.dropWhile (· = '/') =
      b.rest.reverse.dropWhile (· = '/') ++ front.reverse := by
    rw [List.reverse_append, List.dropWhile_append, hfront]
    split_ifs with hempty
    · rw [List.isEmpty_iff.mp hempty, List.nil_append]
    · rfl
  have htext : b.text = front ++ b.rest := by simp [Base.text, front]
  rw [trimSlashes, String.toList_ofList, htext, htrimmed, List.reverse_append,
    List.reverse_reverse]
  simp [Base.text, Base.at, front]

theorem address_eq {n : Rest} (hn : n.url = String.ofList (b.at []).text) (r : Request) :
    address n r = String.ofList (b.at (path r).toList).text := by
  rw [address, hn]
  apply String.toList_injective
  simp [Base.text, Base.at]

theorem head_path (r : Request) : (path r).toList.head? = some '/' := by
  have hlead {s t : String} (hs : s.toList.head? = some '/') :
      (s ++ t).toList.head? = some '/' := by
    rw [String.toList_append, List.head?_append, hs, Option.some_or]
  have hstorage : "/api/v1/storage/".toList.head? = some '/' := by decide
  have hcontract : "/api/v1/contract/".toList.head? = some '/' := by decide
  have htransaction : "/api/v1/transaction".toList.head? = some '/' := by decide
  cases r with
  | sendRawTransaction => exact htransaction
  | storage => exact hlead (hlead (hlead hstorage))
  | contract => exact hlead hcontract
  | contractJson => exact hlead hcontract

theorem Base.WellFormed.at_path (h : b.WellFormed) {r : Request}
    (hr : ∀ c ∈ (path r).toList, ¬ Url.isUnprintable c) : (b.at (path r).toList).WellFormed := by
  have hkept : (b.rest.reverse.dropWhile (· = '/')).reverse <+: b.rest := by
    have hsuffix := List.reverse_prefix.mpr (List.dropWhile_suffix (· = '/') (l := b.rest.reverse))
    rwa [List.reverse_reverse] at hsuffix
  refine ⟨h.letter, h.scheme, h.authority, ?_, ?_⟩
  · intro c hc
    dsimp only [Base.at] at hc
    cases htrimmed : (b.rest.reverse.dropWhile (· = '/')).reverse with
    | nil =>
      rw [htrimmed, List.nil_append, head_path] at hc
      rw [← Option.some.inj hc]
      decide
    | cons d trimmed =>
      obtain ⟨dropped, hrest⟩ := hkept
      rw [htrimmed] at hc hrest
      refine h.mark c ?_
      rw [← hrest, ← hc]
      rfl
  · intro c hc
    rcases List.mem_append.mp hc with hc | hc
    · exact h.rest c (hkept.subset hc)
    · exact hr c hc

theorem length_query {r : Request} {query : String} (h : query? r = some query) :
    query.toList.length ≤ Url.lengthLimit := by
  have hpreExecute : "preExec=1".toList.length ≤ Url.lengthLimit := by decide
  have hraw : "raw=1".toList.length ≤ Url.lengthLimit := by decide
  cases r with
  | sendRawTransaction data preExecute =>
    cases preExecute with
    | false => cases h
    | true => rwa [← Option.some.inj h]
  | contract => rwa [← Option.some.inj h]
  | storage => cases h
  | contractJson => cases h

variable {n : Rest} {r : Request}

theorem url_of_parse {u : Url} (hu : Url.parse (address n r) = .ok u) (habsolute : u.isAbsolute) :
    url n r = match brokenHash? r with
      | some b => .error (.unencodable b)
      | none =>
        match query? r with
        | some query => u.withQuery query.toList
        | none => .ok u := by
  rw [url, hu, ok_bind, if_pos habsolute]
  cases brokenHash? r <;> rfl

theorem url_refused (h : b.WellFormed) (hn : n.url = String.ofList (b.at []).text)
    (hr : ∀ c ∈ (path r).toList, ¬ Url.isUnprintable c) (hrefused : Refused b n r) :
    ∃ e, url n r = .error e := by
  have hparse (hparts : Url.lengthLimit < (address n r).toList.length ∨ ¬ b.authority.Accepted) :
      ∃ e, url n r = .error e := by
    rw [address_eq hn, String.toList_ofList] at hparts
    obtain ⟨e, he⟩ := Base.parse_refused (h.at_path hr) hparts
    refine ⟨e, ?_⟩
    rw [url, address_eq hn, he]
    rfl
  cases hrefused with
  | long hlong => exact hparse (.inl hlong)
  | authority hauthority => exact hparse (.inr hauthority)
  | @part u hquery hu hlong =>
    by_cases haddress : Url.lengthLimit < (address n r).toList.length ∨ ¬ b.authority.Accepted
    · exact hparse haddress
    obtain ⟨hlength, haccepted⟩ := not_or.mp haddress
    obtain ⟨query, hquery⟩ := Option.ne_none_iff_exists'.mp hquery
    have habsolute : u.isAbsolute := by
      rw [address_eq hn, String.toList_ofList] at hlength
      obtain ⟨v, hv, -, habsolute, -⟩ :=
        Base.parse_accepted (h.at_path hr) (not_lt.mp hlength) (not_not.mp haccepted)
      rw [address_eq hn, hv] at hu
      rwa [← Except.ok.inj hu]
    rw [url_of_parse hu habsolute, hquery]
    cases brokenHash? r with
    | some b => exact ⟨_, rfl⟩
    | none => exact u.withQuery_refused query.toList hlong
  | hash hbroken =>
    obtain ⟨b', hb'⟩ := Option.ne_none_iff_exists'.mp hbroken
    cases hu : Url.parse (address n r) with
    | error e =>
      refine ⟨e, ?_⟩
      rw [url, hu]
      rfl
    | ok u =>
      rw [url, hu, hb', ok_bind]
      by_cases habsolute : u.isAbsolute
      · exact ⟨_, if_pos habsolute⟩
      · rw [if_neg habsolute]
        cases u.fromRoot <;> exact ⟨_, rfl⟩

theorem url_accepted (h : b.WellFormed) (hn : n.url = String.ofList (b.at []).text)
    (hr : ∀ c ∈ (path r).toList, ¬ Url.isUnprintable c) (hrefused : ¬ Refused b n r) :
    ∃ u, url n r = .ok u ∧ u.isAbsolute := by
  have hlength : (address n r).toList.length ≤ Url.lengthLimit :=
    not_lt.mp fun hlong => hrefused (.long hlong)
  have haccepted : b.authority.Accepted := by
    by_contra hnot
    exact hrefused (.authority hnot)
  have hwritten := hlength
  rw [address_eq hn, String.toList_ofList] at hwritten
  obtain ⟨u, hu, hscheme, habsolute, hshown, hshown'⟩ :=
    Base.parse_accepted (h.at_path hr) hwritten haccepted
  rw [← address_eq hn] at hu
  have hhash : brokenHash? r = none := by
    by_contra hbroken
    exact hrefused (.hash hbroken)
  cases hquery : query? r with
  | none =>
    refine ⟨u, ?_, habsolute⟩
    rw [url_of_parse hu habsolute, hhash, hquery]
  | some query =>
    have hlong : ¬ u.HasLongPart := fun hlong => hrefused (.part (by simp [hquery]) hu hlong)
    have hscheme' : u.scheme.length ≤ Url.lengthLimit := by
      have hpart : b.scheme.length ≤ (b.at (path r).toList).text.length := by
        simp [Base.text, Base.at]
      rw [hscheme, List.length_map]
      exact hpart.trans hwritten
    obtain ⟨v, hv, habsolute'⟩ := Url.withQuery_accepted hlong hscheme' (length_query hquery)
      habsolute hshown hshown'
    refine ⟨v, ?_, habsolute'⟩
    rw [url_of_parse hu habsolute, hhash, hquery]
    exact hv

end Addresses

theorem url_of_long_hash (n : Rest) {hash : String} (h : Url.lengthLimit < hash.toList.length) :
    url n (.contractJson hash) = .error .tooLong := by
  have hlong : Url.lengthLimit < (address n (.contractJson hash)).toList.length := by
    have haddress : address n (.contractJson hash) = n.url ++ "/api/v1/contract/" ++ hash :=
      String.append_assoc.symm
    rw [haddress, String.toList_append, List.length_append]
    exact Nat.lt_add_left _ h
  have hparse : Url.parse (address n (.contractJson hash)) = .error .tooLong := if_pos hlong
  rw [url, hparse]
  rfl

section Exchanges

variable {n : Rest} {r : Request} {o : Outcome}

/-- Without an address nothing is sent, and the error is of neither kind. -/
theorem exchange_of_url_error {e : UrlError} (hu : url n r = .error e) (o : Outcome) :
    (n.exchange levels r o).sent = [] ∧ (n.exchange levels r o).answer = .error (.noUrl e) := by
  have hmessage : message n r = .error e := by
    rw [message.eq_def, hu]
    rfl
  refine ⟨?_, ?_⟩
  · simp only [Rest.exchange, hmessage]
  · simp only [Rest.exchange, answer, hu]

theorem exchange_of_url {u : Url} (hu : url n r = .ok u) (o : Outcome) :
    (∃ m, (n.exchange levels r o).sent = [m]) ∧
      (n.exchange levels r o).answer = read levels n r u o := by
  obtain ⟨m, hmessage⟩ : ∃ m, message n r = .ok m := by
    rw [message.eq_def, hu]
    exact ⟨_, rfl⟩
  refine ⟨⟨m, ?_⟩, ?_⟩
  · simp only [Rest.exchange, hmessage]
  · simp only [Rest.exchange, answer, hu]

theorem exchangeFailed_kind (r : Request) (e : ExchangeError) :
    (isSubmission r → ∃ x, exchangeFailed r e = .submission x) ∧
    (¬ isSubmission r → ∃ path x, exchangeFailed r e = .network path x) :=
  ⟨fun h => ⟨e, if_pos h⟩, fun h => ⟨path r, e, if_neg h⟩⟩

/-- What comes back from an absolute address is a document or a failure of the exchange, if it can
be read at all. -/
theorem read_cases {u : Url} (habsolute : u.isAbsolute)
    (ho : ∀ kind text, o = .failure kind text → kind ∉ unexpectedKinds)
    (hdeep : ¬ Overdeep levels o) :
    (∃ j, read levels n r u o = .ok j ∧ Answers levels o j) ∨
    (∃ e, read levels n r u o = .error (exchangeFailed r e) ∧ ∀ j, ¬ Answers levels o j) := by
  cases o with
  | failure kind text =>
    have hkind : unexpectedKinds.contains kind = false := by
      simpa using ho kind text rfl
    refine .inr ⟨.transport kind text, ?_, ?_⟩
    · simp only [read, hkind, Bool.false_eq_true, if_false]
    · rintro j ⟨status, body, heq, -⟩
      cases heq
  | response status body =>
    by_cases hstatus : Status.isSuccess status
    · have hrange : 200 ≤ status ∧ status < 300 := by
        simpa [Status.isSuccess] using hstatus
      cases hbody : Json.parseBytes levels body with
      | ok j =>
        refine .inl ⟨j, ?_, status, body, rfl, hrange.1, hrange.2, hbody⟩
        simp [read, habsolute, hstatus, hbody, Except.mapError]
      | error e =>
        have hfailed : bodyFailed n r e = exchangeFailed r (.notJson (address n r) e) := by
          cases e with
          | tooDeep c =>
            obtain ⟨ps, hps, hgoes⟩ := exists_goesDeeper_of_parseBytes hbody
            exact absurd ⟨status, body, ps, rfl, hrange.1, hrange.2, hps, hgoes⟩ hdeep
          | _ => rfl
        refine .inr ⟨.notJson (address n r) e, ?_, ?_⟩
        · simp [read, habsolute, hstatus, hbody, Except.mapError, hfailed]
        · rintro j ⟨_, _, heq, -, -, hj⟩
          cases heq
          rw [hbody] at hj
          cases hj
    · refine .inr ⟨.status status u.render, ?_, ?_⟩
      · simp [read, habsolute, hstatus]
      · rintro j ⟨_, _, heq, hlow, hhigh, -⟩
        cases heq
        exact hstatus (by simp [Status.isSuccess, hlow, hhigh])

/-- A body that goes too deep fails in no way that a request declares. -/
theorem read_of_overdeep {u : Url} (habsolute : u.isAbsolute) (h : Overdeep levels o) :
    ∃ kind text, read levels n r u o = .error (.unexpected kind text) := by
  obtain ⟨status, body, ps, rfl, hlow, hhigh, hps, hgoes⟩ := h
  obtain ⟨c, hbody⟩ := parseBytes_of_goesDeeper hps hgoes
  have hstatus : Status.isSuccess status := by simp [Status.isSuccess, hlow, hhigh]
  refine ⟨"RecursionError", Json.tooDeepMessage c, ?_⟩
  simp [read, habsolute, hstatus, hbody, Except.mapError, bodyFailed]

theorem exchange_classified {u : Url} (hu : url n r = .ok u) (habsolute : u.isAbsolute)
    (ho : ∀ kind text, o = .failure kind text → kind ∉ unexpectedKinds)
    (hdeep : ¬ Overdeep levels o) : Classified levels r o (n.exchange levels r o) := by
  obtain ⟨hsent, hanswer⟩ := exchange_of_url hu o
  obtain ⟨j, hj, hanswers⟩ | ⟨e, he, hnone⟩ := read_cases (n := n) (r := r) habsolute ho hdeep
  · refine ⟨hsent, fun j' => ?_, fun error herror => ?_⟩
    · rw [hanswer, hj]
      constructor
      · intro heq
        rwa [← Except.ok.inj heq]
      · intro hanswers'
        rw [hanswers.unique hanswers']
    · rw [hanswer, hj] at herror
      cases herror
  · refine ⟨hsent, fun j => ?_, fun error herror => ?_⟩
    · rw [hanswer, he]
      exact ⟨nofun, fun hj => absurd hj (hnone j)⟩
    · rw [hanswer, he] at herror
      rw [← Except.error.inj herror]
      exact exchangeFailed_kind r e

theorem not_classified_of_unexpected {e : Exchange} {kind text : String}
    (h : e.answer = .error (.unexpected kind text)) : ¬ Classified levels r o e := by
  intro hclassified
  obtain ⟨hsubmission, hquery⟩ := hclassified.failed _ h
  by_cases hr : isSubmission r
  · obtain ⟨x, hx⟩ := hsubmission hr
    cases hx
  · obtain ⟨path, x, hx⟩ := hquery hr
    cases hx

end Exchanges

section Runs

/-- No use of a client changes the address of its node. -/
theorem Rest.url_run (n : Rest) (uses : List Use) : (n.run levels uses).1.url = n.url := by
  induction uses generalizing n with
  | nil => rfl
  | cons u uses ih =>
    have hstep : (n.use levels u).1.url = n.url := by cases u <;> rfl
    exact (ih (n.use levels u).1).trans hstep

theorem Rest.url_make {b : Base} (h : b.WellFormed) (env : Option String) :
    (Rest.make (some (String.ofList b.text)) env).url = String.ofList (b.at []).text := by
  have hne : (String.ofList b.text).isEmpty = false := by
    rw [← Bool.not_eq_true, String.isEmpty_iff, String.ofList_eq_empty_iff]
    simp [Base.text]
  rw [Rest.make]
  simp only [hne, Bool.false_eq_true, if_false]
  exact trimSlashes_text h

/-- At any place in a session, a request is classified exactly when it is not refused and its
outcome does not go too deep, and it leaves the session as it is. -/
theorem Rest.use_classified_iff (levels : ℕ) (b : Base) (hb : b.WellFormed) (env : Option String)
    (before : List Use) (r : Request) (hr : ∀ c ∈ (path r).toList, ¬ Url.isUnprintable c)
    (o : Outcome) (ho : ∀ kind text, o = .failure kind text → kind ∉ unexpectedKinds) :
    let n := ((Rest.make (some (String.ofList b.text)) env).run levels before).1
    ∃ e, n.use levels (.call r o) = (n, some e) ∧ e.shared = n.session ∧
      (Classified levels r o e ↔ ¬ Refused b n r ∧ ¬ Overdeep levels o) := by
  intro n
  have hn : n.url = String.ofList (b.at []).text :=
    (Rest.url_run _ before).trans (Rest.url_make hb env)
  refine ⟨n.exchange levels r o, rfl, rfl, fun hclassified => ?_, fun ⟨hrefused, hdeep⟩ => ?_⟩
  · have hrefused : ¬ Refused b n r := by
      intro hrefused
      obtain ⟨e, he⟩ := url_refused hb hn hr hrefused
      obtain ⟨m, hm⟩ := hclassified.sent
      rw [(exchange_of_url_error he o).1] at hm
      cases hm
    refine ⟨hrefused, fun hdeep => ?_⟩
    obtain ⟨u, hu, habsolute⟩ := url_accepted hb hn hr hrefused
    obtain ⟨kind, text, hread⟩ := read_of_overdeep (n := n) (r := r) habsolute hdeep
    exact not_classified_of_unexpected ((exchange_of_url hu o).2.trans hread) hclassified
  · obtain ⟨u, hu, habsolute⟩ := url_accepted hb hn hr hrefused
    exact exchange_classified hu habsolute ho hdeep

theorem Rest.use_classified_single :
    let b : Base := ⟨"http".toList, ⟨none, "node.test".toList, some "20334".toList⟩, ['/']⟩
    let n := ((Rest.make (some (String.ofList b.text)) none).run 960 [.enter]).1
    let r := Request.contractJson "ab12"
    ∃ e, n.use 960 (.call r (.response 503 [])) = (n, some e) ∧ e.shared = true ∧
      Classified 960 r (.response 503 []) e := by
  intro b n r
  have hport : ∀ cs, b.authority.port = some cs →
      (∀ c ∈ cs, Host.isDigit c) ∧ cs.length ≤ Json.digitLimit := by
    intro cs hcs
    rw [← Option.some.inj hcs]
    exact ⟨List.all_iff_forall_prop.mp (by decide), by decide⟩
  have hauthority : b.authority.WellFormed :=
    ⟨nofun, .name (by decide) (List.all_iff_forall_prop.mp (by decide)),
      fun cs hcs => (hport cs hcs).1⟩
  have hmark : ∀ c, b.rest.head? = some c → c ∈ ['/', '?', '#'] := by
    intro c hc
    rw [← Option.some.inj hc]
    decide
  have hb : b.WellFormed :=
    ⟨by decide, List.all_iff_forall_prop.mp (by decide), hauthority, hmark,
      List.all_iff_forall_prop.mp (by decide)⟩
  have hr : ∀ c ∈ (path r).toList, ¬ Url.isUnprintable c :=
    List.all_iff_forall_prop.mp (by decide)
  have hrefused : ¬ Refused b n r := by
    rintro (hlong | hnot | ⟨hquery, -, -⟩ | hbroken)
    · exact absurd hlong (by decide)
    · exact hnot ⟨by decide, fun cs hcs => (hport cs hcs).2⟩
    · exact hquery rfl
    · exact hbroken rfl
  have hdeep : ¬ Overdeep 960 (.response 503 []) := by
    rintro ⟨status, body, ps, heq, -, hhigh, -⟩
    cases heq
    exact absurd hhigh (by decide)
  obtain ⟨e, he, hshared, hiff⟩ := Rest.use_classified_iff 960 b hb none [.enter] r hr
    (.response 503 []) nofun
  exact ⟨e, he, hshared, hiff.mpr ⟨hrefused, hdeep⟩⟩

/-- A hash of too many letters makes an address that is too long, and the error is of no kind that
the interface has. -/
theorem Rest.use_not_classified_long :
    let n := Rest.make (some "http://node.test:20334") none
    let r := Request.contractJson (String.ofList (List.replicate 65600 'a'))
    let o := Outcome.response 200 [0x7b, 0x7d]
    ∃ e, n.use 960 (.call r o) = (n, some e) ∧ e.sent = [] ∧ e.answer = .error (.noUrl .tooLong) ∧
      ¬ Classified 960 r o e := by
  have hlong : Url.lengthLimit < (String.ofList (List.replicate 65600 'a')).toList.length := by
    rw [String.toList_ofList, List.length_replicate]
    decide
  generalize String.ofList (List.replicate 65600 'a') = hash at hlong
  intro n r o
  obtain ⟨hsent, hanswer⟩ := exchange_of_url_error (url_of_long_hash n hlong) o
  refine ⟨n.exchange 960 r o, rfl, hsent, hanswer, fun hclassified => ?_⟩
  obtain ⟨m, hm⟩ := hclassified.sent
  rw [hsent] at hm
  cases hm

end Runs

end Bindery.Node
