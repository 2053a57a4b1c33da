import Bindery.Contract.Client
import Bindery.Json.Parse
import Bindery.Json.Print
import Bindery.Node.Status
import Bindery.Node.Url

/-!
# The REST interface of a node

Each request becomes one exchange over HTTP, if the node's address and the path of the request make
an address together. The outcome of an exchange, whatever it is, is either the document that the
node answered or an error: of submission for a transaction, of the network for a query.
-/

namespace Bindery.Node

def defaultUrl : String := "http://polaris1.ont.io:20334"

def version : String := "1.0.0"

def trimSlashes (s : String) : String :=
  String.ofList (s.toList.reverse.dropWhile (· = '/')).reverse

def environmentUrl (env : Option String) : String := trimSlashes (env.getD defaultUrl)

structure Rest where
  url : String
  session : Bool
  deriving DecidableEq, Repr

def Rest.make (url : Option String) (env : Option String) : Rest :=
  let url := match url with
    | some s => if s.isEmpty then environmentUrl env else s
    | none => environmentUrl env
  ⟨trimSlashes url, false⟩

/-- Opens a shared session in the place of an open one. -/
def Rest.enter (n : Rest) : Rest := { n with session := true }

def Rest.exit (n : Rest) : Rest := { n with session := false }

structure Message where
  method : String
  url : Url
  body : String
  deriving DecidableEq, Repr

/-- What comes back: a response, or the failure of the transport by its kind. -/
inductive Outcome
  | response (status : Nat) (body : Bytes)
  | failure (kind text : String)
  deriving DecidableEq, Repr

def path : Request → String
  | .sendRawTransaction .. => "/api/v1/transaction"
  | .storage codeHash key => "/api/v1/storage/" ++ codeHash.shown ++ "/" ++ key
  | .contract codeHash | .contractJson codeHash => "/api/v1/contract/" ++ codeHash.shown

def brokenHash? : Request → Option Text.Broken
  | .sendRawTransaction .. => none
  | .storage codeHash _ | .contract codeHash | .contractJson codeHash => codeHash.broken?

/-- The query of a request that has one. It takes the place of any other. -/
def query? : Request → Option String
  | .sendRawTransaction _ preExecute => if preExecute then some "preExec=1" else none
  | .contract _ => some "raw=1"
  | .storage .. | .contractJson _ => none

def quoteUnescaped (s : String) : String :=
  String.ofList ('"' :: s.toList.flatMap
    (fun c => if 0x7f ≤ c.toNat then [c] else Json.escapeChar c) ++ ['"'])

def submission (data : String) : String :=
  "\x7b\"Action\":\"sendrawtransaction\",\"Version\":\"" ++ version ++ "\",\"Data\":"
    ++ quoteUnescaped data ++ "\x7d"

def isSubmission : Request → Bool
  | .sendRawTransaction .. => true
  | _ => false

def method (r : Request) : String := if isSubmission r then "POST" else "GET"

def address (n : Rest) (r : Request) : String := n.url ++ path r

def url (n : Rest) (r : Request) : Except UrlError Url := do
  let u ← Url.parse (address n r)
  let u ← if u.isAbsolute then pure u else u.fromRoot
  if let some b := brokenHash? r then throw (.unencodable b)
  match query? r with
  | some query => u.withQuery query.toList
  | none => return u

def message (n : Rest) (r : Request) : Except UrlError Message := do
  let body := match r with
    | .sendRawTransaction data _ => submission data
    | _ => ""
  return ⟨method r, ← url n r, body⟩

def record (n : Rest) (r : Request) : LogRecord :=
  ⟨.debug, .node, method r ++ " " ++ address n r⟩

inductive ExchangeError
  | transport (kind text : String)
  | status (code : Nat) (url : String)
  | notJson (url : String) (reason : Json.DocumentError)
  deriving DecidableEq, Repr

def ExchangeError.message : ExchangeError → String
  | .transport _ text => text
  | .status code url =>
    s!"{Status.className code} '{code} {Status.phrase code}' for url '{url}'\nFor more information check: https://developer.mozilla.org/en-US/docs/Web/HTTP/Status/{code}"
  | .notJson url _ => s!"Non-JSON response from {url}"

/-- A request that failed: a transaction that was not taken, a query that was not answered, or
something that is no failure of an exchange. -/
inductive Error
  | submission (e : ExchangeError)
  | network (path : String) (e : ExchangeError)
  /-- The request has no address, so nothing was sent. -/
  | noUrl (e : UrlError)
  /-- There was a response, but its address does not say by itself where it came from. -/
  | schemeless (url : String)
  | unexpected (kind text : String)
  deriving DecidableEq, Repr

def Error.message : Error → String
  | .submission e => "Transaction submission failed: " ++ e.message
  | .network _ (.notJson url reason) => (ExchangeError.notJson url reason).message
  | .network path e => "Request to " ++ path ++ " failed: " ++ e.message
  | .noUrl e => e.message
  | .schemeless url => "unknown url type: " ++ Text.quote url
  | .unexpected _ text => text

/-- The kinds of failures that a transport can raise but that are not failures of an exchange. -/
def unexpectedKinds : List String := ["InvalidURL", "CookieConflict", "StreamError"]

def exchangeFailed (r : Request) (e : ExchangeError) : Error :=
  if isSubmission r then .submission e else .network (path r) e

def bodyFailed (n : Rest) (r : Request) : Json.DocumentError → Error
  | .tooDeep c => .unexpected "RecursionError" (Json.tooDeepMessage c)
  | e => exchangeFailed r (.notJson (address n r) e)

/-- The answer to a request that was sent to an address, given what the exchange came to; a document
is read with `levels` levels. -/
def read (levels : Nat) (n : Rest) (r : Request) (u : Url) : Outcome → Except Error Json
  | .failure kind text =>
    .error (if unexpectedKinds.contains kind then .unexpected kind text
      else exchangeFailed r (.transport kind text))
  | .response status body =>
    if !u.isAbsolute then .error (.schemeless u.render)
    else if Status.isSuccess status then
      (Json.parseBytes levels body).mapError (bodyFailed n r)
    else .error (exchangeFailed r (.status status u.render))

def answer (levels : Nat) (n : Rest) (r : Request) (o : Outcome) : Except Error Json :=
  match url n r with
  | .error e => .error (.noUrl e)
  | .ok u => read levels n r u o

end Bindery.Node
