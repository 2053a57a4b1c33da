import Bindery.Json.Basic
import Bindery.Node.Host
import Bindery.Text.Integer

/-!
# Addresses of resources

The text of an address is cut at its marks into scheme, authority, path, query and fragment, any of
which can be missing, and each part is brought into one form: the scheme and the host in lower case,
the scheme's own port left out, single and double dots followed, and what may not stand in a part
percent-encoded. Two texts of one form ask for the same.
-/

namespace Bindery.Node

structure UrlParts where
  scheme : List Char
  authority : List Char
  path : List Char
  query : Option (List Char)
  fragment : Option (List Char)

namespace UrlParts

def isLetter (c : Char) : Bool := c.isAlpha

def isSchemeChar (c : Char) : Bool := c.isAlphanum || c = '+' || c = '.' || c = '-'

/-- The scheme at the start of a text, which can be empty, and what follows its colon. -/
def cutScheme (cs : List Char) : List Char × List Char :=
  let lead := if cs.head?.any isLetter then cs.takeWhile isSchemeChar else []
  match cs.drop lead.length with
  | ':' :: rest => (lead, rest)
  | _ => ([], cs)

def cutAuthority : List Char → List Char × List Char
  | '/' :: '/' :: rest =>
    let authority := rest.takeWhile fun c => c ≠ '/' && c ≠ '?' && c ≠ '#'
    (authority, rest.drop authority.length)
  | cs => ([], cs)

/-- A text before the first mark, and what is behind it if there is one. -/
def cutAt (mark : Char) (cs : List Char) : List Char × Option (List Char) :=
  let before := cs.takeWhile (· ≠ mark)
  match cs.drop before.length with
  | [] => (before, none)
  | _ :: rest => (before, some rest)

def ofChars (cs : List Char) : UrlParts :=
  let (cs, fragment) := cutAt '#' cs
  let (scheme, rest) := cutScheme cs
  let (authority, rest) := cutAuthority rest
  let (path, query) := cutAt '?' rest
  ⟨scheme, authority, path, query, fragment⟩

end UrlParts

inductive UrlError
  | tooLong
  | partTooLong (part : String)
  | unprintable (c : Char) (position : Nat)
  | host (e : Host.Error)
  | port (text : String)
  | leadingSlashes
  | leadingColon
  /-- A surrogate in the path, which is encoded last. -/
  | unencodable (b : Text.Broken)
  deriving DecidableEq, Repr

def UrlError.message : UrlError → String
  | .tooLong => "URL too long"
  | .partTooLong part => s!"URL component '{part}' too long"
  | .unprintable c position =>
    let shown := Text.quote (String.singleton c)
    s!"Invalid non-printable ASCII character in URL, {shown} at position {position}."
  | .host e => e.message
  | .port text => s!"Invalid port: {Text.quote text}"
  | .leadingSlashes => "Relative URLs cannot have a path starting with '//'"
  | .leadingColon => "Relative URLs cannot have a path starting with ':'"
  | .unencodable b => b.message

structure Url where
  scheme : List Char
  /-- What stands before the host, to tell who asks. -/
  user : List Char
  host : List Char
  port : Option Int
  path : List Char
  query : Option (List Char)
  fragment : Option (List Char)
  deriving DecidableEq, Repr

namespace Url

def readAuthority (cs : List Char) : List Char × List Char × List Char :=
  let rest := (cs.reverse.takeWhile (· ≠ '@')).reverse
  let user := (cs.take (cs.length - rest.length)).dropLast
  let bracketed :=
    if rest.head? = some '[' then (rest.reverse.dropWhile (· ≠ ']')).reverse else []
  let host := if bracketed.isEmpty then rest.takeWhile (· ≠ ':') else bracketed
  match rest.drop host.length with
  | ':' :: port => (user, host, port)
  | port => (user, host, port)

def defaultPort? (scheme : List Char) : Option Int :=
  match String.ofList scheme with
  | "ftp" => some 21
  | "http" | "ws" => some 80
  | "https" | "wss" => some 443
  | _ => none

def portOf (scheme port : List Char) : Except UrlError (Option Int) :=
  if port.isEmpty then .ok none
  else
    match Text.readInteger Json.digitLimit (String.ofList port) with
    | none => .error (.port (String.ofList port))
    | some n => .ok (if defaultPort? scheme = some n then none else some n)

/-- Follows the dots among the parts of a path. `done` holds the parts so far, last first; there is
nothing above a path's root. -/
def followDots (done : List (List Char)) : List (List Char) → List (List Char)
  | [] => done.reverse
  | part :: rest =>
    if part = ['.'] then followDots done rest
    else if part = ['.', '.'] then followDots (if done = [[]] then done else done.drop 1) rest
    else followDots (part :: done) rest

def normalizePath (cs : List Char) : List Char :=
  ['/'].intercalate (followDots [] (Text.split (· = '/') cs))

/-- Whether an ASCII character may stand in a part, given those that may not. -/
def mayStand (excluded : List Char) (c : Char) : Bool :=
  0x20 < c.toNat && c.toNat < 0x7f && !excluded.contains c

def fragmentExcluded : List Char := ['"', '<', '>', '\x60']

def queryExcluded : List Char := ['"', '#', '<', '>']

def pathExcluded : List Char := queryExcluded ++ ['?', '\x60', '{', '}']

def userExcluded : List Char := pathExcluded ++ ['/', ';', '=', '@', '[', '\\', ']', '^', '|']

def encodePart (excluded : List Char) (cs : List Char) : List Char :=
  Text.percentEncode (mayStand excluded) cs

def ofParts (p : UrlParts) : Except UrlError Url := do
  let (user, host, port) := readAuthority p.authority
  let host ← (Host.normalize host).mapError .host
  let port ← portOf p.scheme port
  let isRelative := p.scheme.isEmpty && user.isEmpty && host.isEmpty && port.isNone
  if isRelative then
    if ['/', '/'].isPrefixOf p.path then throw .leadingSlashes
    if p.path.head? = some ':' then throw .leadingColon
  return {
    scheme := p.scheme.map Char.toLower
    user := encodePart userExcluded user
    host := host
    port := port
    path := encodePart pathExcluded (if isRelative then p.path else normalizePath p.path)
    query := p.query.map (encodePart queryExcluded)
    fragment := p.fragment.map (encodePart fragmentExcluded) }

/-- The most characters of an address, and of each of its parts. -/
def lengthLimit : Nat := 65536

def isUnprintable (c : Char) : Bool := c.toNat < 0x20 || c.toNat = 0x7f

def parse (s : String) : Except UrlError Url :=
  let cs := s.toList
  if lengthLimit < cs.length then .error .tooLong
  else
    match cs.find? isUnprintable with
    | some c => .error (.unprintable c (cs.takeWhile (!isUnprintable ·)).length)
    | none => ofParts (.ofChars cs)

def authority (u : Url) : List Char :=
  (if u.user.isEmpty then [] else u.user ++ ['@'])
    ++ (if u.host.contains ':' then '[' :: u.host ++ [']'] else u.host)
    ++ (u.port.elim [] fun n => ':' :: (toString n).toList)

def renderChars (u : Url) : List Char :=
  (if u.scheme.isEmpty then [] else u.scheme ++ [':'])
    ++ (if u.authority.isEmpty then [] else '/' :: '/' :: u.authority)
    ++ u.path ++ (u.query.elim [] ('?' :: ·)) ++ (u.fragment.elim [] ('#' :: ·))

def render (u : Url) : String := String.ofList u.renderChars

/-- The address of parts that have been put together anew. -/
def ofNewParts (p : UrlParts) : Except UrlError Url :=
  let parts :=
    [ ("scheme", p.scheme), ("authority", p.authority), ("path", p.path),
      ("query", p.query.getD []), ("fragment", p.fragment.getD [])]
  match parts.find? fun part => lengthLimit < part.2.length with
  | some (name, _) => .error (.partTooLong name)
  | none => ofParts p

def withQuery (u : Url) (query : List Char) : Except UrlError Url :=
  ofNewParts ⟨u.scheme, u.authority, u.path, some query, u.fragment⟩

/-- Whether an address says by itself where to ask. -/
def isAbsolute (u : Url) : Bool := !u.scheme.isEmpty && !u.host.isEmpty

/-- The path and the query of an address that is not absolute, from the root on. -/
def fromRoot (u : Url) : Except UrlError Url :=
  let path := u.path.dropWhile (· = '/')
  ofNewParts ⟨[], [], '/' :: path, u.query, none⟩

end Url

end Bindery.Node
